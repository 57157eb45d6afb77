import Mathlib

/-!
# Replicas whose operations are joins

A replica starts empty, takes operations one at a time and may be merged with
another replica.  When its observable state lives in a join semilattice, in which an
operation joins its own contribution and a merge joins the two states, what is
observed is the least upper bound of the contributions: it depends on which
operations went in, and on nothing else.
-/

namespace JoinReplica

/-- How a replica came about. -/
inductive Plan (ο : Type*)
  | empty
  | apply (p : Plan ο) (o : ο)
  | merge (p q : Plan ο)

namespace Plan

variable {ο S σ : Type*}

def ops : Plan ο → List ο
  | empty => []
  | apply p o => p.ops ++ [o]
  | merge p q => p.ops ++ q.ops

variable (init : S) (app : S → ο → S) (join : S → S → S)

def run : Plan ο → S
  | empty => init
  | apply p o => app p.run o
  | merge p q => join p.run q.run

variable [SemilatticeSup σ] [OrderBot σ] {view : S → σ} {delta : ο → σ} {I : S → Prop}

theorem run_inv (h₀ : I init) (happ : ∀ s o, I s → I (app s o))
    (hjoin : ∀ s t, I s → I t → I (join s t)) (p : Plan ο) : I (p.run init app join) := by
  induction p with
  | empty => exact h₀
  | apply p o ih => exact happ _ o ih
  | merge p q ihp ihq => exact hjoin _ _ ihp ihq

/-- What is observed of a replica is the join of what went into it. -/
theorem isLUB_view (h₀ : I init) (happ : ∀ s o, I s → I (app s o))
    (hjoin : ∀ s t, I s → I t → I (join s t)) (hview₀ : view init = ⊥)
    (hviewApp : ∀ s o, I s → view (app s o) = view s ⊔ delta o)
    (hviewJoin : ∀ s t, I s → I t → view (join s t) = view s ⊔ view t) (p : Plan ο) :
    IsLUB (delta '' {o | o ∈ p.ops}) (view (p.run init app join)) := by
  have hinv := run_inv init app join h₀ happ hjoin
  induction p with
  | empty => simp [run, ops, hview₀]
  | apply p o ih =>
    have hset : delta '' {x | x ∈ (apply p o).ops} = delta '' {x | x ∈ p.ops} ∪ {delta o} := by
      rw [← Set.image_singleton, ← Set.image_union]
      exact congrArg (Set.image delta) (by ext x; simp [ops, or_comm])
    rw [hset, run, hviewApp _ _ (hinv p)]
    exact ih.union isLUB_singleton
  | merge p q ihp ihq =>
    have hset : delta '' {x | x ∈ (merge p q).ops} =
        delta '' {x | x ∈ p.ops} ∪ delta '' {x | x ∈ q.ops} := by
      rw [← Set.image_union]
      exact congrArg (Set.image delta) (by ext x; simp [ops])
    rw [hset, run, hviewJoin _ _ (hinv p) (hinv q)]
    exact ihp.union ihq

end Plan

end JoinReplica

import Mathlib

/-!
# A list and where its elements are

An index maps the elements of a list without repetitions to their positions.  It has to
follow when an element is appended, and when one is taken out of the middle.
-/

namespace PositionIndex

variable {κ : Type*}

/-- The element at position `i` is mapped to `i`, and nothing else is mapped. -/
def Indexes (keys : List κ) (index : κ → Option ℕ) : Prop :=
  ∀ k i, index k = some i ↔ keys[i]? = some k

/-- Without the element `k`, that was at `pos`. -/
def remove [DecidableEq κ] (index : κ → Option ℕ) (k : κ) (pos : ℕ) : κ → Option ℕ := fun k' =>
  (Function.update index k none k').map fun i => if i > pos then i - 1 else i

section Indexes

variable {keys : List κ} {index : κ → Option ℕ}

theorem indexes_nil : Indexes ([] : List κ) fun _ => none := by
  intro k i
  simp

theorem Indexes.nodup (h : Indexes keys index) : keys.Nodup := by
  rw [List.Nodup, List.pairwise_iff_getElem]
  intro i j hi hj hij heq
  have hfirst := (h keys[i] i).mpr (List.getElem?_eq_getElem hi)
  have hsecond := (h keys[i] j).mpr (heq ▸ List.getElem?_eq_getElem hj)
  rw [hfirst] at hsecond
  exact absurd (Option.some.inj hsecond) hij.ne

theorem Indexes.isSome_iff (h : Indexes keys index) (k : κ) :
    (index k).isSome = true ↔ k ∈ keys := by
  rw [Option.isSome_iff_exists, List.mem_iff_getElem?]
  exact exists_congr (h k)

theorem Indexes.not_mem (h : Indexes keys index) {k : κ} (hk : index k = none) : k ∉ keys := by
  rw [← h.isSome_iff, hk]
  exact Bool.false_ne_true

variable [DecidableEq κ]

theorem Indexes.concat (h : Indexes keys index) {k : κ} (hk : index k = none) :
    Indexes (keys ++ [k]) (Function.update index k (some keys.length)) := by
  intro k' i
  rw [List.getElem?_append]
  by_cases hsame : k' = k
  · subst hsame
    have hno : keys[i]? ≠ some k' := fun hi => by
      rw [(h k' i).mpr hi] at hk
      cases hk
    rw [Function.update_self, Option.some.injEq]
    split_ifs with hi
    · exact iff_of_false (by omega) hno
    · rw [List.getElem?_singleton]
      split_ifs with hlast
      · exact iff_of_true (by omega) rfl
      · exact iff_of_false (by omega) (by simp)
  · rw [Function.update_of_ne hsame, h]
    split_ifs with hi
    · rfl
    · rw [List.getElem?_eq_none (by omega), List.getElem?_singleton]
      split_ifs <;> simp [Ne.symm hsame]

/-- Positions behind the gap move up. -/
theorem Indexes.eraseIdx (h : Indexes keys index) {k : κ} {pos : ℕ} (hpos : index k = some pos) :
    Indexes (keys.eraseIdx pos) (remove index k pos) := by
  have hat : ∀ i, keys[i]? = some k ↔ i = pos := fun i => by
    rw [← h, hpos, Option.some.injEq, eq_comm]
  intro k' i
  rw [remove, List.getElem?_eraseIdx]
  by_cases hsame : k' = k
  · subst hsame
    rw [Function.update_self]
    refine iff_of_false (by simp) ?_
    split_ifs <;> rw [hat] <;> omega
  · rw [Function.update_of_ne hsame]
    cases hold : index k' with
    | none =>
      refine iff_of_false (by simp) ?_
      split_ifs <;> rw [← h, hold] <;> simp
    | some j =>
      have hne : j ≠ pos := fun heq => hsame <| by
        have hk := (h k' j).mp hold
        rw [heq, (hat pos).mpr rfl] at hk
        exact (Option.some.inj hk).symm
      rw [Option.map_some, Option.some.injEq]
      have hj : ∀ i, keys[i]? = some k' ↔ j = i := fun i => by
        rw [← h, hold, Option.some.injEq]
      split_ifs <;> rw [hj] <;> omega

end Indexes

end PositionIndex

import Mathlib

/-!
# Requests over a lossy link

A sender makes requests, one after the other, and sees which of them are acknowledged.  A
request can get lost, and so can the answer to it; the sender cannot tell the two apart and
sends again what it has not seen acknowledged.

When what is observed of the server lives in a join semilattice, in which a request joins its
own effect, sending again does nothing.
-/

namespace LossyLink

/-- What becomes of a request: it does not reach the server, or its answer is lost, or both
arrive. -/
inductive Fate
  | lost
  | unanswered
  | answered
  deriving DecidableEq

variable {π σ L : Type*} (handle : π → σ → Bool × σ)

/-- What the sender sees of one request, and the server after it. -/
def request : Fate → π → σ → Bool × σ
  | .lost, _, s => (false, s)
  | .unanswered, p, s => (false, (handle p s).2)
  | .answered, p, s => handle p s

def requests : List (π × Fate) → σ → List Bool × σ
  | [], s => ([], s)
  | t :: ts, s =>
    ((request handle t.2 t.1 s).1 :: (requests ts (request handle t.2 t.1 s).2).1,
      (requests ts (request handle t.2 t.1 s).2).2)

/-- The requests that reach the server. -/
def reached (ts : List (π × Fate)) : List π := (ts.filter fun t => t.2 ≠ .lost).map Prod.fst

/-- The requests that the sender sees acknowledged. -/
def acknowledged (ts : List (π × Fate)) (s : σ) : List π :=
  (((ts.map Prod.fst).zip (requests handle ts s).1).filter Prod.snd).map Prod.fst

/-- One request leaves the server as it was, or handles the request. -/
theorem request_cases (t : π × Fate) (s : σ) :
    (t.2 = .lost ∧ request handle t.2 t.1 s = (false, s)) ∨
      t.2 ≠ .lost ∧ (request handle t.2 t.1 s).2 = (handle t.1 s).2 ∧
        ((request handle t.2 t.1 s).1 = true → (handle t.1 s).1 = true) := by
  obtain ⟨p, fate⟩ := t
  cases fate with
  | lost => exact .inl ⟨rfl, rfl⟩
  | unanswered => exact .inr ⟨by simp, rfl, fun h => nomatch h⟩
  | answered => exact .inr ⟨by simp, rfl, id⟩

variable {handle}

/-- Without losses the server handles one request after the other. -/
theorem requests_answered (ps : List π) (s : σ) :
    (requests handle (ps.map fun p => (p, .answered)) s).2 =
      ps.foldl (fun s p => (handle p s).2) s := by
  induction ps generalizing s with
  | nil => rfl
  | cons p ps ih => exact ih _

theorem reached_answered (ps : List π) : reached (ps.map fun p => (p, .answered)) = ps := by
  induction ps with
  | nil => rfl
  | cons p ps ih => exact congrArg (p :: ·) ih

section Done

variable (done : π → σ → Prop)

/-- What the server keeps while it handles requests, it keeps over a link. -/
theorem requests_keeps (I : σ → Prop) (hkeep : ∀ p s, I s → I (handle p s).2)
    (ts : List (π × Fate)) {s : σ} (hs : I s) : I (requests handle ts s).2 := by
  induction ts generalizing s with
  | nil => exact hs
  | cons t ts ih =>
    refine ih ?_
    rcases request_cases handle t s with ⟨-, h⟩ | ⟨-, h, -⟩
    · rw [h]
      exact hs
    · rw [h]
      exact hkeep t.1 s hs

/-- What is acknowledged has been done, and stays done. -/
theorem done_of_acknowledged (hack : ∀ p s, (handle p s).1 = true → done p (handle p s).2)
    (hkeep : ∀ p q s, done p s → done p (handle q s).2) (ts : List (π × Fate)) (s : σ) :
    ∀ p ∈ acknowledged handle ts s, done p (requests handle ts s).2 := by
  unfold acknowledged
  induction ts generalizing s with
  | nil => exact fun p hp => nomatch hp
  | cons t ts ih =>
    intro p hp
    obtain ⟨⟨p', ok⟩, hmem, rfl⟩ := List.mem_map.mp hp
    obtain ⟨hzip, rfl⟩ := List.mem_filter.mp hmem
    rw [List.map_cons, requests, List.zip_cons_cons, List.mem_cons] at hzip
    rcases hzip with hhead | htail
    · obtain ⟨rfl, hok⟩ := Prod.mk.inj hhead
      refine requests_keeps (done t.1) (fun q s => hkeep t.1 q s) ts ?_
      rcases request_cases handle t s with ⟨-, h⟩ | ⟨-, h, hhandle⟩
      · rw [h] at hok
        cases hok
      · rw [h]
        exact hack t.1 s (hhandle hok.symm)
    · exact ih _ p' (List.mem_map.mpr ⟨(p', true), List.mem_filter.mpr ⟨htail, rfl⟩, rfl⟩)

end Done

/-! ## Effects that are joined -/

section Joins

variable [SemilatticeSup L] (view : σ → L) (effect : π → L) (I : σ → Prop)

/-- What is observed in the end is the least upper bound of what was there and of the effects
of the requests that reached the server. -/
theorem isLUB_view (hkeep : ∀ p s, I s → I (handle p s).2)
    (hview : ∀ p s, I s → view (handle p s).2 = view s ⊔ effect p) (ts : List (π × Fate)) {s : σ}
    (hs : I s) :
    IsLUB (insert (view s) (effect '' {p | p ∈ reached ts})) (view (requests handle ts s).2) := by
  induction ts generalizing s with
  | nil => simp [reached, requests]
  | cons t ts ih =>
    rcases request_cases handle t s with ⟨hlost, h⟩ | ⟨hreached, h, -⟩
    · have hsame : reached (t :: ts) = reached ts := by simp [reached, hlost]
      rw [hsame, requests, h]
      exact ih hs
    · have hcons : reached (t :: ts) = t.1 :: reached ts := by simp [reached, hreached]
      have hrest := ih (hkeep t.1 s hs)
      rw [hview t.1 s hs] at hrest
      rw [requests, h, hcons]
      have hset : effect '' {p | p ∈ t.1 :: reached ts} =
          insert (effect t.1) (effect '' {p | p ∈ reached ts}) := by
        rw [← Set.image_insert_eq]
        exact congrArg (Set.image effect) (by ext; simp)
      rw [hset]
      -- two bounds together are the bound of both
      have hpair : IsLUB {view s, effect t.1} (view s ⊔ effect t.1) := isLUB_pair
      refine ⟨?_, fun b hb => hrest.2 ?_⟩
      · rintro x (rfl | rfl | hx)
        · exact le_sup_left.trans (hrest.1 (Set.mem_insert _ _))
        · exact le_sup_right.trans (hrest.1 (Set.mem_insert _ _))
        · exact hrest.1 (Set.mem_insert_of_mem _ hx)
      · rintro x (rfl | hx)
        · exact hpair.2 (by
            rintro y (rfl | rfl)
            · exact hb (Set.mem_insert _ _)
            · exact hb (Set.mem_insert_of_mem _ (Set.mem_insert _ _)))
        · exact hb (Set.mem_insert_of_mem _ (Set.mem_insert_of_mem _ hx))

/-- It matters which requests reach the server, and nothing else: not how often, in which
order, or whether the sender sees them acknowledged. -/
theorem view_congr (hkeep : ∀ p s, I s → I (handle p s).2)
    (hview : ∀ p s, I s → view (handle p s).2 = view s ⊔ effect p) {ts ts' : List (π × Fate)}
    (hsame : ∀ p, p ∈ reached ts ↔ p ∈ reached ts') {s : σ} (hs : I s) :
    view (requests handle ts s).2 = view (requests handle ts' s).2 := by
  have hset : {p | p ∈ reached ts} = {p | p ∈ reached ts'} := Set.ext hsame
  exact (isLUB_view view effect I hkeep hview ts hs).unique
    (hset ▸ isLUB_view view effect I hkeep hview ts' hs)

end Joins

end LossyLink

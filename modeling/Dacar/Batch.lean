import Mathlib

/-!
# Batches of independent requests

A server takes the elements of a batch one by one and counts those it accepts.  When it
decides on each by the time and the element alone, the batch leaves what the accepted
elements leave one after the other, and no element has a say in what becomes of another.
-/

namespace Batch

variable {β σ S ω τ : Type*}

/-- The elements in order; one that is not answered ends the batch. -/
def run (step : β → σ → Option Bool × σ) : List β → ℕ → σ → Option ℕ × σ
  | [], n, s => (some n, s)
  | b :: bs, n, s =>
    match step b s with
    | (none, s') => (none, s')
    | (some ok, s') => run step bs (if ok then n + 1 else n) s'

/-- What the accepted elements are accepted for, each at the time it is reached. -/
def picks (next : β → τ → τ) (pick : τ → β → Option ω) : τ → List β → List ω
  | _, [] => []
  | t, b :: bs =>
    match pick t b with
    | some o => o :: picks next pick (next b t) bs
    | none => picks next pick (next b t) bs

/-- Where time does not tell, acceptance is up to the element. -/
theorem picks_const (next : β → τ → τ) (pick : β → Option ω) (t : τ) (bs : List β) :
    picks next (fun _ => pick) t bs = bs.filterMap pick := by
  induction bs generalizing t with
  | nil => rfl
  | cons b bs ih =>
    rw [picks, List.filterMap_cons]
    cases pick b with
    | none => exact ih _
    | some o => exact congrArg (o :: ·) (ih _)

/-- Acceptance in two batches, one after the other. -/
theorem picks_append (next : β → τ → τ) (pick : τ → β → Option ω) (t : τ) (bs cs : List β) :
    picks next pick t (bs ++ cs) =
      picks next pick t bs ++ picks next pick (bs.foldl (fun t b => next b t) t) cs := by
  induction bs generalizing t with
  | nil => rfl
  | cons b bs ih =>
    rw [List.cons_append, picks, picks, List.foldl_cons, ih]
    cases pick t b with
    | none => rfl
    | some o => rfl

/-- A step seen through a map of the states. -/
theorem run_map {ρ : Type*} {step : β → σ → Option Bool × σ} {step' : β → ρ → Option Bool × ρ}
    {f : σ → ρ} (h : ∀ b s, step' b (f s) = ((step b s).1, f (step b s).2)) (bs : List β) (n : ℕ)
    (s : σ) : run step' bs n (f s) = ((run step bs n s).1, f (run step bs n s).2) := by
  induction bs generalizing n s with
  | nil => rfl
  | cons b bs ih =>
    rw [run, run, h]
    cases hb : step b s with
    | mk result s' =>
      cases result with
      | none => rfl
      | some ok => exact ih _ s'

section Selective

variable {step : β → σ → Option Bool × σ} {join : S → τ → σ} {next : β → τ → τ}
  {pick : τ → β → Option ω} {write : S → ω → S} {inv : S → Prop}

/-- A batch leaves what its accepted elements leave, and counts them. -/
theorem run_eq (hstep : ∀ b s t, inv s → step b (join s t) =
      (some (pick t b).isSome, join ((pick t b).elim s (write s)) (next b t)))
    (hwrite : ∀ s o, inv s → inv (write s o)) (bs : List β) (n : ℕ) {s : S} (t : τ) (hs : inv s) :
    run step bs n (join s t) =
      (some (n + (picks next pick t bs).length),
        join ((picks next pick t bs).foldl write s) (bs.foldl (fun t b => next b t) t)) := by
  induction bs generalizing n s t with
  | nil => rfl
  | cons b bs ih =>
    rw [run, hstep b s t hs, picks]
    cases pick t b with
    | none => exact ih n (next b t) hs
    | some o =>
      refine (ih (n + 1) (next b t) (hwrite s o hs)).trans ?_
      rw [List.length_cons, Nat.add_right_comm, Nat.add_assoc]
      rfl

/-- What is picked is picked from one of the elements. -/
theorem mem_picks {o : ω} {bs : List β} {t : τ} (h : o ∈ picks next pick t bs) :
    ∃ b ∈ bs, ∃ t, pick t b = some o := by
  induction bs generalizing t with
  | nil => exact nomatch h
  | cons b bs ih =>
    rw [picks] at h
    cases hpick : pick t b with
    | none =>
      rw [hpick] at h
      obtain ⟨c, hc, hpicked⟩ := ih h
      exact ⟨c, List.mem_cons_of_mem b hc, hpicked⟩
    | some o' =>
      rw [hpick] at h
      rcases List.mem_cons.mp h with rfl | h
      · exact ⟨b, List.mem_cons_self, t, hpick⟩
      · obtain ⟨c, hc, hpicked⟩ := ih h
        exact ⟨c, List.mem_cons_of_mem b hc, hpicked⟩

/-- A batch of which nothing is accepted leaves the state alone. -/
theorem picks_eq_nil {t : τ} {bs : List β} (h : ∀ t, ∀ b ∈ bs, pick t b = none) :
    picks next pick t bs = [] := by
  induction bs generalizing t with
  | nil => rfl
  | cons b bs ih =>
    rw [picks, h t b List.mem_cons_self]
    exact ih fun t c hc => h t c (List.mem_cons_of_mem b hc)

end Selective

end Batch

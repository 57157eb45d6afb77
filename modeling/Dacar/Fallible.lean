import Mathlib

/-!
# Results that may be errors

What a computation returned says what its parts returned, and with the errors forgotten it is
one in `Option`.
-/

namespace Fallible

variable {ε α β γ : Type}

/-! ## What a result says of the parts -/

theorem ok_of_bind {x : Except ε α} {g : α → Except ε β} {b : β} (h : (x >>= g) = .ok b) :
    ∃ a, x = .ok a ∧ g a = .ok b := by
  cases x with
  | error e => cases h
  | ok a => exact ⟨a, rfl, h⟩

theorem map_eq_ok {x : Except ε α} {f : α → β} {b : β} :
    x.map f = .ok b ↔ ∃ a, x = .ok a ∧ f a = b := by
  cases x with
  | error e => simp [Except.map]
  | ok a => simp [Except.map]

theorem mapM_ok {g : α → Except ε β} {h : α → β} {l : List α}
    (hok : ∀ a ∈ l, g a = .ok (h a)) : l.mapM g = .ok (l.map h) := by
  induction l with
  | nil => rfl
  | cons a l ih =>
    rw [List.forall_mem_cons] at hok
    rw [List.mapM_cons, hok.1, ih hok.2]
    rfl

/-- Items that are read with their places. -/
theorem mapM_zipIdx {g : γ → Except ε β} {k : β × ℕ → γ} {l : List β}
    (hok : ∀ x ∈ l.zipIdx, g (k x) = .ok x.1) : (l.zipIdx.map k).mapM g = .ok l := by
  rw [List.mapM_map]
  exact (mapM_ok hok).trans (by rw [List.zipIdx_map_fst])

/-! ## Without the errors -/

theorem eq_ok_of_toOption {x : Except ε α} {a : α} (h : x.toOption = some a) : x = .ok a := by
  cases x with
  | error e => cases h
  | ok b => exact congrArg Except.ok (Option.some.inj h)

theorem toOption_map (f : α → β) (x : Except ε α) :
    (x.map f).toOption = x.toOption.map f := by
  cases x <;> rfl

theorem toOption_bind (x : Except ε α) (f : α → Except ε β) :
    (x >>= f).toOption = x.toOption.bind fun a => (f a).toOption := by
  cases x <;> rfl

theorem toOption_mapM (f : α → Except ε β) (as : List α) :
    (as.mapM f).toOption = as.mapM fun a => (f a).toOption := by
  induction as with
  | nil => rfl
  | cons a as ih =>
    rw [List.mapM_cons, List.mapM_cons, toOption_bind]
    congr 1
    funext b
    rw [toOption_bind, ih]
    rfl

end Fallible

import Mathlib

/-!
# Paths of labels

A path is a string of labels between delimiters, and its last label may be a star, which
stands for everything at or below the path before it.  The alphabet is any type with two
symbols set apart.
-/

namespace LabelPath

variable {α : Type*} [DecidableEq α] (delim star : α)

/-- The last label is the star alone. -/
def wildcard (s : List α) : Bool := (s.splitOn delim).getLast? == some [star]

/-- The labels, without one star at the end. -/
def labels (s : List α) : List (List α) :=
  if wildcard delim star s then (s.splitOn delim).dropLast else s.splitOn delim

/-- A pattern without a star has the labels of the request, one with a star a prefix of them. -/
def Matches (pattern request : List α) : Prop :=
  if wildcard delim star pattern then
    labels delim star pattern <+: labels delim star request
  else labels delim star pattern = labels delim star request

instance (pattern request : List α) : Decidable (Matches delim star pattern request) :=
  inferInstanceAs (Decidable (if wildcard delim star pattern then
    labels delim star pattern <+: labels delim star request
    else labels delim star pattern = labels delim star request))

section Lemmas

variable {delim star : α}

theorem labels_of_not_wildcard {s : List α} (h : wildcard delim star s = false) :
    labels delim star s = s.splitOn delim := by
  rw [labels, if_neg (by simp [h])]

omit [DecidableEq α] in
theorem intercalate_append {sep : List α} {xs ys : List (List α)} (hx : xs ≠ []) (hy : ys ≠ []) :
    sep.intercalate (xs ++ ys) = sep.intercalate xs ++ sep ++ sep.intercalate ys := by
  induction xs with
  | nil => exact absurd rfl hx
  | cons x xs ih =>
    cases xs with
    | nil =>
      rw [List.singleton_append, List.intercalate_cons_of_ne_nil hy, List.intercalate_singleton]
    | cons x' xs =>
      rw [List.cons_append, List.intercalate_cons_of_ne_nil (by simp), ih (by simp),
        List.intercalate_cons_cons]
      simp only [List.append_assoc]

theorem splitOn_injective {s t : List α} (h : s.splitOn delim = t.splitOn delim) : s = t := by
  calc s = [delim].intercalate (s.splitOn delim) := (List.intercalate_splitOn delim).symm
    _ = [delim].intercalate (t.splitOn delim) := by rw [h]
    _ = t := List.intercalate_splitOn delim

/-- Without stars, only the same path matches. -/
theorem matches_exact_iff {pattern request : List α}
    (hp : wildcard delim star pattern = false) (hr : wildcard delim star request = false) :
    Matches delim star pattern request ↔ pattern = request := by
  rw [Matches, if_neg (by simp [hp]), labels_of_not_wildcard hp, labels_of_not_wildcard hr]
  exact ⟨splitOn_injective, congrArg _⟩

variable (hs : star ≠ delim)

include hs

theorem splitOn_star : [star].splitOn delim = [[star]] :=
  List.splitOn_eq_singleton (by simpa using hs.symm)

theorem splitOn_below (p : List α) :
    (p ++ [delim, star]).splitOn delim = p.splitOn delim ++ [[star]] := by
  rw [List.splitOn_append_cons_self, splitOn_star hs]

theorem wildcard_below (p : List α) : wildcard delim star (p ++ [delim, star]) = true := by
  simp [wildcard, splitOn_below hs]

theorem labels_below (p : List α) :
    labels delim star (p ++ [delim, star]) = p.splitOn delim := by
  rw [labels, if_pos (wildcard_below hs p), splitOn_below hs, List.dropLast_concat]

/-- A star alone matches everything. -/
theorem matches_root (request : List α) : Matches delim star [star] request := by
  have hwild : wildcard delim star [star] = true := by simp [wildcard, splitOn_star hs]
  rw [Matches, if_pos hwild, labels, if_pos hwild, splitOn_star hs]
  exact List.nil_prefix

/-- A star below `p` matches `p` itself and what follows `p` and a delimiter; a longer last
label is no match. -/
theorem matches_below_iff {p request : List α} (hr : wildcard delim star request = false) :
    Matches delim star (p ++ [delim, star]) request ↔
      request = p ∨ p ++ [delim] <+: request := by
  rw [Matches, if_pos (wildcard_below hs p), labels_below hs, labels_of_not_wildcard hr]
  constructor
  · rintro ⟨rest, hrest⟩
    have hjoin := congrArg ([delim].intercalate) hrest
    rw [List.intercalate_splitOn] at hjoin
    cases rest with
    | nil =>
      rw [List.append_nil, List.intercalate_splitOn] at hjoin
      exact .inl hjoin.symm
    | cons l rest =>
      refine .inr ⟨[delim].intercalate (l :: rest), ?_⟩
      rw [← hjoin, intercalate_append (List.splitOn_ne_nil _ _) (by simp),
        List.intercalate_splitOn]
  · rintro (rfl | ⟨rest, rfl⟩)
    · exact List.prefix_rfl
    · rw [List.append_assoc, List.singleton_append, List.splitOn_append_cons_self]
      exact List.prefix_append _ _

end Lemmas

end LabelPath

import Mathlib

/-!
# Greedy chunks

A list is cut into contiguous chunks, each filled as long as it fits.  Where every part of
a chunk that fits also fits, no way of cutting has fewer chunks.
-/

namespace GreedyChunks

variable {α : Type*} (fits : List α → Prop) [DecidablePred fits]

/-- The chunk that is being filled, and what is still to come. -/
def fill (current : List α) : List α → List (List α)
  | [] => [current]
  | x :: xs =>
    if fits (current ++ [x]) then fill (current ++ [x]) xs else current :: fill [x] xs

def chunks : List α → List (List α)
  | [] => []
  | x :: xs => fill fits [x] xs

variable {fits}

theorem fill_flatten (current xs : List α) : (fill fits current xs).flatten = current ++ xs := by
  induction xs generalizing current with
  | nil => simp [fill]
  | cons x xs ih =>
    rw [fill]
    split_ifs with h
    · rw [ih, List.append_assoc, List.singleton_append]
    · rw [List.flatten_cons, ih, List.singleton_append]

theorem chunks_flatten (xs : List α) : (chunks fits xs).flatten = xs := by
  cases xs with
  | nil => rfl
  | cons x xs => exact fill_flatten [x] xs

/-- What is true of the first chunk, and stays true as long as chunks fit, is true of all. -/
theorem forall_fill {P : List α → Prop} (hone : ∀ x, P [x])
    (hgrow : ∀ current x, P current → fits (current ++ [x]) → P (current ++ [x]))
    {current : List α} (hcurrent : P current) (xs : List α) :
    ∀ c ∈ fill fits current xs, P c := by
  induction xs generalizing current with
  | nil => simpa [fill] using hcurrent
  | cons x xs ih =>
    rw [fill]
    split_ifs with h
    · exact ih (hgrow current x hcurrent h)
    · rw [List.forall_mem_cons]
      exact ⟨hcurrent, ih (hone x)⟩

theorem forall_chunks {P : List α → Prop} (hone : ∀ x, P [x])
    (hgrow : ∀ current x, P current → fits (current ++ [x]) → P (current ++ [x]))
    (xs : List α) : ∀ c ∈ chunks fits xs, P c := by
  cases xs with
  | nil => simp [chunks]
  | cons x xs => exact forall_fill hone hgrow (hone x) xs

/-! ## No fewer chunks -/

/-- A shorter chunk in hand is worth less than a whole chunk, and never does harm. -/
theorem length_fill_of_suffix (hparts : ∀ {b c : List α}, b <:+: c → fits c → fits b)
    {a b : List α} (hsuffix : b <:+ a) (xs : List α) :
    (fill fits b xs).length ≤ (fill fits a xs).length ∧
      (fill fits a xs).length ≤ (fill fits b xs).length + 1 := by
  induction xs generalizing a b with
  | nil => simp [fill]
  | cons x xs ih =>
    obtain ⟨d, rfl⟩ := hsuffix
    have hgrown : b ++ [x] <:+ d ++ b ++ [x] := ⟨d, by rw [List.append_assoc]⟩
    have hlast : [x] <:+ b ++ [x] := ⟨b, rfl⟩
    rw [fill, fill]
    by_cases ha : fits (d ++ b ++ [x])
    · rw [if_pos ha, if_pos (hparts hgrown.isInfix ha)]
      exact ih hgrown
    · rw [if_neg ha, List.length_cons]
      by_cases hb : fits (b ++ [x])
      · rw [if_pos hb]
        obtain ⟨hle, hge⟩ := ih hlast
        omega
      · rw [if_neg hb, List.length_cons]
        omega

/-- What still fits goes into the chunk in hand. -/
theorem fill_append (hparts : ∀ {b c : List α}, b <:+: c → fits c → fits b)
    {current ys : List α} (h : fits (current ++ ys)) (xs : List α) :
    fill fits current (ys ++ xs) = fill fits (current ++ ys) xs := by
  induction ys generalizing current with
  | nil => simp
  | cons y ys ih =>
    have hsplit : current ++ y :: ys = current ++ [y] ++ ys := by simp
    have hy : fits (current ++ [y]) :=
      hparts (List.prefix_append _ ys).isInfix (hsplit ▸ h)
    rw [List.cons_append, fill, if_pos hy, ih (hsplit ▸ h), hsplit]

theorem length_fill_le (hparts : ∀ {b c : List α}, b <:+: c → fits c → fits b)
    (current xs : List α) :
    (fill fits current xs).length ≤ (chunks fits xs).length + 1 := by
  cases xs with
  | nil => simp [fill, chunks]
  | cons x xs =>
    rw [fill, chunks]
    split_ifs with h
    · exact (length_fill_of_suffix hparts ⟨current, rfl⟩ xs).2
    · rw [List.length_cons]

/-- Any other cut into chunks that fit has at least as many of them. -/
theorem length_chunks_le (hparts : ∀ {b c : List α}, b <:+: c → fits c → fits b)
    {others : List (List α)} (hne : ∀ c ∈ others, c ≠ []) (hfits : ∀ c ∈ others, fits c) :
    (chunks fits others.flatten).length ≤ others.length := by
  induction others with
  | nil => simp [chunks]
  | cons c others ih =>
    rw [List.forall_mem_cons] at hne hfits
    have hrest := ih hne.2 hfits.2
    obtain ⟨x, ys, rfl⟩ := List.exists_cons_of_ne_nil hne.1
    have hfill : chunks fits (x :: ys ++ others.flatten) =
        fill fits (x :: ys) others.flatten := fill_append hparts hfits.1 _
    rw [List.flatten_cons, hfill, List.length_cons]
    exact (length_fill_le hparts _ _).trans (Nat.succ_le_succ hrest)

end GreedyChunks

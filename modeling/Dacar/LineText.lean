import Mathlib

/-!
# Lines and words

Text is cut at characters of a kind, and characters of a kind are stripped at its ends.
-/

namespace LineText

variable {α : Type*} (p : α → Bool)

/-- Without the characters at both ends that `p` holds of. -/
def strip (l : List α) : List α := (l.dropWhile p).rdropWhile p

/-- The pieces between characters that `p` holds of, the empty ones left out. -/
def words (l : List α) : List (List α) := (l.splitOnP p).filter fun w => !w.isEmpty

variable {p}

/-! ## Stripping -/

theorem strip_eq_self {l : List α} (hhead : ∀ c ∈ l.head?, p c = false)
    (hlast : ∀ c ∈ l.getLast?, p c = false) : strip p l = l := by
  cases l with
  | nil => rfl
  | cons c l =>
    have hdrop : (c :: l).dropWhile p = c :: l :=
      List.dropWhile_cons_of_neg (by simpa using hhead c rfl)
    rw [strip, hdrop, List.rdropWhile_eq_self_iff]
    intro hne
    rw [hlast _ (List.getLast?_eq_getLast_of_ne_nil hne)]
    exact Bool.false_ne_true

theorem isInfix_strip (l : List α) : strip p l <:+: l :=
  (List.rdropWhile_prefix p _).isInfix.trans (List.dropWhile_suffix p).isInfix

theorem mem_of_mem_strip {l : List α} {c : α} (h : c ∈ strip p l) : c ∈ l :=
  (isInfix_strip l).subset h

theorem head_strip {l : List α} : ∀ c ∈ (strip p l).head?, p c = false := by
  intro c hc
  obtain ⟨rest, hrest⟩ := List.head?_eq_some_iff.mp hc
  obtain ⟨tail, htail⟩ := List.rdropWhile_prefix p (l := l.dropWhile p)
  have hdrop : l.dropWhile p = c :: (rest ++ tail) := by
    rw [← htail, ← strip, hrest, List.cons_append]
  have hnot := List.head_dropWhile_not p (l := l) (by simp [hdrop])
  simpa [hdrop] using hnot

theorem last_strip {l : List α} : ∀ c ∈ (strip p l).getLast?, p c = false := by
  intro c hc
  have hne : strip p l ≠ [] := by
    rintro hnil
    rw [hnil] at hc
    cases hc
  rw [List.getLast?_eq_getLast_of_ne_nil hne, Option.mem_some_iff] at hc
  rw [← hc]
  exact Bool.eq_false_of_not_eq_true (List.rdropWhile_last_not p _ hne)

/-- What is stripped has nothing left to strip. -/
theorem strip_strip (l : List α) : strip p (strip p l) = strip p l :=
  strip_eq_self head_strip last_strip

theorem strip_concat {c : α} (hc : p c = true) (l : List α) : strip p (l ++ [c]) = strip p l := by
  rw [strip, List.dropWhile_append]
  split_ifs with hempty
  · rw [strip, List.isEmpty_iff.mp hempty, List.dropWhile_cons_of_pos hc, List.dropWhile_nil]
  · rw [List.rdropWhile_concat_pos _ _ _ hc, strip]

theorem strip_append_right {pad : List α} (hpad : ∀ c ∈ pad, p c = true) (l : List α) :
    strip p (l ++ pad) = strip p l := by
  induction pad using List.reverseRecOn with
  | nil => rw [List.append_nil]
  | append_singleton pad c ih =>
    rw [List.forall_mem_append] at hpad
    rw [← List.append_assoc, strip_concat (by simpa using hpad.2), ih hpad.1]

theorem strip_cons {c : α} (hc : p c = true) (l : List α) : strip p (c :: l) = strip p l := by
  rw [strip, List.dropWhile_cons_of_pos hc, strip]

theorem strip_rdropWhile (l : List α) : strip p (l.rdropWhile p) = strip p l := by
  have hpad : ∀ c ∈ l.rtakeWhile p, p c = true := fun c hc => List.mem_rtakeWhile_imp hc
  rw [← strip_append_right hpad, List.rdropWhile_append_rtakeWhile]

/-- Between two characters that stay nothing is stripped. -/
theorem strip_append {c d : α} (hc : p c = false) (hd : p d = false) (x y : List α) :
    strip p (c :: x ++ d :: y) = c :: x ++ d :: y.rdropWhile p := by
  have hdrop : (c :: x ++ d :: y).dropWhile p = c :: x ++ d :: y :=
    List.dropWhile_cons_of_neg (by simp [hc])
  rw [strip, hdrop]
  induction y using List.reverseRecOn with
  | nil =>
    rw [List.rdropWhile_nil, List.rdropWhile_concat_neg _ _ _ (by simp [hd])]
  | append_singleton y e ih =>
    have hassoc : c :: x ++ d :: (y ++ [e]) = (c :: x ++ d :: y) ++ [e] := by simp
    rw [hassoc]
    by_cases he : p e
    · rw [List.rdropWhile_concat_pos _ _ _ he, List.rdropWhile_concat_pos _ _ _ he, ih]
      exact List.dropWhile_cons_of_neg (by simp [hc])
    · rw [List.rdropWhile_concat_neg _ _ _ he, List.rdropWhile_concat_neg _ _ _ he, hassoc]

/-- A character that stays is not stripped. -/
theorem mem_strip {c : α} (hc : p c = false) {l : List α} (h : c ∈ l) : c ∈ strip p l := by
  rw [← List.takeWhile_append_dropWhile (p := p) (l := l), List.mem_append] at h
  have hdrop : c ∈ l.dropWhile p := h.resolve_left fun htake => by
    simp [List.mem_takeWhile_imp htake] at hc
  rw [← List.rdropWhile_append_rtakeWhile (p := p) (l := l.dropWhile p), List.mem_append] at hdrop
  exact hdrop.resolve_right fun htake => by
    simp [List.mem_rtakeWhile_imp htake] at hc

theorem rdropWhile_append (x y : List α) :
    (x ++ y).rdropWhile p = if (y.rdropWhile p).isEmpty then x.rdropWhile p
      else x ++ y.rdropWhile p := by
  rw [List.rdropWhile, List.reverse_append, List.dropWhile_append]
  simp only [List.rdropWhile, List.isEmpty_reverse]
  split_ifs
  · rfl
  · rw [List.reverse_append, List.reverse_reverse]

/-- Around characters that stay both ends are stripped on their own. -/
theorem strip_around {l : List α} (hne : l ≠ []) (hl : ∀ c ∈ l, p c = false) (x y : List α) :
    strip p (x ++ (l ++ y)) = x.dropWhile p ++ (l ++ y.rdropWhile p) := by
  have hdrop : (l ++ y).dropWhile p = l ++ y := by
    obtain ⟨c, l, rfl⟩ := List.exists_cons_of_ne_nil hne
    exact List.dropWhile_cons_of_neg (by simp [hl c List.mem_cons_self])
  have hrdrop : l.rdropWhile p = l := by
    rw [List.rdropWhile_eq_self_iff]
    intro hnil
    rw [hl _ (List.getLast_mem hnil)]
    exact Bool.false_ne_true
  have hend : (l ++ y).rdropWhile p = l ++ y.rdropWhile p := by
    rw [rdropWhile_append]
    split_ifs with hempty
    · rw [hrdrop, List.isEmpty_iff.mp hempty, List.append_nil]
    · rfl
  have hfront : (x ++ (l ++ y)).dropWhile p = x.dropWhile p ++ (l ++ y) := by
    rw [List.dropWhile_append, hdrop]
    split_ifs with hempty
    · rw [List.isEmpty_iff.mp hempty, List.nil_append]
    · rfl
  rw [strip, hfront, rdropWhile_append, hend, if_neg (by simp [hne])]

/-! ## Cutting -/

theorem splitOnP_append {w : List α} (hw : ∀ c ∈ w, p c = false) (l : List α) :
    (w ++ l).splitOnP p = (l.splitOnP p).modifyHead (w ++ ·) := by
  induction w with
  | nil =>
    obtain ⟨x, xs, h⟩ := List.exists_cons_of_ne_nil (List.splitOnP_ne_nil p l)
    rw [List.nil_append, h]
    rfl
  | cons c w ih =>
    rw [List.forall_mem_cons] at hw
    rw [List.cons_append, List.splitOnP_cons_eq_if_modifyHead, if_neg (by simp [hw.1]), ih hw.2,
      List.modifyHead_modifyHead]
    rfl

theorem eq_false_of_mem_splitOnP {l w : List α} (hw : w ∈ l.splitOnP p) :
    ∀ c ∈ w, p c = false := by
  induction l generalizing w with
  | nil =>
    obtain rfl : w = [] := by simpa using hw
    simp
  | cons x l ih =>
    rw [List.splitOnP_cons_eq_if_modifyHead] at hw
    split_ifs at hw with hx
    · rcases List.mem_cons.mp hw with rfl | hw
      · simp
      · exact ih hw
    · obtain ⟨y, ys, h⟩ := List.exists_cons_of_ne_nil (List.splitOnP_ne_nil p l)
      rw [h] at hw ih
      rcases List.mem_cons.mp hw with rfl | hw
      · rw [List.forall_mem_cons]
        exact ⟨by simpa using hx, ih List.mem_cons_self⟩
      · exact ih (List.mem_cons_of_mem _ hw)

theorem words_cons {c : α} (hc : p c = true) (l : List α) : words p (c :: l) = words p l := by
  simp [words, List.splitOnP_cons_eq_if_modifyHead, hc]

theorem words_concat {c : α} (hc : p c = true) (l : List α) : words p (l ++ [c]) = words p l := by
  simp [words, List.splitOnP_append_cons l [] hc]

/-- Stripping what separates words leaves the words. -/
theorem words_strip (l : List α) : words p (strip p l) = words p l := by
  have hdrop : ∀ l : List α, words p (l.dropWhile p) = words p l := fun l => by
    induction l with
    | nil => rfl
    | cons c l ih =>
      by_cases hc : p c
      · rw [List.dropWhile_cons_of_pos hc, ih, words_cons hc]
      · rw [List.dropWhile_cons_of_neg hc]
  have hrdrop : ∀ l : List α, words p (l.rdropWhile p) = words p l := fun l => by
    induction l using List.reverseRecOn with
    | nil => rw [List.rdropWhile_nil]
    | append_singleton l c ih =>
      by_cases hc : p c
      · rw [List.rdropWhile_concat_pos _ _ _ hc, ih, words_concat hc]
      · rw [List.rdropWhile_concat_neg _ _ _ hc]
  rw [strip, hrdrop, hdrop]

theorem words_eq_nil {l : List α} (h : ∀ c ∈ l, p c = true) : words p l = [] := by
  induction l with
  | nil => simp [words]
  | cons c l ih =>
    rw [List.forall_mem_cons] at h
    rw [words_cons h.1, ih h.2]

theorem words_append {w : List α} (hne : w ≠ []) (hw : ∀ c ∈ w, p c = false) {l : List α}
    (hl : ∀ c ∈ l.head?, p c = true) : words p (w ++ l) = w :: words p l := by
  cases l with
  | nil => simp [words, List.splitOnP_eq_singleton hw, hne]
  | cons c l =>
    have hc := hl c rfl
    rw [words_cons hc, words, List.splitOnP_append_cons_of_forall_mem hw c hc, words,
      List.filter_cons_of_pos (by simpa using hne)]

/-- Words with a separator before each, and separators at the end. -/
theorem words_flatMap {sep : α} (hsep : p sep = true) {ws : List (List α)}
    (hws : ∀ w ∈ ws, w ≠ [] ∧ ∀ c ∈ w, p c = false) {pad : List α} (hpad : ∀ c ∈ pad, p c = true) :
    words p (ws.flatMap (sep :: ·) ++ pad) = ws := by
  induction ws with
  | nil => exact words_eq_nil hpad
  | cons w ws ih =>
    rw [List.forall_mem_cons] at hws
    have hnext : ∀ c ∈ (ws.flatMap (sep :: ·) ++ pad).head?, p c = true := by
      cases ws with
      | nil => exact fun c hc => hpad c (List.mem_of_mem_head? hc)
      | cons w' ws => simpa using hsep
    rw [List.flatMap_cons, List.append_assoc, List.cons_append, words_cons hsep,
      words_append hws.1.1 hws.1.2 hnext, ih hws.2]

/-- The first word has no separator before it. -/
theorem words_append_flatMap {sep : α} (hsep : p sep = true) {w : List α} {ws : List (List α)}
    (hws : ∀ w' ∈ w :: ws, w' ≠ [] ∧ ∀ c ∈ w', p c = false) {pad : List α}
    (hpad : ∀ c ∈ pad, p c = true) : words p (w ++ ws.flatMap (sep :: ·) ++ pad) = w :: ws := by
  have hall := words_flatMap hsep hws hpad
  rwa [List.flatMap_cons, List.cons_append, List.cons_append, words_cons hsep] at hall

end LineText

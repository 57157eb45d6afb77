import Mathlib

/-!
# Interpolated option values

`%%` in a value stands for `%`, and `%(name)s` for the value of another option, which is
interpolated itself.  Interpolation leaves a value as it is only where there is no `%` in it.
-/

namespace Interpolation

inductive Piece
  | char (c : Char)
  | percent
  | reference (name : List Char)

/-- The value cut into pieces, with the name that is being read; `none` where a `%` has no
meaning. -/
def pieces : List Char → Option (List Char) → Option (List Piece)
  | [], none => some []
  | [], some _ => none
  | ')' :: 's' :: rest, some name =>
    if name.isEmpty then none else (pieces rest none).map (.reference name :: ·)
  | c :: rest, some name => if c = ')' then none else pieces rest (some (name ++ [c]))
  | '%' :: '%' :: rest, none => (pieces rest none).map (.percent :: ·)
  | '%' :: '(' :: rest, none => pieces rest (some [])
  | c :: rest, none => if c = '%' then none else (pieces rest none).map (.char c :: ·)

/-- What a piece stands for, given what a value with a `%` in it stands for. -/
def expandPiece (options : List Char → Option (List Char))
    (expand : List Char → Option (List Char)) : Piece → Option (List Char)
  | .char c => some [c]
  | .percent => some ['%']
  | .reference name => (options name).bind fun v => if v.contains '%' then expand v else some v

/-- The interpolated value; references are followed to this depth. -/
def expand (options : List Char → Option (List Char)) : ℕ → List Char → Option (List Char)
  | 0, _ => none
  | depth + 1, value =>
    (pieces value none).bind fun ps =>
      (ps.mapM (expandPiece options (expand options depth))).map List.flatten

/-- Without `%%`. -/
def dropPairs : List Char → List Char
  | '%' :: '%' :: rest => dropPairs rest
  | c :: rest => c :: dropPairs rest
  | [] => []

/-- How much of a text `(name)s` at its front takes. -/
def referenceLength : List Char → Option ℕ
  | '(' :: rest =>
    let name := rest.takeWhile (· ≠ ')')
    if name.isEmpty then none
    else
      match rest.drop name.length with
      | ')' :: 's' :: _ => some (name.length + 3)
      | _ => none
  | _ => none

/-- Whether a `%` is left once references are taken out; so many characters belong to one
still. -/
def bare : List Char → ℕ → Bool
  | [], _ => false
  | _ :: rest, taken + 1 => bare rest taken
  | c :: rest, 0 =>
    if c = '%' then
      match referenceLength rest with
      | some taken => bare rest taken
      | none => true
    else bare rest 0

/-- Whether a value may be given to an option. -/
def settable (value : List Char) : Bool := !bare (dropPairs value) 0

/-! ## Values without a percent sign -/

theorem pieces_cons {c : Char} (hc : c ≠ '%') (value : List Char) :
    pieces (c :: value) none = (pieces value none).map (.char c :: ·) := by
  rw [pieces, if_neg hc]
  · exact fun rest h => absurd h hc
  · exact fun rest h => absurd h hc

theorem pieces_of_not_mem {value : List Char} (h : '%' ∉ value) :
    pieces value none = some (value.map .char) := by
  induction value with
  | nil => rfl
  | cons c value ih =>
    rw [List.mem_cons, not_or] at h
    rw [pieces_cons (Ne.symm h.1), ih h.2]
    rfl

theorem expand_of_not_mem {options : List Char → Option (List Char)} {depth : ℕ}
    {value : List Char} (h : '%' ∉ value) : expand options (depth + 1) value = some value := by
  have hmap : (value.map Piece.char).mapM (expandPiece options (expand options depth)) =
      some (value.map fun c => [c]) := by
    rw [List.mapM_map]
    exact List.mapM_pure
  rw [expand, pieces_of_not_mem h, Option.bind_some, hmap, Option.map_some]
  exact congrArg some (List.flatMap_singleton' value)

theorem settable_of_not_mem {value : List Char} (h : '%' ∉ value) : settable value = true := by
  have hdrop : dropPairs value = value := by
    induction value with
    | nil => rfl
    | cons c value ih =>
      rw [List.mem_cons, not_or] at h
      rw [dropPairs, ih h.2]
      exact fun rest hc => absurd hc (Ne.symm h.1)
  have hbare : bare value 0 = false := by
    clear hdrop
    induction value with
    | nil => rfl
    | cons c value ih =>
      rw [List.mem_cons, not_or] at h
      rw [bare, if_neg (Ne.symm h.1), ih h.2]
  rw [settable, hdrop, hbare]
  rfl

/-! ## Values with one -/

/-- How a piece was written. -/
def source : Piece → List Char
  | .char c => [c]
  | .percent => ['%', '%']
  | .reference name => '%' :: '(' :: name ++ [')', 's']

/-- The pieces put together again. -/
theorem flatMap_source {value : List Char} {reading : Option (List Char)} {ps : List Piece}
    (h : pieces value reading = some ps) :
    (reading.elim [] fun name => '%' :: '(' :: name) ++ value = ps.flatMap source ∧
      ∀ c, Piece.char c ∈ ps → c ≠ '%' := by
  induction value, reading using pieces.induct generalizing ps with
  | case1 =>
    obtain rfl := Option.some.inj h
    simp
  | case2 name => cases h
  | case3 rest name hname =>
    rw [pieces, if_pos hname] at h
    cases h
  | case4 rest name hname ih =>
    rw [pieces, if_neg hname] at h
    obtain ⟨ps', hps', rfl⟩ := Option.map_eq_some_iff.mp h
    obtain ⟨htext, hchars⟩ := ih hps'
    rw [Option.elim_none, List.nil_append] at htext
    refine ⟨?_, fun c hc => hchars c (by simpa using hc)⟩
    rw [List.flatMap_cons, ← htext, source]
    simp
  | case5 rest name hne =>
    rw [pieces, if_pos rfl] at h
    · cases h
    · exact hne
  | case6 c rest name hne hc ih =>
    rw [pieces, if_neg hc] at h
    · obtain ⟨htext, hchars⟩ := ih h
      rw [Option.elim_some] at htext ⊢
      exact ⟨by rw [← htext]; simp, hchars⟩
    · exact hne
  | case7 rest ih =>
    rw [pieces] at h
    obtain ⟨ps', hps', rfl⟩ := Option.map_eq_some_iff.mp h
    obtain ⟨htext, hchars⟩ := ih hps'
    rw [Option.elim_none, List.nil_append] at htext ⊢
    refine ⟨?_, fun c hc => hchars c (by simpa using hc)⟩
    rw [List.flatMap_cons, ← htext]
    rfl
  | case8 rest ih =>
    rw [pieces] at h
    obtain ⟨htext, hchars⟩ := ih h
    exact ⟨htext, hchars⟩
  | case9 rest hpair hopen =>
    rw [pieces, if_pos rfl] at h
    · cases h
    · exact hpair
    · exact hopen
  | case10 c rest h1 h2 hc ih =>
    rw [pieces_cons hc] at h
    obtain ⟨ps', hps', rfl⟩ := Option.map_eq_some_iff.mp h
    obtain ⟨htext, hchars⟩ := ih hps'
    rw [Option.elim_none, List.nil_append] at htext ⊢
    refine ⟨?_, fun d hd => ?_⟩
    · rw [List.flatMap_cons, ← htext]
      rfl
    · rcases List.mem_cons.mp hd with heq | hd
      · obtain rfl := Piece.char.inj heq
        exact hc
      · exact hchars d hd

theorem mapM_eq_none {α β : Type*} {g : α → Option β} {l : List α} {a : α} (ha : a ∈ l)
    (h : g a = none) : l.mapM g = none := by
  induction l with
  | nil => cases ha
  | cons b l ih =>
    rw [List.mapM_cons]
    rcases List.mem_cons.mp ha with rfl | ha
    · rw [h]
      rfl
    · rw [ih ha]
      cases g b <;> rfl

/-- A value that refers to itself is followed for ever. -/
theorem expand_eq_none {options : List Char → Option (List Char)} {value name : List Char}
    {ps : List Piece} (hps : pieces value none = some ps) (hname : Piece.reference name ∈ ps)
    (hself : options name = some value) (depth : ℕ) : expand options depth value = none := by
  have hmark : value.contains '%' = true := by
    rw [List.contains_iff_mem]
    have htext := (flatMap_source hps).1
    rw [Option.elim_none, List.nil_append] at htext
    rw [htext, List.mem_flatMap]
    exact ⟨_, hname, List.mem_cons_self⟩
  induction depth with
  | zero => rfl
  | succ depth ih =>
    rw [expand, hps, Option.bind_some, mapM_eq_none hname]
    · rfl
    · rw [expandPiece, hself, Option.bind_some, if_pos hmark, ih]

/-- What stands for pieces is shorter by what was escaped, and begins with no `%` where they
begin with a reference: it is what was written only if they are characters. -/
theorem forall_char {options : List Char → Option (List Char)} {next : List Char →
    Option (List Char)} {ps : List Piece} {outs : List (List Char)}
    (houts : ps.mapM (expandPiece options next) = some outs)
    (hchars : ∀ c, Piece.char c ∈ ps → c ≠ '%')
    (hplain : ∀ name v, Piece.reference name ∈ ps → options name = some v → v ≠ [] ∧ '%' ∉ v)
    (escaped : ℕ) (heq : outs.flatten = List.replicate escaped '%' ++ ps.flatMap source) :
    escaped = 0 ∧ ∀ p ∈ ps, ∃ c, p = .char c := by
  induction ps generalizing outs escaped with
  | nil =>
    obtain rfl : [] = outs := Option.some.inj houts
    simpa using heq
  | cons p ps ih =>
    rw [List.mapM_cons] at houts
    obtain ⟨out, hout, houts⟩ := Option.bind_eq_some_iff.mp houts
    obtain ⟨outs', houts', heqs⟩ := Option.bind_eq_some_iff.mp houts
    obtain rfl : out :: outs' = outs := Option.some.inj heqs
    have hchars' : ∀ c, Piece.char c ∈ ps → c ≠ '%' := fun c hc =>
      hchars c (List.mem_cons_of_mem p hc)
    have hplain' : ∀ name v, Piece.reference name ∈ ps → options name = some v →
        v ≠ [] ∧ '%' ∉ v := fun name v hname => hplain name v (List.mem_cons_of_mem p hname)
    rw [List.flatten_cons, List.flatMap_cons] at heq
    cases p with
    | char c =>
      obtain rfl : [c] = out := Option.some.inj hout
      have hc := hchars c List.mem_cons_self
      cases escaped with
      | zero =>
        have hrest := ih houts' hchars' hplain' 0 (List.cons.inj heq).2
        refine ⟨rfl, fun p hp => ?_⟩
        rcases List.mem_cons.mp hp with rfl | hp
        · exact ⟨c, rfl⟩
        · exact hrest.2 p hp
      | succ escaped => exact absurd (List.cons.inj heq).1 hc
    | percent =>
      obtain rfl : ['%'] = out := Option.some.inj hout
      have hshift : outs'.flatten = List.replicate (escaped + 1) '%' ++ ps.flatMap source := by
        have hpairs : List.replicate escaped '%' ++ (List.replicate 2 '%' ++ ps.flatMap source) =
            '%' :: (List.replicate (escaped + 1) '%' ++ ps.flatMap source) := by
          rw [← List.append_assoc, List.replicate_append_replicate]
          rfl
        exact (List.cons.inj (heq.trans hpairs)).2
      have hrest := ih houts' hchars' hplain' (escaped + 1) hshift
      exact absurd hrest.1 (Nat.succ_ne_zero escaped)
    | reference name =>
      obtain ⟨v, hv, hpiece⟩ := Option.bind_eq_some_iff.mp hout
      obtain ⟨hne, hmark⟩ := hplain name v List.mem_cons_self hv
      rw [if_neg (by simpa using hmark)] at hpiece
      obtain rfl := Option.some.inj hpiece
      obtain ⟨c, rest, rfl⟩ := List.exists_cons_of_ne_nil hne
      have hhead : c = '%' := by
        cases escaped with
        | zero => exact (List.cons.inj heq).1
        | succ escaped => exact (List.cons.inj heq).1
      exact absurd (hhead ▸ List.mem_cons_self) hmark

/-- Interpolation leaves a value as it is only if there is no `%` in it. -/
theorem not_mem_of_expand {options : List Char → Option (List Char)} {depth : ℕ}
    {value : List Char}
    (hoptions : ∀ name v, options name = some v → v = value ∨ v ≠ [] ∧ '%' ∉ v)
    (h : expand options depth value = some value) : '%' ∉ value := by
  cases depth with
  | zero => cases h
  | succ depth =>
    obtain ⟨ps, hps, hexpand⟩ := Option.bind_eq_some_iff.mp (by rw [expand] at h; exact h)
    obtain ⟨outs, houts, hflat⟩ := Option.map_eq_some_iff.mp hexpand
    obtain ⟨htext, hchars⟩ := flatMap_source hps
    rw [Option.elim_none, List.nil_append] at htext
    have hplain : ∀ name v, Piece.reference name ∈ ps → options name = some v →
        v ≠ [] ∧ '%' ∉ v := fun name v hname hv => by
      rcases hoptions name v hv with rfl | hv
      · rw [expand_eq_none hps hname hv] at h
        cases h
      · exact hv
    have hall := (forall_char houts hchars hplain 0 (by rw [hflat, ← htext]; rfl)).2
    rw [htext, List.mem_flatMap]
    rintro ⟨p, hp, hmem⟩
    obtain ⟨c, rfl⟩ := hall p hp
    exact hchars c hp (List.mem_singleton.mp hmem).symm

end Interpolation

import Dacar.LineText
import Dacar.OrderedMap

/-!
# Sections of options in text

`[section]` headers and `key = value` lines.  Nothing is quoted: what is written is read back
where no value has a line break in it or blanks at its ends.
-/

namespace IniText

variable {α : Type*}

/-- A name, and options in order. -/
abbrev Section (α : Type*) := List α × List (List α × List α)

inductive Line (α : Type*)
  | blank
  | header (name : List α)
  | option (key value : List α)

/-- How such a text is read. -/
structure Format (α : Type*) where
  char : Char → α
  lines : List α → List (List α)
  /-- What is stripped at both ends of lines, keys and values. -/
  strips : α → Bool
  lower : List α → List α
  /-- The name on a header line, `none` of any other line. -/
  header : List α → Option (List α)
  /-- Whether a line may begin with its delimiter. -/
  keyless : Bool

/-- What stands before and after the first character that `p` holds of. -/
def cut (p : α → Bool) (l : List α) : Option (List α × List α) :=
  match l.dropWhile (!p ·) with
  | [] => none
  | _ :: rest => some (l.takeWhile (!p ·), rest)

theorem cut_append {p : α → Bool} {key : List α} (hkey : ∀ c ∈ key, p c = false) {d : α}
    (hd : p d = true) (rest : List α) : cut p (key ++ d :: rest) = some (key, rest) := by
  have hkeep : ∀ c ∈ key, (!p c) = true := fun c hc => by rw [hkey c hc]; rfl
  have hstop : (!p d) = false := by rw [hd]; rfl
  rw [cut, List.dropWhile_append_of_pos hkeep, List.takeWhile_append_of_pos hkeep]
  simp [hstop]

theorem mem_of_cut {p : α → Bool} {l key rest : List α} (h : cut p l = some (key, rest)) {c : α}
    (hc : c ∈ rest) : c ∈ l := by
  unfold cut at h
  split at h
  · cases h
  · rename_i d rest' hdrop
    obtain ⟨-, rfl⟩ := Prod.mk.inj (Option.some.inj h)
    exact (List.dropWhile_suffix _).subset (hdrop ▸ List.mem_cons_of_mem d hc)

/-! ## Reading -/

section Read

variable [DecidableEq α] (f : Format α)

/-- The line is stripped already. -/
def Format.readLine : List α → Line α
  | [] => .blank
  | c :: rest =>
    if c = f.char '#' ∨ c = f.char ';' then .blank
    else
      match f.header (c :: rest) with
      | some name => .header name
      | none =>
        match cut (fun c => c = f.char '=' || c = f.char ':') (c :: rest) with
        | none => .blank
        | some (key, value) =>
          if key.isEmpty && !f.keyless then .blank
          else .option (f.lower (LineText.strip f.strips key)) (LineText.strip f.strips value)

def Format.readLines (text : List α) : List (Line α) :=
  (f.lines text).map fun raw => f.readLine (LineText.strip f.strips raw)

/-- Every header begins a section, and every option goes to its end. -/
def append (doc : List (Section α)) : Line α → List (Section α)
  | .blank => doc
  | .header name => doc ++ [(name, [])]
  | .option key value => doc.modifyLast fun s => (s.1, s.2 ++ [(key, value)])

/-- A header empties the section of its name, and an option replaces the one with its key; the
name of the section that is being read comes with them. -/
def replace : List (Section α) × Option (List α) → Line α → List (Section α) × Option (List α)
  | state, .blank => state
  | (doc, _), .header name => (OrderedMap.upsertEntries name (fun _ => []) doc, some name)
  | (doc, none), .option _ _ => (doc, none)
  | (doc, some current), .option key value =>
    (OrderedMap.upsertEntries current
      (fun options => OrderedMap.upsertEntries key (fun _ => value) (options.getD [])) doc,
      some current)

/-- The first such option in all sections of the name. -/
def first (doc : List (Section α)) (name key : List α) : Option (List α) :=
  doc.findSome? fun s => if s.1 = name then s.2.lookup key else none

/-- The option of the one section of the name. -/
def only (doc : List (Section α)) (name key : List α) : Option (List α) :=
  (doc.lookup name).bind (·.lookup key)

end Read

/-! ## Writing -/

section Write

variable (char : Char → α)

def writeOption (o : List α × List α) : List α :=
  o.1 ++ [char ' ', char '=', char ' '] ++ o.2 ++ [char '\n']

/-- A blank line ends the section. -/
def writeSection (s : Section α) : List α :=
  char '[' :: s.1 ++ [char ']', char '\n'] ++ s.2.flatMap (writeOption char) ++ [char '\n']

def write (doc : List (Section α)) : List α := doc.flatMap (writeSection char)

end Write

/-- The lines of a document. -/
def linesOf (doc : List (Section α)) : List (Line α) :=
  doc.flatMap fun s => .header s.1 :: (s.2.map (fun o => .option o.1 o.2) ++ [.blank])

/-! ## What is collected -/

theorem foldl_append_linesOf (doc before : List (Section α)) :
    (linesOf doc).foldl append before = before ++ doc := by
  have hoptions : ∀ (options done : List (List α × List α)) (name : List α)
      (before : List (Section α)),
      (options.map fun o => Line.option o.1 o.2).foldl append (before ++ [(name, done)]) =
        before ++ [(name, done ++ options)] := fun options => by
    induction options with
    | nil => simp
    | cons o options ih =>
      intro done name before
      rw [List.map_cons, List.foldl_cons, append, List.modifyLast_concat, ih]
      simp
  induction doc generalizing before with
  | nil => simp [linesOf]
  | cons s doc ih =>
    rw [linesOf, List.flatMap_cons, ← linesOf, List.cons_append, List.foldl_cons, append,
      List.append_assoc, List.foldl_append, hoptions, List.nil_append, List.singleton_append,
      List.foldl_cons, append, ih]
    simp

section Collect

variable [DecidableEq α]

theorem upsertEntries_concat {κ ν : Type*} [DecidableEq κ] {k : κ} {es : List (κ × ν)}
    (h : k ∉ es.map Prod.fst) (v : ν) (g : Option ν → ν) :
    OrderedMap.upsertEntries k g (es ++ [(k, v)]) = es ++ [(k, g (some v))] := by
  induction es with
  | nil => simp [OrderedMap.upsertEntries]
  | cons e es ih =>
    rw [List.map_cons, List.mem_cons, not_or] at h
    rw [List.cons_append, OrderedMap.upsertEntries, if_neg (Ne.symm h.1), ih h.2, List.cons_append]

/-- Different names and different keys leave nothing to replace. -/
theorem foldl_replace_linesOf {doc before : List (Section α)} (current : Option (List α))
    (hnames : ((before ++ doc).map Prod.fst).Nodup)
    (hkeys : ∀ s ∈ doc, (s.2.map Prod.fst).Nodup) :
    ((linesOf doc).foldl replace (before, current)).1 = before ++ doc := by
  have hoptions : ∀ (options done : List (List α × List α)) (name : List α)
      (before : List (Section α)), name ∉ before.map Prod.fst →
      ((done ++ options).map Prod.fst).Nodup →
      (options.map fun o => Line.option o.1 o.2).foldl replace
          (before ++ [(name, done)], some name) =
        (before ++ [(name, done ++ options)], some name) := fun options => by
    induction options with
    | nil => simp
    | cons o options ih =>
      intro done name before hname hnodup
      have hsplit : done ++ o :: options = done ++ [o] ++ options := by simp
      have hnew : o.1 ∉ done.map Prod.fst := by
        rw [List.map_append, List.map_cons] at hnodup
        exact fun hmem => (List.nodup_append.mp hnodup).2.2 o.1 hmem o.1 List.mem_cons_self rfl
      rw [List.map_cons, List.foldl_cons, replace, upsertEntries_concat hname, Option.getD_some,
        OrderedMap.upsertEntries_of_not_mem hnew, ih _ _ _ hname (hsplit ▸ hnodup), hsplit]
  induction doc generalizing before current with
  | nil => simp [linesOf]
  | cons s doc ih =>
    rw [List.forall_mem_cons] at hkeys
    have hsplit : before ++ s :: doc = before ++ [s] ++ doc := by simp
    have hnew : s.1 ∉ before.map Prod.fst := by
      rw [List.map_append, List.map_cons] at hnames
      exact fun hmem => (List.nodup_append.mp hnames).2.2 s.1 hmem s.1 List.mem_cons_self rfl
    rw [linesOf, List.flatMap_cons, ← linesOf, List.cons_append, List.foldl_cons, replace,
      OrderedMap.upsertEntries_of_not_mem hnew, List.append_assoc, List.foldl_append,
      hoptions _ _ _ _ hnew (by simpa using hkeys.1), List.nil_append, List.singleton_append,
      List.foldl_cons, replace, ih _ (hsplit ▸ hnames) hkeys.2, hsplit]

end Collect

/-! ## What is read of what was written -/

section Lawful

variable (f : Format α)

/-- A name or key that is read as it stands. -/
structure IsWord (w : List α) : Prop where
  nonempty : w ≠ []
  strips : ∀ c ∈ w, f.strips c = false
  marks : ∀ c ∈ w, c ∉ ['\n', '[', '#', ';', '=', ':'].map f.char
  lower : f.lower w = w
  header : f.header (f.char '[' :: w ++ [f.char ']']) = some w

/-- A value that is read as it stands. -/
structure IsValue (v : List α) : Prop where
  newline : f.char '\n' ∉ v
  strip : LineText.strip f.strips v = v

structure IsSection (s : Section α) : Prop where
  name : IsWord f s.1
  options : ∀ o ∈ s.2, IsWord f o.1 ∧ IsValue f o.2

/-- What a reader must do for that. -/
structure Format.Lawful [DecidableEq α] : Prop where
  /-- Blanks at the ends apart, lines are cut at line feeds only. -/
  lines text : (f.lines text).map (LineText.strip f.strips) =
    (text.splitOnP (· = f.char '\n')).map (LineText.strip f.strips)
  blank : f.strips (f.char ' ') = true
  marks : ∀ c ∈ ['[', ']', '='], f.strips (f.char c) = false
  header : ∀ c line, c ≠ f.char '[' → f.header (c :: line) = none
  newline : ∀ c ∈ ['[', ']', ' ', '='], f.char c ≠ f.char '\n'
  comment : ∀ c ∈ ['#', ';'], f.char '[' ≠ f.char c
  delimiter : ∀ c ∈ ['=', ':'], f.char ' ' ≠ f.char c

variable {f} [DecidableEq α] (hf : f.Lawful)

include hf

theorem strip_header {w : List α} :
    LineText.strip f.strips (f.char '[' :: w ++ [f.char ']']) =
      f.char '[' :: w ++ [f.char ']'] := by
  refine LineText.strip_eq_self (fun c hc => ?_) (fun c hc => ?_)
  · obtain rfl : f.char '[' = c := by simpa using hc
    exact hf.marks '[' (by simp)
  · rw [List.getLast?_concat] at hc
    obtain rfl := Option.some.inj hc
    exact hf.marks ']' (by simp)

theorem readLine_header {w : List α} (hw : IsWord f w) :
    f.readLine (f.char '[' :: w ++ [f.char ']']) = .header w := by
  have hcomment : ¬(f.char '[' = f.char '#' ∨ f.char '[' = f.char ';') :=
    not_or.mpr ⟨hf.comment '#' (by simp), hf.comment ';' (by simp)⟩
  have hheader := hw.header
  rw [List.cons_append] at hheader
  rw [List.cons_append, Format.readLine, if_neg hcomment, hheader]

/-- The blank before the value is stripped, and with it the one after the delimiter. -/
theorem readLine_option {key value : List α} (hkey : IsWord f key) (hvalue : IsValue f value) :
    f.readLine (LineText.strip f.strips
      (key ++ [f.char ' ', f.char '=', f.char ' '] ++ value)) = .option key value := by
  obtain ⟨c, k, rfl⟩ := List.exists_cons_of_ne_nil hkey.nonempty
  have hc := hkey.marks c List.mem_cons_self
  simp only [List.map_cons, List.map_nil, List.mem_cons, List.not_mem_nil, or_false, not_or] at hc
  have hstrip : LineText.strip f.strips
      (c :: k ++ [f.char ' ', f.char '=', f.char ' '] ++ value) =
      (c :: k ++ [f.char ' ']) ++ f.char '=' :: (f.char ' ' :: value).rdropWhile f.strips := by
    have hsplit : c :: k ++ [f.char ' ', f.char '=', f.char ' '] ++ value =
        c :: (k ++ [f.char ' ']) ++ f.char '=' :: f.char ' ' :: value := by simp
    rw [hsplit, LineText.strip_append (hkey.strips c List.mem_cons_self)
      (hf.marks '=' (by simp))]
    rfl
  have hcut : ∀ d ∈ c :: k ++ [f.char ' '],
      (decide (d = f.char '=') || decide (d = f.char ':')) = false := by
    rw [List.forall_mem_append]
    refine ⟨fun d hd => ?_, by
      simpa using ⟨hf.delimiter '=' (by simp), hf.delimiter ':' (by simp)⟩⟩
    have hmarks := hkey.marks d hd
    simp only [List.map_cons, List.map_nil, List.mem_cons, List.not_mem_nil, or_false,
      not_or] at hmarks
    simp [hmarks.2.2.2.2]
  have hread := cut_append (p := fun d => decide (d = f.char '=') || decide (d = f.char ':'))
    hcut (d := f.char '=') (by simp) ((f.char ' ' :: value).rdropWhile f.strips)
  have hkeyText : LineText.strip f.strips (c :: (k ++ [f.char ' '])) = c :: k := by
    rw [← List.cons_append, LineText.strip_concat hf.blank]
    exact LineText.strip_eq_self (fun d hd => hkey.strips d (List.mem_of_mem_head? hd))
      fun d hd => hkey.strips d (List.mem_of_getLast? hd)
  have hvalueText : LineText.strip f.strips ((f.char ' ' :: value).rdropWhile f.strips) =
      value := by
    rw [LineText.strip_rdropWhile, LineText.strip_cons hf.blank, hvalue.strip]
  rw [hstrip, List.cons_append, List.cons_append, Format.readLine,
    if_neg (not_or.mpr ⟨hc.2.2.1, hc.2.2.2.1⟩), hf.header _ _ hc.2.1]
  rw [List.cons_append, List.cons_append] at hread
  dsimp only
  rw [hread]
  dsimp only
  rw [hkeyText, hvalueText, hkey.lower]
  rfl

theorem newline_not_mem_option {o : List α × List α} (ho : IsWord f o.1 ∧ IsValue f o.2) :
    ∀ c ∈ o.1 ++ [f.char ' ', f.char '=', f.char ' '] ++ o.2, decide (c = f.char '\n') = false := by
  have hkey := ho.1.marks
  simp only [List.map_cons, List.mem_cons, not_or] at hkey
  rw [List.forall_mem_append, List.forall_mem_append]
  refine ⟨⟨fun c hc => decide_eq_false (hkey c hc).1, ?_⟩, fun c hc => decide_eq_false ?_⟩
  · intro c hc
    obtain ⟨c', hc', rfl⟩ := List.mem_map.mp (show c ∈ [' ', '=', ' '].map f.char from hc)
    refine decide_eq_false (hf.newline c' ?_)
    fin_cases hc' <;> simp
  · rintro rfl
    exact ho.2.newline hc

theorem splitOnP_writeOptions {options : List (List α × List α)}
    (h : ∀ o ∈ options, IsWord f o.1 ∧ IsValue f o.2) (rest : List α) :
    (options.flatMap (writeOption f.char) ++ rest).splitOnP (· = f.char '\n') =
      options.map (fun o => o.1 ++ [f.char ' ', f.char '=', f.char ' '] ++ o.2) ++
        rest.splitOnP (· = f.char '\n') := by
  induction options with
  | nil => rfl
  | cons o options ih =>
    rw [List.forall_mem_cons] at h
    rw [List.flatMap_cons, writeOption, List.append_assoc, List.append_assoc,
      List.singleton_append, List.splitOnP_append_cons_of_forall_mem
        (newline_not_mem_option hf h.1) _ (by simp), ih h.2, List.map_cons, List.cons_append]

theorem splitOnP_writeSection {s : Section α} (hs : IsSection f s) (rest : List α) :
    (writeSection f.char s ++ rest).splitOnP (· = f.char '\n') =
      (f.char '[' :: s.1 ++ [f.char ']']) ::
        (s.2.map (fun o => o.1 ++ [f.char ' ', f.char '=', f.char ' '] ++ o.2) ++
          [] :: rest.splitOnP (· = f.char '\n')) := by
  have hsplit : writeSection f.char s ++ rest = (f.char '[' :: s.1 ++ [f.char ']']) ++
      f.char '\n' :: (s.2.flatMap (writeOption f.char) ++ f.char '\n' :: rest) := by
    simp [writeSection]
  have hname := hs.name.marks
  simp only [List.map_cons, List.mem_cons, not_or] at hname
  have hheader : ∀ c ∈ f.char '[' :: s.1 ++ [f.char ']'], decide (c = f.char '\n') = false := by
    rw [List.forall_mem_append, List.forall_mem_cons]
    refine ⟨⟨decide_eq_false (hf.newline '[' (by simp)),
      fun c hc => decide_eq_false (hname c hc).1⟩, ?_⟩
    simpa using hf.newline ']' (by simp)
  rw [hsplit, List.splitOnP_append_cons_of_forall_mem hheader _ (by simp),
    splitOnP_writeOptions hf hs.options, List.splitOnP_cons_eq_if_modifyHead, if_pos (by simp)]

/-- A document is read line by line as it was written. -/
theorem readLines_write {doc : List (Section α)} (hdoc : ∀ s ∈ doc, IsSection f s) :
    f.readLines (write f.char doc) = linesOf doc ++ [.blank] := by
  have hread : f.readLines (write f.char doc) =
      ((write f.char doc).splitOnP (· = f.char '\n')).map
        fun raw => f.readLine (LineText.strip f.strips raw) := by
    have hlines := congrArg (List.map f.readLine) (hf.lines (write f.char doc))
    rwa [List.map_map, List.map_map] at hlines
  rw [hread]
  clear hread
  induction doc with
  | nil => rfl
  | cons s doc ih =>
    rw [List.forall_mem_cons] at hdoc
    have hoptions : (s.2.map fun o => o.1 ++ [f.char ' ', f.char '=', f.char ' '] ++ o.2).map
        (fun raw => f.readLine (LineText.strip f.strips raw)) =
        s.2.map fun o => Line.option o.1 o.2 := by
      rw [List.map_map]
      exact List.map_congr_left fun o ho =>
        readLine_option hf (hdoc.1.options o ho).1 (hdoc.1.options o ho).2
    rw [write, List.flatMap_cons, ← write, splitOnP_writeSection hf hdoc.1, List.map_cons,
      List.map_append, List.map_cons, ih hdoc.2, hoptions, strip_header hf,
      readLine_header hf hdoc.1.name]
    simp [LineText.strip, Format.readLine, linesOf]

/-! ## What every value is -/

/-- Whatever the text, values have no line feed and nothing to strip. -/
theorem isValue_of_readLines {text key value : List α}
    (h : Line.option key value ∈ f.readLines text) : IsValue f value := by
  obtain ⟨raw, hraw, hline⟩ := List.mem_map.mp h
  obtain ⟨piece, hpiece, hstrip⟩ : ∃ piece ∈ text.splitOnP (· = f.char '\n'),
      LineText.strip f.strips piece = LineText.strip f.strips raw := by
    have hmem : LineText.strip f.strips raw ∈
        (f.lines text).map (LineText.strip f.strips) := List.mem_map_of_mem hraw
    rw [hf.lines] at hmem
    exact List.mem_map.mp hmem
  have hclean : ∀ c ∈ LineText.strip f.strips raw, c ≠ f.char '\n' := by
    rw [← hstrip]
    exact fun c hc => of_decide_eq_false
      (LineText.eq_false_of_mem_splitOnP hpiece c (LineText.mem_of_mem_strip hc))
  revert hline hclean
  generalize LineText.strip f.strips raw = line
  intro hline hclean
  unfold Format.readLine at hline
  split at hline
  · cases hline
  · rename_i c rest
    split_ifs at hline with hcomment
    split at hline
    · cases hline
    · split at hline
      · cases hline
      · rename_i key' value' hcut
        split_ifs at hline with hkey
        obtain ⟨-, rfl⟩ := Line.option.inj hline
        exact ⟨fun hmem => hclean _ (mem_of_cut hcut (LineText.mem_of_mem_strip hmem)) rfl,
          LineText.strip_strip _⟩

end Lawful

/-! ## Values that were collected -/

section Values

variable {P : List α → Prop}

/-- Every value of the document is so. -/
def AllValues (P : List α → Prop) (doc : List (Section α)) : Prop :=
  ∀ s ∈ doc, ∀ o ∈ s.2, P o.2

theorem allValues_foldl_append {lines : List (Line α)}
    (h : ∀ key value, Line.option key value ∈ lines → P value) {doc : List (Section α)}
    (hdoc : AllValues P doc) : AllValues P (lines.foldl append doc) := by
  induction lines generalizing doc with
  | nil => exact hdoc
  | cons line lines ih =>
    refine ih (fun key value hmem => h key value (List.mem_cons_of_mem _ hmem)) ?_
    cases line with
    | blank => exact hdoc
    | header name =>
      intro s hs
      rcases List.mem_append.mp hs with hs | hs
      · exact hdoc s hs
      · obtain rfl := List.mem_singleton.mp hs
        simp
    | option key value =>
      rcases List.eq_nil_or_concat doc with rfl | ⟨front, last, rfl⟩
      · exact hdoc
      · rw [List.concat_eq_append] at hdoc ⊢
        rw [append, List.modifyLast_concat]
        intro s hs o ho
        rcases List.mem_append.mp hs with hs | hs
        · exact hdoc s (List.mem_append_left _ hs) o ho
        · obtain rfl := List.mem_singleton.mp hs
          rcases List.mem_append.mp ho with ho | ho
          · exact hdoc last (by simp) o ho
          · obtain rfl := List.mem_singleton.mp ho
            exact h key value List.mem_cons_self

variable [DecidableEq α]

theorem mem_upsertEntries {κ ν : Type*} [DecidableEq κ] {k : κ} {g : Option ν → ν}
    {es : List (κ × ν)} {e : κ × ν} (h : e ∈ OrderedMap.upsertEntries k g es) :
    e ∈ es ∨ e.2 = g none ∨ ∃ e' ∈ es, e.2 = g (some e'.2) := by
  induction es with
  | nil =>
    obtain rfl := List.mem_singleton.mp h
    exact .inr (.inl rfl)
  | cons e' es ih =>
    rw [OrderedMap.upsertEntries] at h
    split_ifs at h with hk
    · rcases List.mem_cons.mp h with rfl | h
      · exact .inr (.inr ⟨e', List.mem_cons_self, rfl⟩)
      · exact .inl (List.mem_cons_of_mem _ h)
    · rcases List.mem_cons.mp h with rfl | h
      · exact .inl List.mem_cons_self
      · rcases ih h with h | h | ⟨e'', h, heq⟩
        · exact .inl (List.mem_cons_of_mem _ h)
        · exact .inr (.inl h)
        · exact .inr (.inr ⟨e'', List.mem_cons_of_mem _ h, heq⟩)

theorem allValues_foldl_replace {lines : List (Line α)}
    (h : ∀ key value, Line.option key value ∈ lines → P value)
    {state : List (Section α) × Option (List α)} (hstate : AllValues P state.1) :
    AllValues P (lines.foldl replace state).1 := by
  induction lines generalizing state with
  | nil => exact hstate
  | cons line lines ih =>
    refine ih (fun key value hmem => h key value (List.mem_cons_of_mem _ hmem)) ?_
    obtain ⟨doc, current⟩ := state
    cases line with
    | blank => exact hstate
    | header name =>
      intro s hs o ho
      rcases mem_upsertEntries hs with hs | hs | ⟨s', hs', hs⟩
      · exact hstate s hs o ho
      · rw [hs] at ho
        cases ho
      · rw [hs] at ho
        cases ho
    | option key value =>
      cases current with
      | none => exact hstate
      | some current =>
        have hnew : P value := h key value List.mem_cons_self
        have hwrite : ∀ options : List (List α × List α), (∀ o ∈ options, P o.2) →
            ∀ o ∈ OrderedMap.upsertEntries key (fun _ => value) options, P o.2 :=
          fun options hoptions o ho => by
            rcases mem_upsertEntries ho with ho | ho | ⟨-, -, ho⟩
            · exact hoptions o ho
            · exact ho ▸ hnew
            · exact ho ▸ hnew
        intro s hs o ho
        rcases mem_upsertEntries hs with hs | hs | ⟨s', hs', hs⟩
        · exact hstate s hs o ho
        · exact hwrite [] (by simp) o (hs ▸ ho)
        · exact hwrite s'.2 (hstate s' hs') o (hs ▸ ho)

theorem mem_of_lookup {ν : Type*} {es : List (List α × ν)} {k : List α} {v : ν}
    (h : es.lookup k = some v) : (k, v) ∈ es := by
  obtain ⟨front, back, rfl, -⟩ := List.lookup_eq_some_iff.mp h
  simp

theorem AllValues.first {doc : List (Section α)} (h : AllValues P doc) {name key value : List α}
    (hvalue : first doc name key = some value) : P value := by
  obtain ⟨s, hs, heq⟩ := List.exists_of_findSome?_eq_some hvalue
  split_ifs at heq with hname
  exact h s hs _ (mem_of_lookup heq)

theorem AllValues.only {doc : List (Section α)} (h : AllValues P doc) {name key value : List α}
    (hvalue : only doc name key = some value) : P value := by
  obtain ⟨options, hoptions, heq⟩ := Option.bind_eq_some_iff.mp hvalue
  exact h _ (mem_of_lookup hoptions) _ (mem_of_lookup heq)

end Values

end IniText

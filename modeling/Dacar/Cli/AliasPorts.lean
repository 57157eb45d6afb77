import Dacar.Cli.AliasPersistence

/-!
# The alias files of the ports

Each port keeps the names that are words to it.  None of them looks at what it is given: a note
of two lines makes a name denote another identity.
-/

namespace Dacar.Cli

/-! ## Python -/

namespace Python

/-- Blank lines apart, `str.splitlines` cuts at every line break. -/
theorem splitLines_filter (text line : List Char) (h : ∀ c ∈ line, isLineBreak c = false) :
    (splitLines text line).filter (· ≠ []) =
      ((line ++ text).splitOnP isLineBreak).filter (· ≠ []) := by
  induction text, line using splitLines.induct with
  | case1 line hline =>
    obtain rfl := List.isEmpty_iff.mp hline
    simp [splitLines]
  | case2 line hline =>
    rw [splitLines, if_neg hline, List.append_nil, List.splitOnP_eq_singleton h]
  | case3 rest line ih =>
    rw [splitLines, List.splitOnP_append_cons_of_forall_mem h '\r' (by decide),
      List.splitOnP_cons_eq_if_modifyHead, if_pos (by decide), List.filter_cons, List.filter_cons,
      ih (by simp)]
    simp
  | case4 c rest line hne hc ih =>
    rw [splitLines, if_pos hc, List.splitOnP_append_cons_of_forall_mem h c hc, List.filter_cons,
      List.filter_cons, ih (by simp), List.nil_append]
    exact hne
  | case5 c rest line hne hc ih =>
    rw [splitLines, if_neg hc, ih, List.append_assoc, List.singleton_append]
    · rw [List.forall_mem_append]
      exact ⟨h, by simpa using hc⟩
    · exact hne

theorem digit_plain : ∀ n < 16, Dacar.digit n.digitChar = some n ∧ n.digitChar ≠ '#' ∧
    isLineBreak n.digitChar = false ∧ isSpace n.digitChar = false := by
  decide

theorem aliasFormat_lawful : aliasFormat.Lawful where
  newline := rfl
  blank := ⟨by decide, rfl⟩
  hash := ⟨rfl, rfl⟩
  digit n hn := by
    obtain ⟨hvalue, hhash, hbreaks, hspace⟩ := digit_plain n hn
    exact ⟨hvalue, hhash, hbreaks, hspace, hspace⟩
  selfAlias := by decide
  withoutSelf names hnames := by
    rw [aliasFormat]
    dsimp only
    rw [hnames.erase_eq_filter]
    refine List.filter_congr fun name _ => ?_
    rw [Bool.eq_iff_iff]
    simp
  lines text := by
    have hlines := splitLines_filter text [] (by simp)
    have hskip : ∀ ls : List (List Char),
        (ls.map (LineText.strip isSpace)).filter (· ≠ []) =
          ((ls.filter (· ≠ [])).map (LineText.strip isSpace)).filter (· ≠ []) := fun ls => by
      induction ls with
      | nil => rfl
      | cons l ls ih =>
        by_cases hl : l = []
        · simpa [hl, LineText.strip] using ih
        · rw [List.map_cons, List.filter_cons, ih, List.filter_cons_of_pos (by simpa using hl),
            List.map_cons, List.filter_cons]
    calc ((splitLines text []).map (LineText.strip isSpace)).filter (· ≠ [])
        = ((((splitLines text []).filter (· ≠ [])).map (LineText.strip isSpace)).filter
            (· ≠ [])) := hskip _
      _ = ((((text.splitOnP isLineBreak).filter (· ≠ [])).map (LineText.strip isSpace)).filter
            (· ≠ [])) := by rw [hlines, List.nil_append]
      _ = ((text.splitOnP isLineBreak).map (LineText.strip isSpace)).filter (· ≠ []) :=
          (hskip _).symm
  readLine := rfl
  tokens token names pad hne htoken hnames hpad := by
    refine LineText.words_append_flatMap (by decide) ?_ (fun c hc => by rw [hpad c hc]; decide)
    rw [List.forall_mem_cons]
    exact ⟨⟨hne, fun c hc => (htoken c hc).separates⟩, fun name hname =>
      ⟨(hnames name hname).1, fun c hc => ((hnames name hname).2.1 c hc).2.2⟩⟩

end Python

/-! ## JavaScript -/

namespace Javascript

/-- What `\r\n` leaves out at a line's end is stripped anyway. -/
theorem splitLines_strip (text line : List Char) (h : ∀ c ∈ line, c ≠ '\n') :
    (splitLines text line).map (LineText.strip isStrWhiteSpace) =
      ((line ++ text).splitOnP (· = '\n')).map (LineText.strip isStrWhiteSpace) := by
  have hline : ∀ c ∈ line, decide (c = '\n') = false := fun c hc => decide_eq_false (h c hc)
  induction text, line using splitLines.induct with
  | case1 line => rw [splitLines, List.append_nil, List.splitOnP_eq_singleton hline]
  | case2 rest line ih =>
    have hcr : ∀ c ∈ line ++ ['\r'], decide (c = '\n') = false := by
      rw [List.forall_mem_append]
      exact ⟨hline, by simp⟩
    have hsplit : line ++ '\r' :: '\n' :: rest = line ++ ['\r'] ++ '\n' :: rest := by simp
    rw [splitLines, hsplit, List.splitOnP_append_cons_of_forall_mem hcr '\n' (by decide),
      List.map_cons, List.map_cons, LineText.strip_concat (by decide), ih (by simp) (by simp),
      List.nil_append]
  | case3 rest line hne ih =>
    rw [splitLines, if_pos rfl, List.splitOnP_append_cons_of_forall_mem hline '\n' (by decide),
      List.map_cons, List.map_cons, ih (by simp) (by simp), List.nil_append]
    exact hne
  | case4 c rest line hne hc ih =>
    have hgrown : ∀ d ∈ line ++ [c], d ≠ '\n' := by
      rw [List.forall_mem_append]
      exact ⟨h, by simpa using hc⟩
    rw [splitLines, if_neg hc, ih hgrown (fun d hd => decide_eq_false (hgrown d hd)),
      List.append_assoc, List.singleton_append]
    exact hne

theorem digit_plain : ∀ n < 16, Dacar.digit n.digitChar = some n ∧ n.digitChar ≠ '#' ∧
    n.digitChar ≠ '\n' ∧ isStrWhiteSpace n.digitChar = false := by
  decide

theorem aliasFormat_lawful : aliasFormat.Lawful where
  newline := rfl
  blank := ⟨by decide, rfl⟩
  hash := ⟨rfl, rfl⟩
  digit n hn := by
    obtain ⟨hvalue, hhash, hbreaks, hspace⟩ := digit_plain n hn
    exact ⟨hvalue, hhash, decide_eq_false hbreaks, hspace, hspace⟩
  selfAlias := by decide
  withoutSelf _ _ := rfl
  lines text := by
    have hlines := splitLines_strip text [] (by simp)
    rw [List.nil_append] at hlines
    exact congrArg (List.filter (· ≠ [])) hlines
  readLine := rfl
  tokens token names pad hne htoken hnames hpad := by
    refine (LineText.words_strip _).trans (LineText.words_append_flatMap (by decide) ?_
      (fun c hc => by rw [hpad c hc]; decide))
    rw [List.forall_mem_cons]
    exact ⟨⟨hne, fun c hc => (htoken c hc).separates⟩, fun name hname =>
      ⟨(hnames name hname).1, fun c hc => ((hnames name hname).2.1 c hc).2.2⟩⟩

end Javascript

/-! ## C++ -/

namespace Cpp

theorem digit_plain : ∀ n < 16, hexNibble (byte n.digitChar) = some n ∧
    byte n.digitChar ≠ byte '#' ∧ byte n.digitChar ≠ byte '\n' ∧
    isBlank (byte n.digitChar) = false ∧ isSpace (byte n.digitChar) = false := by
  decide

/-- The head ends in a name or the hash, once the blanks behind it are stripped. -/
theorem strip_head {token : Bytes} {names : List Bytes} {pad : Bytes} (hne : token ≠ [])
    (htoken : ∀ c ∈ token, aliasFormat.Plain c)
    (hnames : ∀ name ∈ names, aliasFormat.IsWord name) (hpad : ∀ c ∈ pad, c = byte ' ') :
    LineText.strip isSpace (token ++ names.flatMap (byte ' ' :: ·) ++ pad) =
      token ++ names.flatMap (byte ' ' :: ·) := by
  rw [LineText.strip_append_right fun c hc => by rw [hpad c hc]; decide]
  obtain ⟨c, x, rfl⟩ := List.exists_cons_of_ne_nil hne
  refine LineText.strip_eq_self (fun d hd => ?_) (fun d hd => ?_)
  · obtain rfl := Option.some.inj hd
    exact (htoken c List.mem_cons_self).strips
  · rcases List.eq_nil_or_concat names with rfl | ⟨front, name, rfl⟩
    · rw [List.flatMap_nil, List.append_nil] at hd
      exact (htoken d (List.mem_of_getLast? hd)).strips
    · have hword := hnames name (by simp)
      rw [List.concat_eq_append, List.flatMap_append, List.flatMap_singleton,
        List.getLast?_append, List.getLast?_append, List.getLast?_cons] at hd
      cases hname : name.getLast? with
      | none => exact absurd (List.getLast?_eq_none_iff.mp hname) hword.1
      | some d' =>
        rw [hname] at hd
        exact hword.2.2 d (hname.trans hd)

theorem tokens_eq {token : Bytes} {names : List Bytes} {pad : Bytes} (hne : token ≠ [])
    (htoken : ∀ c ∈ token, aliasFormat.Plain c)
    (hnames : ∀ name ∈ names, aliasFormat.IsWord name) (hpad : ∀ c ∈ pad, c = byte ' ') :
    tokens (token ++ names.flatMap (byte ' ' :: ·) ++ pad) = token :: names := by
  have hplain : ∀ c ∈ token, (!isBlank c) = true := fun c hc => by
    rw [show isBlank c = false from (htoken c hc).separates]
    rfl
  have hwords : ∀ name ∈ names, name ≠ [] ∧ ∀ c ∈ name, isBlank c = false := fun name hname =>
    ⟨(hnames name hname).1, fun c hc => ((hnames name hname).2.1 c hc).2.2⟩
  have hstrip : LineText.strip isSpace token = token :=
    LineText.strip_eq_self (fun c hc => (htoken c (List.mem_of_mem_head? hc)).strips)
      fun c hc => (htoken c (List.mem_of_getLast? hc)).strips
  have hrest : LineText.words isBlank ((names.flatMap (byte ' ' :: ·)).drop 1) = names := by
    have hall := LineText.words_flatMap (show isBlank (byte ' ') = true by decide) hwords
      (List.forall_mem_nil _)
    rw [List.append_nil] at hall
    cases names with
    | nil => exact hall
    | cons name names =>
      rwa [List.flatMap_cons, List.cons_append, LineText.words_cons (by decide)] at hall
  have htake : (names.flatMap (byte ' ' :: ·)).takeWhile (!isBlank ·) = [] := by
    cases names <;> rfl
  have hdrop : (names.flatMap (byte ' ' :: ·)).dropWhile (!isBlank ·) =
      names.flatMap (byte ' ' :: ·) := by
    cases names <;> rfl
  unfold tokens
  rw [strip_head hne htoken hnames hpad]
  dsimp only
  rw [List.takeWhile_append_of_pos hplain, List.dropWhile_append_of_pos hplain, htake, hdrop,
    List.append_nil, hstrip, hrest]

theorem aliasFormat_lawful : aliasFormat.Lawful where
  newline := rfl
  blank := ⟨by decide, rfl⟩
  hash := ⟨rfl, rfl⟩
  digit n hn := by
    obtain ⟨hvalue, hhash, hbreaks, hblank, hspace⟩ := digit_plain n hn
    exact ⟨hvalue, hhash, decide_eq_false hbreaks, hblank, hspace⟩
  selfAlias := by decide
  withoutSelf _ _ := rfl
  lines _ := rfl
  readLine := rfl
  tokens _ _ _ hne htoken hnames hpad := tokens_eq hne htoken hnames hpad

end Cpp

/-! ## All three -/

/-- Names persist in every run. -/
def AliasesPersist {α : Type} [DecidableEq α] (f : AliasFormat α) : Prop :=
  ∀ commands, (f.after commands).Persists f

/-- In every run whose names are words and whose notes have no further line that is an entry,
names resolve after loading as they did before saving. -/
theorem aliases_persist (commands : List (AliasCommand Char)) (bytes : List (AliasCommand UInt8)) :
    ((∀ c ∈ commands, c.Fits Python.aliasFormat) →
      (Python.aliasFormat.after commands).Persists Python.aliasFormat) ∧
    ((∀ c ∈ commands, c.Fits Javascript.aliasFormat) →
      (Javascript.aliasFormat.after commands).Persists Javascript.aliasFormat) ∧
    ((∀ c ∈ bytes, c.Fits Cpp.aliasFormat) →
      (Cpp.aliasFormat.after bytes).Persists Cpp.aliasFormat) :=
  ⟨fun h => AliasFormat.persists_of_sound Python.aliasFormat_lawful
      (AliasFormat.sound_after Python.aliasFormat_lawful h),
    fun h => AliasFormat.persists_of_sound Javascript.aliasFormat_lawful
      (AliasFormat.sound_after Javascript.aliasFormat_lawful h),
    fun h => AliasFormat.persists_of_sound Cpp.aliasFormat_lawful
      (AliasFormat.sound_after Cpp.aliasFormat_lawful h)⟩

instance {α : Type} [DecidableEq α] (f : AliasFormat α) (note : List α) :
    Decidable (f.IsNote note) :=
  inferInstanceAs (Decidable (∀ line ∈ (note.splitOnP f.breaks).tail,
    f.readLine (LineText.strip f.strips line) = none))

instance {α : Type} [DecidableEq α] (f : AliasFormat α) :
    ∀ c : AliasCommand α, Decidable (c.Fits f)
  | .add name _ note =>
    inferInstanceAs (Decidable (f.IsWord name ∧ ∀ text ∈ note, f.IsNote text))
  | .remove _ | .setSelf _ | .reload => isTrue trivial

/-- Two names for one hash, a note, a rotation and a removal, saved in between. -/
def keptNames {α : Type} (char : Char → α) : List (AliasCommand α) :=
  [.setSelf (Blob.fill 16 1), .add (['b', 'o', 'b'].map char) (Blob.fill 16 2)
    (some (['#', ' ', 'm', 'e'].map char)), .reload,
    .add (['r', 'o', 'b'].map char) (Blob.fill 16 2) none, .setSelf (Blob.fill 16 3), .reload,
    .remove (['b', 'o', 'b'].map char)]

theorem aliases_persist_keptNames :
    (Python.aliasFormat.after (keptNames id)).Persists Python.aliasFormat ∧
      (Javascript.aliasFormat.after (keptNames id)).Persists Javascript.aliasFormat ∧
      (Cpp.aliasFormat.after (keptNames Cpp.byte)).Persists Cpp.aliasFormat :=
  have hruns := aliases_persist (keptNames id) (keptNames Cpp.byte)
  ⟨hruns.1 (by decide +kernel), hruns.2.1 (by decide +kernel), hruns.2.2 (by decide +kernel)⟩

/-! ## A note of two lines -/

/-- `bob` is given a hash while another's note holds a line that gives it another. -/
def stolenName {α : Type} (char : Char → α) : List (AliasCommand α) :=
  [.add (['a', 'l', 'i', 'c', 'e'].map char) (Blob.fill 16 0)
    (some ((['x', '\n'] ++ List.replicate 32 '2' ++ [' ', 'b', 'o', 'b']).map char)),
    .add (['b', 'o', 'b'].map char) (Blob.fill 16 0x11) none]

theorem not_aliasesPersist {α : Type} [DecidableEq α] {f : AliasFormat α}
    (commands : List (AliasCommand α)) (name : List α)
    (h : (f.parse (f.serialize (f.after commands))).resolve name ≠
      (f.after commands).resolve name) : ¬ AliasesPersist f :=
  fun hpersist => h ((hpersist commands).1 name)

/-- After a save and a load `bob` is `2222…` and no more `1111…`. -/
theorem aliases_silently_rebound :
    ¬ AliasesPersist Python.aliasFormat ∧ ¬ AliasesPersist Javascript.aliasFormat ∧
      ¬ AliasesPersist Cpp.aliasFormat := by
  refine ⟨not_aliasesPersist (stolenName id) ['b', 'o', 'b'] ?_,
    not_aliasesPersist (stolenName id) ['b', 'o', 'b'] ?_,
    not_aliasesPersist (stolenName Cpp.byte) (['b', 'o', 'b'].map Cpp.byte) ?_⟩
  all_goals decide +kernel

end Dacar.Cli

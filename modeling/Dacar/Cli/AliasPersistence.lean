import Dacar.Cli.Aliases

/-!
# What a registry is after saving and loading

Names go into the file as they are.  The file gives back every registry whose names are words
and whose notes have no further line that could be taken for an entry.
-/

namespace Dacar.Cli

namespace AliasFormat

variable {α : Type} [DecidableEq α] (f : AliasFormat α)

/-! ## What can be given -/

/-- A name that is one token wherever it stands on a line. -/
def IsWord (name : List α) : Prop :=
  name ≠ [] ∧ (∀ c ∈ name, c ≠ f.hash ∧ f.breaks c = false ∧ f.separates c = false) ∧
    ∀ c ∈ name.getLast?, f.strips c = false

/-- No line of the note but its first is read as an entry. -/
def IsNote (note : List α) : Prop :=
  ∀ line ∈ (note.splitOnP f.breaks).tail, f.readLine (LineText.strip f.strips line) = none

instance (name : List α) : Decidable (f.IsWord name) :=
  inferInstanceAs (Decidable (name ≠ [] ∧
    (∀ c ∈ name, c ≠ f.hash ∧ f.breaks c = false ∧ f.separates c = false) ∧
    ∀ c ∈ name.getLast?, f.strips c = false))

/-- A character that nothing is done to. -/
structure Plain (c : α) : Prop where
  hash : c ≠ f.hash
  breaks : f.breaks c = false
  separates : f.separates c = false
  strips : f.strips c = false

/-- What the proofs need of a port. -/
structure Lawful : Prop where
  newline : f.breaks f.newline = true
  blank : f.blank ≠ f.hash ∧ f.breaks f.blank = false
  hash : f.breaks f.hash = false ∧ f.strips f.hash = false
  digit : ∀ n < 16, f.nibble (f.digit n) = some n ∧ f.Plain (f.digit n)
  selfAlias : f.IsWord f.selfAlias
  withoutSelf : ∀ names, names.Nodup → f.withoutSelf names = names.filter (· ≠ f.selfAlias)
  /-- Blank lines apart, lines are what stands between breaks. -/
  lines : ∀ text, ((f.lines text).map (LineText.strip f.strips)).filter (· ≠ []) =
    ((text.splitOnP f.breaks).map (LineText.strip f.strips)).filter (· ≠ [])
  readLine : f.readLine [] = none
  tokens : ∀ token names pad, token ≠ [] → (∀ c ∈ token, f.Plain c) →
    (∀ name ∈ names, f.IsWord name) → (∀ c ∈ pad, c = f.blank) →
    f.tokens (token ++ names.flatMap (f.blank :: ·) ++ pad) = token :: names

/-! ## Registries that are kept -/

/-- Nothing in the entry is taken for something else. -/
structure IsEntry (e : AliasEntry α) : Prop where
  nonempty : e.names ≠ []
  words : ∀ name ∈ e.names, f.IsWord name
  note : ∀ note ∈ e.note, f.IsNote note

/-- Hashes have one entry and names one hash. -/
structure Sound (r : AliasRegistry α) : Prop where
  hashes : (r.map AliasEntry.hash).Nodup
  names : (r.flatMap AliasEntry.names).Nodup
  entries : ∀ e ∈ r, f.IsEntry e

end AliasFormat

namespace AliasRegistry

variable {α : Type} [DecidableEq α]

/-- Each name is bound to at most one hash. -/
def Unambiguous (r : AliasRegistry α) : Prop :=
  ∀ e ∈ r, ∀ e' ∈ r, ∀ name ∈ e.names, name ∈ e'.names → e.hash = e'.hash

/-- Loaded again, every name resolves as it did before, and no name is ambiguous. -/
def Persists (f : AliasFormat α) (r : AliasRegistry α) : Prop :=
  (∀ name, (f.parse (f.serialize r)).resolve name = r.resolve name) ∧
    (f.parse (f.serialize r)).Unambiguous

/-! ## Names of a registry -/

theorem resolve_cons (e : AliasEntry α) (r : AliasRegistry α) (name : List α) :
    resolve (e :: r) name = if name ∈ e.names then some e.hash else r.resolve name := by
  unfold resolve
  rw [List.find?_cons]
  by_cases h : name ∈ e.names <;> simp [h]

theorem resolve_eq_none {r : AliasRegistry α} {name : List α} :
    r.resolve name = none ↔ name ∉ r.flatMap AliasEntry.names := by
  simp [resolve, List.find?_eq_none]

theorem exists_of_resolve {r : AliasRegistry α} {name : List α} {hash : Hash}
    (h : r.resolve name = some hash) : ∃ e ∈ r, e.hash = hash ∧ name ∈ e.names := by
  obtain ⟨e, hfind, rfl⟩ := Option.map_eq_some_iff.mp h
  exact ⟨e, List.mem_of_find?_eq_some hfind, rfl, by simpa using List.find?_some hfind⟩

omit [DecidableEq α] in
/-- With names bound once, entries that share a name are one. -/
theorem unambiguous_of_nodup {r : AliasRegistry α} (h : (r.flatMap AliasEntry.names).Nodup) :
    r.Unambiguous := by
  induction r with
  | nil => exact fun e he => nomatch he
  | cons e r ih =>
    rw [List.flatMap_cons, List.nodup_append] at h
    have hapart : ∀ e' ∈ r, ∀ name ∈ e.names, name ∉ e'.names := fun e' he' name hn hn' =>
      h.2.2 name hn name (List.mem_flatMap_of_mem he' hn') rfl
    intro e₁ h₁ e₂ h₂ name hn₁ hn₂
    rcases List.mem_cons.mp h₁ with rfl | hr₁ <;> rcases List.mem_cons.mp h₂ with rfl | hr₂
    · rfl
    · exact absurd hn₂ (hapart e₂ hr₂ name hn₁)
    · exact absurd hn₁ (hapart e₁ hr₁ name hn₂)
    · exact ih h.2.1 e₁ hr₁ e₂ hr₂ name hn₁ hn₂

/-! ## What the operations do -/

/-- A hash gets a new entry at the end, or its entry is changed in its place. -/
theorem enter_cases (hash : Hash) (names : List (List α)) (note : Option (List α))
    (r : AliasRegistry α) :
    (hash ∉ r.map AliasEntry.hash ∧ r.enter hash names note = r ++ [⟨hash, names, note⟩]) ∨
      ∃ front e back, r = front ++ e :: back ∧ e.hash = hash ∧
        r.enter hash names note =
          front ++ ⟨hash, addNames e.names names, note.or e.note⟩ :: back := by
  induction r with
  | nil => exact .inl ⟨by simp, rfl⟩
  | cons e r ih =>
    rw [enter]
    split_ifs with heq
    · exact .inr ⟨[], e, r, rfl, heq, rfl⟩
    · rcases ih with ⟨hnot, henter⟩ | ⟨front, e', back, rfl, he', henter⟩
      · refine .inl ⟨?_, by rw [henter, List.cons_append]⟩
        rw [List.map_cons, List.mem_cons, not_or]
        exact ⟨Ne.symm heq, hnot⟩
      · exact .inr ⟨e :: front, e', back, rfl, he', by rw [henter, List.cons_append]⟩

theorem remove_eq_some {name : List α} {r r' : AliasRegistry α} (h : r.remove name = some r') :
    ∃ front e back, r = front ++ e :: back ∧
      r' = front ++ (if (e.names.erase name).isEmpty then back
        else { e with names := e.names.erase name } :: back) := by
  induction r generalizing r' with
  | nil => cases h
  | cons e r ih =>
    rw [remove] at h
    split_ifs at h with hmem
    · exact ⟨[], e, r, rfl, (Option.some.inj h).symm⟩
    · obtain ⟨rest, hrest, rfl⟩ := Option.map_eq_some_iff.mp h
      obtain ⟨front, e', back, rfl, hr'⟩ := ih hrest
      exact ⟨e :: front, e', back, rfl, by rw [hr', List.cons_append]⟩

end AliasRegistry

namespace AliasFormat.Sound

variable {α : Type} [DecidableEq α] {f : AliasFormat α} {r r' : AliasRegistry α}

theorem nil : f.Sound [] := ⟨List.nodup_nil, List.nodup_nil, by simp⟩

/-- Leaving out entries and names does no harm. -/
theorem of_sublist (h : f.Sound r)
    (hhashes : (r'.map AliasEntry.hash).Sublist (r.map AliasEntry.hash))
    (hnames : (r'.flatMap AliasEntry.names).Sublist (r.flatMap AliasEntry.names))
    (hentries : ∀ e' ∈ r', e'.names ≠ [] ∧ ∃ e ∈ r, e'.names ⊆ e.names ∧ e'.note = e.note) :
    f.Sound r' where
  hashes := h.hashes.sublist hhashes
  names := h.names.sublist hnames
  entries e' he' := by
    obtain ⟨hne, e, he, hsub, hnote⟩ := hentries e' he'
    exact ⟨hne, fun name hname => (h.entries e he).words name (hsub hname),
      hnote ▸ (h.entries e he).note⟩

theorem append {e : AliasEntry α} (h : f.Sound r) (hhash : e.hash ∉ r.map AliasEntry.hash)
    (hnames : (r.flatMap AliasEntry.names ++ e.names).Nodup) (he : f.IsEntry e) :
    f.Sound (r ++ [e]) where
  hashes := by
    rw [List.map_append]
    exact h.hashes.append (List.nodup_singleton _) (by simpa using hhash)
  names := by simpa using hnames
  entries := List.forall_mem_append.mpr ⟨h.entries, by simpa using he⟩

theorem replace {front back : AliasRegistry α} {e e' : AliasEntry α}
    (h : f.Sound (front ++ e :: back)) (hhash : e'.hash = e.hash)
    (hnames : ((front ++ e' :: back).flatMap AliasEntry.names).Nodup) (he' : f.IsEntry e') :
    f.Sound (front ++ e' :: back) where
  hashes := by
    have hhashes := h.hashes
    rw [List.map_append, List.map_cons] at hhashes ⊢
    rwa [hhash]
  names := hnames
  entries := by
    have hentries := List.forall_mem_append.mp h.entries
    rw [List.forall_mem_append, List.forall_mem_cons]
    exact ⟨hentries.1, he', (List.forall_mem_cons.mp hentries.2).2⟩

/-- Adding a name that is new, or that the hash has already. -/
theorem add (h : f.Sound r) {name : List α} {hash : Hash} {note : Option (List α)}
    (hname : f.IsWord name) (hnote : ∀ text ∈ note, f.IsNote text)
    (hfree : ∀ existing, r.resolve name = some existing → existing = hash) :
    f.Sound (r.add name hash note) := by
  rcases AliasRegistry.enter_cases hash [name] note r with
    ⟨hnew, henter⟩ | ⟨front, e, back, rfl, rfl, henter⟩
  · rw [AliasRegistry.add, henter]
    have hfresh : name ∉ r.flatMap AliasEntry.names := by
      rw [← AliasRegistry.resolve_eq_none]
      by_contra hsome
      obtain ⟨existing, hex⟩ := Option.ne_none_iff_exists'.mp hsome
      obtain ⟨e, he, hhash, -⟩ := AliasRegistry.exists_of_resolve hex
      exact hnew (List.mem_map.mpr ⟨e, he, hhash.trans (hfree existing hex)⟩)
    exact h.append hnew (h.names.append (List.nodup_singleton _) (by simpa using hfresh))
      ⟨List.cons_ne_nil _ _, by simpa using hname, hnote⟩
  · rw [AliasRegistry.add, henter, AliasRegistry.addNames, AliasRegistry.addNames]
    have hold : f.IsEntry e := h.entries e (by simp)
    have hor : ∀ text ∈ note.or e.note, f.IsNote text := by
      cases note with
      | none => exact hold.note
      | some text => exact hnote
    split_ifs with hmem
    · exact h.replace rfl (by simpa using h.names) ⟨hold.nonempty, hold.words, hor⟩
    · -- bound already, the name would be one of this entry
      have hfresh : name ∉ (front ++ e :: back).flatMap AliasEntry.names := by
        rw [← AliasRegistry.resolve_eq_none]
        by_contra hsome
        obtain ⟨existing, hex⟩ := Option.ne_none_iff_exists'.mp hsome
        obtain ⟨e', he', hhash, hmem'⟩ := AliasRegistry.exists_of_resolve hex
        have heq : e' = e := List.inj_on_of_nodup_map h.hashes he' (by simp)
          (hhash.trans (hfree existing hex))
        exact hmem (heq ▸ hmem')
      refine h.replace rfl ?_ ⟨by simp, ?_, hor⟩
      · have hnodup := List.nodup_cons.mpr ⟨hfresh, h.names⟩
        simp only [List.flatMap_append, List.flatMap_cons, List.append_assoc,
          List.singleton_append] at hnodup ⊢
        rw [← List.append_assoc] at hnodup ⊢
        exact List.perm_middle.nodup_iff.mpr hnodup
      · rw [List.forall_mem_append]
        exact ⟨hold.words, by simpa using hname⟩

theorem remove (h : f.Sound r) {name : List α} (hr : r.remove name = some r') : f.Sound r' := by
  obtain ⟨front, e, back, rfl, rfl⟩ := AliasRegistry.remove_eq_some hr
  split_ifs with hempty
  · have hsub := (List.sublist_cons_self e back).append_left front
    refine h.of_sublist (hsub.map _) (hsub.flatMap _) fun e' he' => ?_
    have hmem := hsub.subset he'
    exact ⟨(h.entries e' hmem).nonempty, e', hmem, List.Subset.refl _, rfl⟩
  · have hne : e.names.erase name ≠ [] := by simpa using hempty
    refine h.replace rfl ?_ ⟨hne, fun n hn => ?_, (h.entries e (by simp)).note⟩
    · refine h.names.sublist ?_
      simp only [List.flatMap_append, List.flatMap_cons]
      exact (List.erase_sublist.append_right _).append_left _
    · exact (h.entries e (by simp)).words n (List.mem_of_mem_erase hn)

theorem setSelf (hf : f.Lawful) (h : f.Sound r) (hash : Hash) : f.Sound (f.setSelf hash r) := by
  have hstrip : (r.map fun e => { e with names := f.withoutSelf e.names }) =
      r.map fun e => { e with names := e.names.filter (· ≠ f.selfAlias) } :=
    List.map_congr_left fun e he => by
      rw [hf.withoutSelf _ ((List.nodup_flatMap.mp h.names).1 e he)]
  unfold AliasFormat.setSelf
  rw [hstrip]
  generalize hkept : (r.map fun e => { e with names := e.names.filter (· ≠ f.selfAlias) }).filter
    (fun e => !e.names.isEmpty) = kept
  have hmem : ∀ e' ∈ kept, e'.names ≠ [] ∧
      ∃ e ∈ r, e' = { e with names := e.names.filter (· ≠ f.selfAlias) } := by
    subst hkept
    intro e' he'
    obtain ⟨he', hne⟩ := List.mem_filter.mp he'
    obtain ⟨e, he, rfl⟩ := List.mem_map.mp he'
    exact ⟨by simpa using hne, e, he, rfl⟩
  have hsound : f.Sound kept := by
    refine h.of_sublist ?_ ?_ fun e' he' => ?_
    · subst hkept
      have hsub := (List.filter_sublist (p := fun e : AliasEntry α => !e.names.isEmpty)
        (l := r.map fun e => { e with names := e.names.filter (· ≠ f.selfAlias) })).map
          AliasEntry.hash
      rwa [List.map_map] at hsub
    · subst hkept
      refine (List.filter_sublist.flatMap _).trans ?_
      rw [List.flatMap_map]
      exact List.Sublist.flatMap_right r fun e _ => List.filter_sublist
    · obtain ⟨hne, e, he, rfl⟩ := hmem e' he'
      exact ⟨hne, e, he, List.filter_subset_self _, rfl⟩
  refine hsound.add hf.selfAlias (by simp) fun existing hex => ?_
  obtain ⟨e', he', -, hself⟩ := AliasRegistry.exists_of_resolve hex
  obtain ⟨-, e, -, rfl⟩ := hmem e' he'
  simp at hself

end AliasFormat.Sound

/-! ## Reading back -/

namespace AliasFormat

variable {α : Type} [DecidableEq α] (f : AliasFormat α)

/-- The entries on the lines of a text. -/
def records (text : List α) : List (Hash × List (List α) × Option (List α)) :=
  (text.splitOnP f.breaks).filterMap fun line => f.readLine (LineText.strip f.strips line)

/-- What is read of a note: the rest of its line. -/
def rereadNote (note : List α) : Option (List α) :=
  if f.writesNote note then
    let text := LineText.strip f.strips
      ((f.blank :: (note.splitOnP f.breaks).headD []).rdropWhile f.strips)
    if text.isEmpty then none else some text
  else none

def reread (e : AliasEntry α) : AliasEntry α := { e with note := e.note.bind f.rereadNote }

variable {f} (hf : f.Lawful)

include hf

theorem parse_eq (text : List α) :
    f.parse text =
      (f.records text).foldl (fun r x => AliasRegistry.enter x.1 x.2.1 x.2.2 r) [] := by
  have hskip : ∀ lines : List (List α), (lines.filter (· ≠ [])).filterMap f.readLine =
      lines.filterMap f.readLine := fun lines => by
    rw [List.filterMap_filter]
    refine List.filterMap_congr fun line _ => ?_
    by_cases hline : line = []
    · simp [hline, hf.readLine]
    · simp [hline]
  have hrecords : (f.lines text).filterMap (fun l => f.readLine (LineText.strip f.strips l)) =
      f.records text := by
    have hlines := congrArg (List.filterMap f.readLine) (hf.lines text)
    rw [hskip, hskip, List.filterMap_map, List.filterMap_map] at hlines
    exact hlines
  rw [← hrecords, List.foldl_filterMap, parse]
  congr 1
  funext r raw
  cases f.readLine (LineText.strip f.strips raw) <;> rfl

theorem records_append (a b : List α) :
    f.records (a ++ f.newline :: b) = f.records a ++ f.records b := by
  rw [records, List.splitOnP_append_cons _ _ hf.newline, List.filterMap_append]
  rfl

theorem records_nil : f.records [] = [] := by
  simp [records, LineText.strip, hf.readLine]

theorem plain_encode {b : Bytes} : ∀ c ∈ HexText.encode f.digit b, f.Plain c := by
  intro c hc
  obtain ⟨n, hn, rfl⟩ := HexText.exists_of_mem_encode hc
  exact (hf.digit n hn).2

/-- Hash and names, and blanks after them. -/
def headText (f : AliasFormat α) (e : AliasEntry α) (pad : List α) : List α :=
  HexText.encode f.digit e.hash.val ++ e.names.flatMap (f.blank :: ·) ++ pad

theorem mem_headText {e : AliasEntry α} (he : f.IsEntry e) {pad : List α}
    (hpad : ∀ c ∈ pad, c = f.blank) :
    ∀ c ∈ headText f e pad, c ≠ f.hash ∧ f.breaks c = false := by
  intro c hc
  rw [headText, List.mem_append, List.mem_append, List.mem_flatMap] at hc
  rcases hc with (hc | ⟨name, hname, hc⟩) | hc
  · have hplain := plain_encode hf c hc
    exact ⟨hplain.hash, hplain.breaks⟩
  · rcases List.mem_cons.mp hc with rfl | hc
    · exact hf.blank
    · have hword := (he.words name hname).2.1 c hc
      exact ⟨hword.1, hword.2.1⟩
  · rw [hpad c hc]
    exact hf.blank

/-- Hash and names are read up to the first `#`, the note is what follows it. -/
theorem readLine_headText {e : AliasEntry α} (he : f.IsEntry e) (pad rest : List α)
    (hpad : ∀ c ∈ pad, c = f.blank) (hrest : ∀ c ∈ rest.head?, c = f.hash) :
    f.readLine (headText f e pad ++ rest) =
      some (e.hash, e.names,
        if (LineText.strip f.strips (rest.drop 1)).isEmpty then none
        else some (LineText.strip f.strips (rest.drop 1))) := by
  have hhead : ∀ c ∈ headText f e pad, decide (c ≠ f.hash) = true := fun c hc =>
    decide_eq_true (mem_headText hf he hpad c hc).1
  have htake : rest.takeWhile (· ≠ f.hash) = [] := by
    cases rest with
    | nil => rfl
    | cons c rest => simp [hrest c rfl]
  have hdrop : rest.dropWhile (· ≠ f.hash) = rest := by
    cases rest with
    | nil => rfl
    | cons c rest => simp [hrest c rfl]
  have hne : HexText.encode f.digit e.hash.val ≠ [] := by
    rw [← List.length_pos_iff, HexText.encode_length, e.hash.property]
    decide
  have hhash : f.hashOf (HexText.encode f.digit e.hash.val) = some e.hash := by
    rw [hashOf, HexText.decode_encode fun n hn => (hf.digit n hn).1]
    exact dif_pos e.hash.property
  have htokens := hf.tokens _ e.names pad hne (plain_encode hf) he.words hpad
  unfold readLine
  rw [List.takeWhile_append_of_pos hhead, List.dropWhile_append_of_pos hhead, htake, hdrop,
    List.append_nil, headText]
  dsimp only
  rw [htokens]
  dsimp only
  rw [hhash]
  dsimp only
  rw [if_neg (by simpa using he.nonempty)]

theorem exists_headText (e : AliasEntry α) (pad : List α) :
    ∃ c x, headText f e pad = c :: x ∧ f.strips c = false := by
  have hpos : 0 < (HexText.encode f.digit e.hash.val).length := by
    rw [HexText.encode_length, e.hash.property]
    decide
  obtain ⟨c, x, hcons⟩ := List.exists_cons_of_length_pos hpos
  refine ⟨c, x ++ e.names.flatMap (f.blank :: ·) ++ pad, ?_, ?_⟩
  · rw [headText, hcons, List.cons_append, List.cons_append]
  · exact (plain_encode hf c (hcons ▸ List.mem_cons_self)).strips

/-- Neither end of the head is stripped. -/
theorem strip_headText {e : AliasEntry α} (he : f.IsEntry e) :
    LineText.strip f.strips (headText f e []) = headText f e [] := by
  refine LineText.strip_eq_self (fun c hc => ?_) (fun c hc => ?_)
  · obtain ⟨c', x, hcons, hc'⟩ := exists_headText hf e []
    rw [hcons] at hc
    obtain rfl := Option.some.inj hc
    exact hc'
  · obtain ⟨names, name, hnames⟩ := (List.eq_nil_or_concat e.names).resolve_left he.nonempty
    have hword := he.words name (by simp [hnames])
    have hlast : (headText f e []).getLast? = name.getLast? := by
      rw [headText, hnames, List.concat_eq_append, List.append_nil, List.flatMap_append,
        List.flatMap_singleton, List.getLast?_append, List.getLast?_append, List.getLast?_cons]
      cases hname : name.getLast? with
      | none => exact absurd (List.getLast?_eq_none_iff.mp hname) hword.1
      | some d => rfl
    exact hword.2.2 c (hlast ▸ hc)

theorem records_headText {e : AliasEntry α} (he : f.IsEntry e) :
    f.records (headText f e []) = [(e.hash, e.names, none)] := by
  have hline := readLine_headText hf he [] [] (by simp) (by simp)
  rw [List.append_nil, ← strip_headText hf he] at hline
  rw [records, List.splitOnP_eq_singleton fun c hc => (mem_headText hf he (by simp) c hc).2,
    List.filterMap_cons_some (f := fun l => f.readLine (LineText.strip f.strips l)) hline]
  rfl

/-- The lines of a written entry: its own, and those of its note from the second on. -/
theorem splitOnP_headText {e : AliasEntry α} (he : f.IsEntry e) {note first : List α}
    {further : List (List α)} (hlines : note.splitOnP f.breaks = first :: further) :
    (headText f e [f.blank, f.blank] ++ f.hash :: f.blank :: note).splitOnP f.breaks =
      (headText f e [f.blank, f.blank] ++ f.hash :: f.blank :: first) :: further := by
  have hhead : ∀ c ∈ headText f e [f.blank, f.blank] ++ [f.hash, f.blank], f.breaks c = false := by
    rw [List.forall_mem_append]
    refine ⟨fun c hc => (mem_headText hf he (by simp) c hc).2, ?_⟩
    simpa using ⟨hf.hash.1, hf.blank.2⟩
  have hsplit (l : List α) : headText f e [f.blank, f.blank] ++ f.hash :: f.blank :: l =
      headText f e [f.blank, f.blank] ++ [f.hash, f.blank] ++ l := by simp
  rw [hsplit note, hsplit first, LineText.splitOnP_append hhead, hlines, List.modifyHead_cons]

theorem records_serializeEntry {e : AliasEntry α} (he : f.IsEntry e) :
    f.records (f.serializeEntry e) = [(e.hash, e.names, e.note.bind f.rereadNote)] := by
  have hbare := records_headText hf he
  rw [headText, List.append_nil] at hbare
  cases hnote : e.note with
  | none => simpa [serializeEntry, hnote] using hbare
  | some note =>
    by_cases hwrites : f.writesNote note
    · obtain ⟨first, further, hlines⟩ :=
        List.exists_cons_of_ne_nil (List.splitOnP_ne_nil f.breaks note)
      have htext : f.serializeEntry e =
          headText f e [f.blank, f.blank] ++ f.hash :: f.blank :: note := by
        simp [serializeEntry, hnote, hwrites, headText]
      have hstrip : LineText.strip f.strips
          (headText f e [f.blank, f.blank] ++ f.hash :: f.blank :: first) =
          headText f e [f.blank, f.blank] ++ f.hash :: (f.blank :: first).rdropWhile f.strips := by
        obtain ⟨c, x, hcons, hc⟩ := exists_headText hf e [f.blank, f.blank]
        rw [hcons]
        exact LineText.strip_append hc hf.hash.2 x _
      have hline := readLine_headText hf he [f.blank, f.blank]
        (f.hash :: (f.blank :: first).rdropWhile f.strips) (by simp) (by simp)
      have hfurther : ∀ line ∈ further, f.readLine (LineText.strip f.strips line) = none := by
        have hok := he.note note (by simp [hnote])
        rwa [IsNote, hlines, List.tail_cons] at hok
      rw [← hstrip] at hline
      rw [htext, records, splitOnP_headText hf he hlines,
        List.filterMap_cons_some (f := fun l => f.readLine (LineText.strip f.strips l)) hline,
        List.filterMap_eq_nil_iff.mpr hfurther]
      simp only [Option.bind_some, rereadNote, if_pos hwrites, hlines, List.headD_cons,
        List.drop_succ_cons, List.drop_zero]
    · simpa [serializeEntry, hnote, hwrites, rereadNote] using hbare

theorem records_serialize {r : AliasRegistry α} (hr : ∀ e ∈ r, f.IsEntry e) :
    f.records (f.serialize r) = r.map fun e => (e.hash, e.names, e.note.bind f.rereadNote) := by
  induction r with
  | nil => exact records_nil hf
  | cons e r ih =>
    rw [List.forall_mem_cons] at hr
    rw [serialize, List.flatMap_cons, ← serialize, List.append_assoc, List.singleton_append,
      records_append hf, records_serializeEntry hf hr.1, ih hr.2]
    rfl

omit hf in
/-- Lines with different hashes make an entry each. -/
theorem foldl_enter (entries r : AliasRegistry α)
    (h : ((r ++ entries).map AliasEntry.hash).Nodup) :
    (entries.map fun e => (e.hash, e.names, e.note)).foldl
      (fun r x => AliasRegistry.enter x.1 x.2.1 x.2.2 r) r = r ++ entries := by
  induction entries generalizing r with
  | nil => simp
  | cons e entries ih =>
    have hsplit : r ++ e :: entries = r ++ [e] ++ entries := by simp
    have hnew : e.hash ∉ r.map AliasEntry.hash := by
      rw [List.map_append, List.map_cons] at h
      exact fun hmem => (List.nodup_append.mp h).2.2 e.hash hmem e.hash List.mem_cons_self rfl
    have henter : AliasRegistry.enter e.hash e.names e.note r = r ++ [e] := by
      rcases AliasRegistry.enter_cases e.hash e.names e.note r with
        ⟨-, henter⟩ | ⟨front, e', back, rfl, heq, -⟩
      · exact henter
      · exact absurd (by simp [heq]) hnew
    rw [List.map_cons, List.foldl_cons, henter, ih _ (hsplit ▸ h), hsplit]

/-- A sound registry is read back with its hashes and names. -/
theorem parse_serialize {r : AliasRegistry α} (h : f.Sound r) :
    f.parse (f.serialize r) = r.map f.reread := by
  have hrecords : (r.map fun e => (e.hash, e.names, e.note.bind f.rereadNote)) =
      (r.map f.reread).map fun e => (e.hash, e.names, e.note) := by
    rw [List.map_map]
    rfl
  rw [parse_eq hf, records_serialize hf h.entries, hrecords, foldl_enter]
  · rfl
  · rw [List.nil_append, List.map_map]
    exact h.hashes

omit hf in
/-- What is read of a note is on one line. -/
theorem isNote_of_rereadNote {note text : List α} (h : f.rereadNote note = some text)
    (hblank : f.breaks f.blank = false) : f.IsNote text := by
  have hclean : ∀ c ∈ text, f.breaks c = false := by
    unfold rereadNote at h
    split_ifs at h with hwrites
    dsimp only at h
    split_ifs at h with hempty
    obtain rfl := Option.some.inj h
    intro c hc
    have hmem := (List.rdropWhile_prefix f.strips _).subset (LineText.mem_of_mem_strip hc)
    rcases List.mem_cons.mp hmem with rfl | hmem
    · exact hblank
    · obtain ⟨first, further, hlines⟩ :=
        List.exists_cons_of_ne_nil (List.splitOnP_ne_nil f.breaks note)
      rw [hlines, List.headD_cons] at hmem
      exact LineText.eq_false_of_mem_splitOnP (hlines ▸ List.mem_cons_self) c hmem
  rw [IsNote, List.splitOnP_eq_singleton hclean]
  simp

theorem Sound.reload {r : AliasRegistry α} (h : f.Sound r) : f.Sound (f.parse (f.serialize r)) := by
  rw [parse_serialize hf h]
  refine ⟨?_, ?_, fun e' he' => ?_⟩
  · rw [List.map_map]
    exact h.hashes
  · rw [List.flatMap_map]
    exact h.names
  · obtain ⟨e, he, rfl⟩ := List.mem_map.mp he'
    refine ⟨(h.entries e he).nonempty, (h.entries e he).words, fun text htext => ?_⟩
    obtain ⟨note, -, hread⟩ := Option.bind_eq_some_iff.mp htext
    exact isNote_of_rereadNote hread hf.blank.2

theorem persists_of_sound {r : AliasRegistry α} (h : f.Sound r) : r.Persists f := by
  refine ⟨fun name => ?_, AliasRegistry.unambiguous_of_nodup (h.reload hf).names⟩
  rw [parse_serialize hf h]
  clear h
  induction r with
  | nil => rfl
  | cons e r ih =>
    rw [List.map_cons, AliasRegistry.resolve_cons, AliasRegistry.resolve_cons, ih]
    rfl

end AliasFormat

/-! ## Runs -/

/-- A command whose name is a word and whose note has one line, or no further line that is an
entry. -/
def AliasCommand.Fits {α : Type} [DecidableEq α] (f : AliasFormat α) : AliasCommand α → Prop
  | .add name _ note => f.IsWord name ∧ ∀ text ∈ note, f.IsNote text
  | .remove _ | .setSelf _ | .reload => True

section Runs

variable {α : Type} [DecidableEq α] {f : AliasFormat α}

theorem AliasCommand.sound_run (hf : f.Lawful) {r : AliasRegistry α} (h : f.Sound r)
    {c : AliasCommand α} (hc : c.Fits f) : f.Sound (c.run f r) := by
  cases c with
  | add name hash note =>
    rw [AliasCommand.run]
    cases hresolve : r.resolve name with
    | none => exact h.add hc.1 hc.2 fun existing hex => by rw [hresolve] at hex; cases hex
    | some existing =>
      dsimp only
      split_ifs with heq
      · refine h.add hc.1 hc.2 fun existing' hex => ?_
        rw [hresolve] at hex
        exact (Option.some.inj hex).symm.trans heq
      · exact h
  | remove name =>
    rw [AliasCommand.run]
    cases hremove : r.remove name with
    | none => exact h
    | some r' => exact h.remove hremove
  | setSelf hash => exact h.setSelf hf hash
  | reload => exact h.reload hf

theorem AliasFormat.sound_after (hf : f.Lawful) {commands : List (AliasCommand α)}
    (h : ∀ c ∈ commands, c.Fits f) : f.Sound (f.after commands) := by
  suffices hrun : ∀ r, f.Sound r → f.Sound (commands.foldl (fun r c => c.run f r) r) from
    hrun [] .nil
  induction commands with
  | nil => exact fun r hr => hr
  | cons c commands ih =>
    rw [List.forall_mem_cons] at h
    exact fun r hr => ih h.2 _ (AliasCommand.sound_run hf hr h.1)

end Runs

end Dacar.Cli

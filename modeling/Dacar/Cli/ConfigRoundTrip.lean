import Dacar.Cli.AliasPorts
import Dacar.Cli.Config
import Dacar.Fallible

/-!
# What a configuration is after saving and loading

The topic is the one value that is any text.  It goes into the record as it is, so a line break
in it begins a line of the record.
-/

namespace Dacar.Cli

open Fallible

open IniText (Format IsValue IsWord IsSection)

/-! ## What is written -/

/-- What names and keys are made of. -/
def isWordChar (c : Char) : Bool := c.isLower || c.isDigit || c = '_'

/-- The names and keys of the record. -/
def configWords : List String :=
  ["salt", "primary", "legacy0", "legacy1", "trust", "anchors", "authoritative", "policy",
    "deletion_horizon_days", "rfed", "topic", "node", "lxmf", "proprietor"]

/-- What the proofs need of a port's parser. -/
structure ReadsConfig {α : Type} [DecidableEq α] (f : Format α) : Prop where
  lawful : f.Lawful
  word : ∀ w : List Char, w ≠ [] → (∀ c ∈ w, isWordChar c = true) → IsWord f (w.map f.char)
  digit : ∀ n < 16, f.strips (f.char n.digitChar) = false ∧
    f.char n.digitChar ≠ f.char '\n' ∧ f.char n.digitChar ≠ f.char ','
  comma : f.char ',' ≠ f.char '\n' ∧ f.char ' ' ≠ f.char ','

theorem isWordChar_of_mem_configWords : ∀ s ∈ configWords,
    s.toList ≠ [] ∧ ∀ c ∈ s.toList, isWordChar c = true := by
  simp [configWords, isWordChar, Char.isLower]

theorem eq_digitChar_of_isDigit {c : Char} (h : c.isDigit = true) : ∃ k < 10, c = k.digitChar := by
  have hrange : 48 ≤ c.toNat ∧ c.toNat ≤ 57 := by
    simpa [Char.isDigit, UInt32.le_iff_toNat_le] using h
  refine ⟨c.toNat - 48, by omega, ?_⟩
  rw [← Char.ofNat_toNat c]
  generalize c.toNat = n at hrange ⊢
  obtain ⟨hlo, hhi⟩ := hrange
  interval_cases n <;> rfl

section Written

variable {α : Type} {f : Format α}

theorem isValue_of_ends {v : List α} (hnewline : ∀ c ∈ v, c ≠ f.char '\n')
    (hhead : ∀ c ∈ v.head?, f.strips c = false) (hlast : ∀ c ∈ v.getLast?, f.strips c = false) :
    IsValue f v :=
  ⟨fun hmem => hnewline _ hmem rfl, LineText.strip_eq_self hhead hlast⟩

theorem hexText_ne_nil (char : Char → α) {n : ℕ} (b : Blob (n + 1)) : hexText char b.val ≠ [] := by
  rw [← List.length_pos_iff, hexText, HexText.encode_length, b.property]
  omega

variable [DecidableEq α] (hf : ReadsConfig f)

include hf

theorem plain_hexText {b : Bytes} : ∀ c ∈ hexText f.char b,
    f.strips c = false ∧ c ≠ f.char '\n' ∧ c ≠ f.char ',' := by
  intro c hc
  obtain ⟨n, hn, rfl⟩ := HexText.exists_of_mem_encode hc
  exact hf.digit n hn

theorem isValue_hexText (b : Bytes) : IsValue f (hexText f.char b) :=
  isValue_of_ends (fun c hc => (plain_hexText hf c hc).2.1)
    (fun c hc => (plain_hexText hf c (List.mem_of_mem_head? hc)).1)
    fun c hc => (plain_hexText hf c (List.mem_of_getLast? hc)).1

/-- The list ends in a digit, if it does so before the items that come. -/
theorem last_join {first : List α} (hfirst : ∀ c ∈ first.getLast?, f.strips c = false)
    (anchors : List Hash) :
    ∀ c ∈ (first ++ anchors.flatMap fun b => word f.char ", " ++ hexText f.char b.val).getLast?,
      f.strips c = false := by
  induction anchors generalizing first with
  | nil => simpa using hfirst
  | cons a anchors ih =>
    have hnext : ∀ c ∈ (first ++ (word f.char ", " ++ hexText f.char a.val)).getLast?,
        f.strips c = false := by
      intro c hc
      rw [List.getLast?_append_of_ne_nil _ (by simp [hexText_ne_nil]),
        List.getLast?_append_of_ne_nil _ (hexText_ne_nil _ a)] at hc
      exact (plain_hexText hf c (List.mem_of_getLast? hc)).1
    simpa using ih hnext

theorem isValue_joinAnchors (anchors : List Hash) : IsValue f (joinAnchors f.char anchors) := by
  cases anchors with
  | nil => exact isValue_of_ends (List.forall_mem_nil _) nofun nofun
  | cons a anchors =>
    refine isValue_of_ends (fun c hc => ?_) (fun c hc => ?_)
      (last_join hf (fun c hc => (plain_hexText hf c (List.mem_of_getLast? hc)).1) anchors)
    · rcases List.mem_append.mp hc with hc | hc
      · exact (plain_hexText hf c hc).2.1
      · obtain ⟨b, -, hc⟩ := List.mem_flatMap.mp hc
        rcases List.mem_append.mp hc with hc | hc
        · obtain ⟨c', hc', rfl⟩ := List.mem_map.mp hc
          fin_cases hc'
          · exact hf.comma.1
          · exact hf.lawful.newline ' ' (by simp)
        · exact (plain_hexText hf c hc).2.1
    · rw [joinAnchors, List.head?_append_of_ne_nil _ (hexText_ne_nil _ a)] at hc
      exact (plain_hexText hf c (List.mem_of_mem_head? hc)).1

theorem isValue_write {n : ℤ} (hn : 0 ≤ n) : IsValue f ((DecimalText.write n).map f.char) := by
  have hplain : ∀ c ∈ (DecimalText.write n).map f.char, f.strips c = false ∧ c ≠ f.char '\n' := by
    intro c hc
    obtain ⟨c', hc', rfl⟩ := List.mem_map.mp hc
    obtain ⟨k, hk, rfl⟩ := eq_digitChar_of_isDigit (DecimalText.isDigit_of_mem_write hn hc')
    exact ⟨(hf.digit k (by omega)).1, (hf.digit k (by omega)).2.1⟩
  exact isValue_of_ends (fun c hc => (hplain c hc).2)
    (fun c hc => (hplain c (List.mem_of_mem_head? hc)).1)
    fun c hc => (hplain c (List.mem_of_getLast? hc)).1

theorem isWord_word {s : String} (h : s ∈ configWords) : IsWord f (word f.char s) :=
  hf.word _ (isWordChar_of_mem_configWords s h).1 (isWordChar_of_mem_configWords s h).2

/-- Only the topic might not be readable. -/
theorem isSection_configSections {config : StoreConfig α ℤ} (htopic : IsValue f config.rfedTopic)
    (hhorizon : 0 ≤ config.horizonDays) :
    ∀ s ∈ configSections f.char config, IsSection f s := by
  have hashOption_ok : ∀ (key : String) (h : Option Hash), IsWord f (word f.char key) →
      ∀ o ∈ hashOption f.char key h, IsWord f o.1 ∧ IsValue f o.2 := fun key h hkey o ho => by
    cases h with
    | none => cases ho
    | some h =>
      obtain rfl := List.mem_singleton.mp ho
      exact ⟨hkey, isValue_hexText hf _⟩
  have hlegacy : ∀ i < 2, IsWord f (word f.char ("legacy" ++ toString i)) := fun i hi => by
    interval_cases i <;> exact isWord_word hf (by decide)
  rw [configSections, List.forall_mem_append]
  refine ⟨?_, ?_⟩
  · rw [List.forall_mem_cons, List.forall_mem_cons, List.forall_mem_cons, List.forall_mem_singleton]
    refine ⟨⟨isWord_word hf (by simp [configWords]), ?_⟩,
      ⟨isWord_word hf (by simp [configWords]), ?_⟩,
      ⟨isWord_word hf (by simp [configWords]), ?_⟩,
      ⟨isWord_word hf (by simp [configWords]), ?_⟩⟩
    · rw [List.forall_mem_cons]
      refine ⟨⟨isWord_word hf (by simp [configWords]), isValue_hexText hf _⟩, fun o ho => ?_⟩
      obtain ⟨⟨salt, i⟩, hmem, rfl⟩ := List.mem_map.mp ho
      have hi : i < 2 := by
        have := List.snd_lt_of_mem_zipIdx hmem
        simp [maxLegacySalts] at this
        omega
      exact ⟨hlegacy i hi, isValue_hexText hf _⟩
    · rw [List.forall_mem_cons]
      exact ⟨⟨isWord_word hf (by simp [configWords]), isValue_joinAnchors hf _⟩,
        hashOption_ok _ _ (isWord_word hf (by simp [configWords]))⟩
    · rw [List.forall_mem_singleton]
      exact ⟨isWord_word hf (by simp [configWords]), isValue_write hf hhorizon⟩
    · rw [List.forall_mem_cons]
      exact ⟨⟨isWord_word hf (by simp [configWords]), htopic⟩,
        hashOption_ok _ _ (isWord_word hf (by simp [configWords]))⟩
  · cases config.lxmfProprietor with
    | none => exact List.forall_mem_nil _
    | some h =>
      rw [lxmfSections, List.forall_mem_singleton]
      exact ⟨isWord_word hf (by simp [configWords]),
        hashOption_ok "proprietor" (some h) (isWord_word hf (by simp [configWords]))⟩

omit hf in
theorem commaItems_append {w item : List α} (hw : ∀ c ∈ w, c ≠ f.char ',')
    (hitem : LineText.strip f.strips w = item) (hne : item ≠ []) (rest : List α) :
    commaItems f (w ++ f.char ',' :: rest) = item :: commaItems f rest := by
  subst hitem
  rw [commaItems, List.splitOnP_append_cons_of_forall_mem (fun c hc => decide_eq_false (hw c hc)) _
    (by simp), List.map_cons, List.filter_cons_of_pos (by simpa using hne), commaItems]

omit hf in
theorem commaItems_of_forall_ne {w item : List α} (hw : ∀ c ∈ w, c ≠ f.char ',')
    (hitem : LineText.strip f.strips w = item) (hne : item ≠ []) : commaItems f w = [item] := by
  subst hitem
  rw [commaItems, List.splitOnP_eq_singleton fun c hc => decide_eq_false (hw c hc), List.map_cons,
    List.filter_cons_of_pos (by simpa using hne)]
  rfl

/-- An item with or without the blank before it. -/
theorem strip_item {lead : List α} (hlead : lead = [] ∨ lead = [f.char ' ']) (a : Hash) :
    (∀ c ∈ lead ++ hexText f.char a.val, c ≠ f.char ',') ∧
      LineText.strip f.strips (lead ++ hexText f.char a.val) = hexText f.char a.val := by
  have hhex : ∀ c ∈ hexText f.char a.val, c ≠ f.char ',' := fun c hc => (plain_hexText hf c hc).2.2
  rcases hlead with rfl | rfl
  · exact ⟨hhex, (isValue_hexText hf a.val).strip⟩
  · rw [List.singleton_append, List.forall_mem_cons, LineText.strip_cons hf.lawful.blank]
    exact ⟨⟨hf.comma.2, hhex⟩, (isValue_hexText hf a.val).strip⟩

/-- A list of anchors is cut into its items. -/
theorem commaItems_joinAnchors (anchors : List Hash) :
    commaItems f (joinAnchors f.char anchors) = anchors.map fun a => hexText f.char a.val := by
  have hpiece : ∀ (rest : List Hash) (lead : List α) (a : Hash), lead = [] ∨ lead = [f.char ' '] →
      commaItems f (lead ++ (hexText f.char a.val ++
        rest.flatMap fun b => word f.char ", " ++ hexText f.char b.val)) =
      hexText f.char a.val :: rest.map fun b => hexText f.char b.val := by
    intro rest
    induction rest with
    | nil =>
      intro lead a hlead
      have hitem := strip_item hf hlead a
      rw [List.flatMap_nil, List.append_nil,
        commaItems_of_forall_ne hitem.1 hitem.2 (hexText_ne_nil _ a), List.map_nil]
    | cons b rest ih =>
      intro lead a hlead
      have hitem := strip_item hf hlead a
      have hcomma : word f.char ", " = [f.char ',', f.char ' '] := rfl
      have hsplit : lead ++ (hexText f.char a.val ++
          (b :: rest).flatMap fun b => word f.char ", " ++ hexText f.char b.val) =
          (lead ++ hexText f.char a.val) ++ f.char ',' :: ([f.char ' '] ++ (hexText f.char b.val ++
            rest.flatMap fun b => word f.char ", " ++ hexText f.char b.val)) := by
        simp [hcomma]
      rw [hsplit, commaItems_append hitem.1 hitem.2 (hexText_ne_nil _ a), ih _ b (.inr rfl),
        List.map_cons]
  cases anchors with
  | nil => rfl
  | cons a anchors => exact hpiece anchors [] a (.inl rfl)

/-! ## What is read of it -/

theorem readLines_configText {config : StoreConfig α ℤ} (htopic : IsValue f config.rfedTopic)
    (hhorizon : 0 ≤ config.horizonDays) :
    f.readLines (configText f.char config) =
      IniText.linesOf (configSections f.char config) ++ [.blank] :=
  IniText.readLines_write hf.lawful (isSection_configSections hf htopic hhorizon)

end Written

theorem toNat_lt_of_isWordChar {c : Char} (h : isWordChar c = true) : c.toNat < 123 := by
  have hrange : (97 ≤ c.toNat ∧ c.toNat ≤ 122 ∨ 48 ≤ c.toNat ∧ c.toNat ≤ 57) ∨ c = '_' := by
    simpa [isWordChar, Char.isLower, Char.isDigit, UInt32.le_iff_toNat_le] using h
  rcases hrange with (h | h) | rfl
  · omega
  · omega
  · decide

/-- What the characters below 123 show. -/
@[elab_as_elim] theorem of_isWordChar {P : Char → Prop}
    (hP : ∀ n < 123, isWordChar (Char.ofNat n) = true → P (Char.ofNat n)) {c : Char}
    (h : isWordChar c = true) : P c := by
  have hc := hP c.toNat (toNat_lt_of_isWordChar h)
  rw [Char.ofNat_toNat] at hc
  exact hc h

/-- At most two values, looked up by their places. -/
theorem filterMap_range_two {β γ : Type} {g : ℕ → Option γ} {k : β → γ} {l : List β}
    (hlength : l.length ≤ 2) (hg : ∀ i < 2, g i = l[i]?.map k) :
    (List.range maxLegacySalts).filterMap (fun i => (g i).map fun v => (i, v)) =
      l.zipIdx.map fun x => (x.2, k x.1) := by
  have hrange : List.range maxLegacySalts = [0, 1] := rfl
  rw [hrange]
  match l, hlength with
  | [], _ | [_], _ | [_, _], _ => simp [hg 0, hg 1]

/-! ## JavaScript -/

namespace Javascript

theorem isWordChar_plain : ∀ n < 123, isWordChar (Char.ofNat n) = true →
    isStrWhiteSpace (Char.ofNat n) = false ∧
      Char.ofNat n ∉ ['\n', '[', '#', ';', '=', ':'] ∧
      isLineTerminator (Char.ofNat n) = false ∧ (Char.ofNat n).toLower = Char.ofNat n := by
  decide +kernel

theorem plain_of_isWordChar {c : Char} (h : isWordChar c = true) :
    isStrWhiteSpace c = false ∧ c ∉ ['\n', '[', '#', ';', '=', ':'] ∧
      isLineTerminator c = false ∧ c.toLower = c := by
  exact of_isWordChar isWordChar_plain h

theorem marks_plain : ∀ c ∈ ['[', ']', '='], isStrWhiteSpace c = false := by
  simp [isStrWhiteSpace]

theorem marks_ne_newline : ∀ c ∈ [',', '[', ']', ' ', '='], c ≠ '\n' := by
  simp

theorem digit_ne_comma : ∀ n < 16, n.digitChar ≠ ',' := by
  decide

theorem sectionName_of_ne {c : Char} (hc : c ≠ '[') (line : List Char) :
    sectionName (c :: line) = none := by
  unfold sectionName
  split
  · rename_i heq
    exact absurd (List.cons.inj heq).1 hc
  · rfl

theorem sectionName_word {w : List Char} (hne : w ≠ []) (hw : ∀ c ∈ w, isLineTerminator c = false) :
    sectionName ('[' :: w ++ [']']) = some w := by
  have hany : w.any isLineTerminator = false := by
    rw [List.any_eq_false]
    exact fun c hc => by rw [hw c hc]; exact Bool.false_ne_true
  rw [List.cons_append, sectionName, if_pos, List.dropLast_concat]
  rw [List.dropLast_concat, hany]
  exact ⟨List.getLast?_concat .., by simpa using hne, Bool.false_ne_true⟩

theorem readsConfig {p : TextPlatform} (hp : p.Lawful) : ReadsConfig (iniFormat p) where
  lawful :=
    { lines := fun text => splitLines_strip text [] (by simp)
      blank := rfl
      marks := marks_plain
      header := fun _ line hc => sectionName_of_ne hc line
      newline := fun c hc => marks_ne_newline c (List.mem_cons_of_mem _ hc)
      comment := by simp [iniFormat]
      delimiter := by simp [iniFormat] }
  word w hne hw := by
    have hplain := fun c hc => plain_of_isWordChar (hw c hc)
    rw [show w.map (iniFormat p).char = w from List.map_id w]
    refine ⟨hne, fun c hc => (hplain c hc).1, fun c hc => (hplain c hc).2.1, ?_,
      sectionName_word hne fun c hc => (hplain c hc).2.2.1⟩
    have hlower : w.map Char.toLower = w :=
      (List.map_congr_left fun c hc => (hplain c hc).2.2.2).trans (List.map_id w)
    exact (hp.toLowerCase w fun c hc => (toNat_lt_of_isWordChar (hw c hc)).trans (by decide)).trans
      hlower
  digit n hn := by
    obtain ⟨-, -, hbreak, hspace⟩ := digit_plain n hn
    exact ⟨hspace, hbreak, digit_ne_comma n hn⟩
  comma := by simp [iniFormat]

theorem nodup_configSections (config : StoreConfig Char ℤ) :
    ((configSections id config).map Prod.fst).Nodup ∧
      ∀ s ∈ configSections id config, (s.2.map Prod.fst).Nodup := by
  obtain ⟨primary, legacy, anchors, authoritative, horizon, topic, node, proprietor⟩ := config
  refine ⟨?_, ?_⟩
  · cases proprietor <;> simp [configSections, lxmfSections, word]
  · rw [configSections, List.forall_mem_append]
    refine ⟨?_, by cases proprietor <;> simp [lxmfSections, hashOption, word]⟩
    rw [List.forall_mem_cons, List.forall_mem_cons, List.forall_mem_cons,
      List.forall_mem_singleton]
    refine ⟨?_, by cases authoritative <;> simp [hashOption, word], by simp,
      by cases node <;> simp [hashOption, word]⟩
    rcases legacy with _ | ⟨a, _ | ⟨b, legacy⟩⟩ <;>
      simp [word, maxLegacySalts, Nat.toDigits_of_lt_base, Nat.digitChar]

/-- A topic without line feeds and blanks at its ends leaves the record as it was meant. -/
theorem parseIni_encode {p : TextPlatform} (hp : p.Lawful) {config : StoreConfig Char ℤ}
    (htopic : IsValue (iniFormat p) config.rfedTopic) (hhorizon : 0 ≤ config.horizonDays) :
    parseIni p (encodeConfigIni config) = configSections id config := by
  have htext : p.textDecoder (encodeConfigIni config) = configText id config :=
    hp.textDecoder _ (by simp [configText, configSections, IniText.write, IniText.writeSection])
  have hlines := readLines_configText (readsConfig hp) htopic hhorizon
  have hnodup := nodup_configSections config
  have hfold : ((IniText.linesOf (configSections id config)).foldl IniText.replace ([], none)).1 =
      [] ++ configSections id config :=
    IniText.foldl_replace_linesOf none hnodup.1 hnodup.2
  rw [parseIni, htext, show configText id config = configText (iniFormat p).char config from rfl,
    hlines, List.foldl_append]
  exact hfold

/-- `0x` is nowhere in the digits of a byte. -/
theorem hexToBytes_hexText (b : Bytes) : hexToBytes (hexText id b) = .ok b := by
  have hx : ∀ n < 16, n.digitChar ≠ 'x' := by decide
  have hclean : cleanHex (hexText id b) = hexText id b := by
    cases b with
    | nil => rfl
    | cons y b =>
      unfold cleanHex
      split
      · rename_i rest heq
        have hlo := (List.cons.inj (List.cons.inj heq).2).1
        exact absurd hlo (hx _ (Nat.mod_lt _ (by decide)))
      · rfl
  have hdecode : HexText.decode Dacar.digit (hexText id b) = some b :=
    HexText.decode_encode (fun n hn => (digit_plain n hn).1) b
  rw [hexToBytes, hclean, hdecode]

theorem expectHex_hexText {n : ℕ} (name : String) (b : Blob n) :
    expectHex name n (hexText id b.val) = .ok b := by
  rw [expectHex, hexToBytes_hexText]
  exact dif_pos b.property

theorem legacy_lookup {config : StoreConfig Char ℤ} (h : config.legacySalts.length ≤ 2) :
    ∀ i < 2, ((IniText.only (configSections id config) "salt".toList
        ("legacy" ++ toString i).toList).filter fun v => !v.isEmpty) =
      config.legacySalts[i]?.map fun salt => hexText id salt.val := by
  have hfull : ∀ salt : Salt, (some (hexText id salt.val)).filter (fun v => !v.isEmpty) =
      some (hexText id salt.val) := fun salt => if_pos (by simp [hexText_ne_nil])
  obtain ⟨primary, legacy, anchors, authoritative, horizon, topic, node, proprietor⟩ := config
  intro i hi
  match legacy, h with
  | [], _ => interval_cases i <;> rfl
  | [a], _ =>
    interval_cases i
    · exact hfull a
    · rfl
  | [a, b], _ =>
    interval_cases i
    · exact hfull a
    · exact hfull b

theorem only_hashOption {doc : List (IniText.Section Char)} {name key : String} {h : Option Hash}
    (hget : IniText.only doc name.toList key.toList = h.map fun h => hexText id h.val) :
    (IniText.only doc name.toList key.toList).mapM (expectHex key 16) = .ok h := by
  rw [hget]
  cases h with
  | none => rfl
  | some h =>
    rw [Option.map_some, Option.mapM_some, expectHex_hexText]
    rfl

/-- The addresses are found where there are any. -/
theorem only_addresses (config : StoreConfig Char ℤ) :
    IniText.only (configSections id config) "trust".toList "authoritative".toList =
        (config.authoritative.map fun h => hexText id h.val) ∧
      IniText.only (configSections id config) "rfed".toList "node".toList =
        (config.rfedNode.map fun h => hexText id h.val) ∧
      IniText.only (configSections id config) "lxmf".toList "proprietor".toList =
        config.lxmfProprietor.map fun h => hexText id h.val := by
  obtain ⟨primary, legacy, anchors, authoritative, horizon, topic, node, proprietor⟩ := config
  refine ⟨?_, ?_, ?_⟩
  · cases authoritative <;> rfl
  · cases node <;> rfl
  · cases proprietor <;> rfl

theorem parseInt_write {n : ℤ} (hn : 0 ≤ n) (hint : n < 2 ^ 31) :
    parseInt (DecimalText.write n) = .finite n := by
  have hdrop : (DecimalText.write n).dropWhile isStrWhiteSpace = DecimalText.write n := by
    rw [List.dropWhile_eq_self_iff]
    intro hpos hspace
    obtain ⟨k, hk, heq⟩ :=
      eq_digitChar_of_isDigit (DecimalText.isDigit_of_mem_write hn (List.getElem_mem hpos))
    rw [heq, (digit_plain k (by omega)).2.2.2] at hspace
    exact Bool.false_ne_true hspace
  have hdouble : doubleOf n.natAbs = n.natAbs := if_pos (by omega)
  have hbits : ∀ k, 31 ≤ k → n.natAbs < 2 ^ k := fun k hk =>
    (show n.natAbs < 2 ^ 31 by omega).trans_le (Nat.pow_le_pow_right (by decide) hk)
  have hsmall : ¬2 ^ 1024 ≤ n.natAbs := not_le.mpr (hbits 1024 (by decide))
  rw [parseInt, hdrop, DecimalText.readInt_write hn]
  dsimp only
  rw [hdouble, if_neg hsmall]
  rw [← Int.cast_natCast, ← Int.cast_mul, Int.sign_mul_natAbs]

/-- The sections of a configuration are decoded to it. -/
theorem decodeSections_configSections (p : TextPlatform) (hp : p.Lawful)
    {config : StoreConfig Char ℤ} (hlegacy : config.legacySalts.length ≤ 2)
    (hhorizon : 0 ≤ config.horizonDays) (hint : config.horizonDays < 2 ^ 31) :
    decodeSections p (configSections id config) =
      .ok { config with horizonDays := .finite config.horizonDays } := by
  have hprimary : IniText.only (configSections id config) "salt".toList "primary".toList =
      some (hexText id config.primarySalt.val) := rfl
  have hanchors : commaItems (iniFormat p) ((IniText.only (configSections id config)
      "trust".toList "anchors".toList).getD []) = config.anchors.map fun a => hexText id a.val :=
    commaItems_joinAnchors (readsConfig hp) config.anchors
  obtain ⟨hauthoritative, hnode, hproprietor⟩ := only_addresses config
  have hhorizonText : IniText.only (configSections id config) "policy".toList
      "deletion_horizon_days".toList = some (DecimalText.write config.horizonDays) :=
    congrArg some (List.map_id _)
  have htopic : IniText.only (configSections id config) "rfed".toList "topic".toList =
      some config.rfedTopic := rfl
  have hsalts : (config.legacySalts.zipIdx.map fun x => (x.2, hexText id x.1.val)).mapM
      (fun x => expectHex ("legacy" ++ toString x.1) 32 x.2) = .ok config.legacySalts :=
    mapM_zipIdx fun x _ => expectHex_hexText _ x.1
  have hread : (config.anchors.map fun a => hexText id a.val).zipIdx.mapM
      (fun x => expectHex s!"anchors[{x.2}]" 16 x.1) = .ok config.anchors := by
    rw [List.zipIdx_map]
    exact mapM_zipIdx fun x _ => expectHex_hexText _ x.1
  unfold decodeSections
  dsimp only
  rw [filterMap_range_two hlegacy (legacy_lookup hlegacy), hsalts, hanchors, hread,
    only_hashOption hauthoritative, only_hashOption hnode, only_hashOption hproprietor, hprimary,
    hhorizonText, htopic, Option.getD_some, expectHex_hexText, Option.getD_some,
    parseInt_write hhorizon hint]
  rfl

theorem isValue_rfedTopic (p : TextPlatform) : IsValue (iniFormat p) rfedTopic.toList :=
  ⟨by simp [rfedTopic, iniFormat], rfl⟩

theorem topic_of_decodeSections {p : TextPlatform} {sections : List (IniText.Section Char)}
    {config : StoreConfig Char JsNumber} (h : decodeSections p sections = .ok config) :
    config.rfedTopic =
      (IniText.only sections "rfed".toList "topic".toList).getD rfedTopic.toList := by
  unfold decodeSections at h
  dsimp only at h
  obtain ⟨_, _, h⟩ := ok_of_bind h
  obtain ⟨_, _, h⟩ := ok_of_bind h
  obtain ⟨_, _, h⟩ := ok_of_bind h
  obtain ⟨_, _, h⟩ := ok_of_bind h
  obtain ⟨_, _, h⟩ := ok_of_bind h
  obtain ⟨_, _, h⟩ := ok_of_bind h
  obtain rfl := Except.ok.inj h
  rfl

/-- A decoded topic has no line feed and no blanks at its ends, whatever the record. -/
theorem isValue_of_decode {p : TextPlatform} (hp : p.Lawful) {data : Bytes}
    {config : StoreConfig Char JsNumber} (h : decodeConfigIni p data = .ok config) :
    IsValue (iniFormat p) config.rfedTopic := by
  have hvalues : IniText.AllValues (IsValue (iniFormat p)) (parseIni p data) :=
    IniText.allValues_foldl_replace (fun _ _ hmem =>
      IniText.isValue_of_readLines (readsConfig hp).lawful hmem) nofun
  rw [topic_of_decodeSections h]
  cases hget : IniText.only (parseIni p data) "rfed".toList "topic".toList with
  | none => exact isValue_rfedTopic p
  | some topic => exact hvalues.only hget

end Javascript

/-! ## C++ -/

namespace Cpp

theorem isWordChar_plain : ∀ n < 123, isWordChar (Char.ofNat n) = true →
    isSpace (byte (Char.ofNat n)) = false ∧
      byte (Char.ofNat n) ∉ ['\n', '[', '#', ';', '=', ':'].map byte ∧
      toLower (byte (Char.ofNat n)) = byte (Char.ofNat n) := by
  decide +kernel

theorem plain_of_isWordChar {c : Char} (h : isWordChar c = true) :
    isSpace (byte c) = false ∧ byte c ∉ ['\n', '[', '#', ';', '=', ':'].map byte ∧
      toLower (byte c) = byte c := by
  exact of_isWordChar isWordChar_plain h

theorem digit_ne_comma : ∀ n < 16, byte n.digitChar ≠ byte ',' := by
  decide

theorem sectionName_word {w : Bytes} (hw : ∀ c ∈ w, isSpace c = false) :
    sectionName (byte '[' :: w ++ [byte ']']) = some w := by
  have hstrip : LineText.strip isSpace w = w :=
    LineText.strip_eq_self (fun c hc => hw c (List.mem_of_mem_head? hc))
      fun c hc => hw c (List.mem_of_getLast? hc)
  rw [sectionName, if_pos ⟨rfl, List.getLast?_concat ..⟩, List.cons_append, List.drop_succ_cons,
    List.drop_zero, List.dropLast_concat, hstrip]

theorem readsConfig : ReadsConfig iniFormat where
  lawful :=
    { lines := fun _ => rfl
      blank := rfl
      marks := by simp [iniFormat, isSpace, byte]
      header := fun c line hc => if_neg fun h => hc (Option.some.inj h.1)
      newline := by simp [iniFormat, byte]
      comment := by simp [iniFormat, byte]
      delimiter := by simp [iniFormat, byte] }
  word w hne hw := by
    have hplain : ∀ b ∈ w.map byte, isSpace b = false ∧
        b ∉ ['\n', '[', '#', ';', '=', ':'].map byte ∧ toLower b = b := fun b hb => by
      obtain ⟨c, hc, rfl⟩ := List.mem_map.mp hb
      exact plain_of_isWordChar (hw c hc)
    exact ⟨by simpa using hne, fun b hb => (hplain b hb).1, fun b hb => (hplain b hb).2.1,
      (List.map_congr_left fun b hb => (hplain b hb).2.2).trans (List.map_id _),
      sectionName_word fun b hb => (hplain b hb).1⟩
  digit n hn := by
    obtain ⟨-, -, hbreak, -, hspace⟩ := digit_plain n hn
    exact ⟨hspace, hbreak, digit_ne_comma n hn⟩
  comma := by decide

theorem parseIni_encode {config : StoreConfig UInt8 ℤ} (htopic : IsValue iniFormat config.rfedTopic)
    (hhorizon : 0 ≤ config.horizonDays) :
    parseIni (encodeConfigIni config) = configSections byte config := by
  have hlines := readLines_configText readsConfig htopic hhorizon
  rw [parseIni, encodeConfigIni, show configText byte config = configText iniFormat.char config
    from rfl, hlines, List.foldl_append, IniText.foldl_append_linesOf]
  rfl

theorem cleanHex_hexText (b : Bytes) : cleanHex (hexText byte b) = hexText byte b := by
  have hx : ∀ n < 16, byte n.digitChar ≠ byte 'x' ∧ byte n.digitChar ≠ byte 'X' := by decide
  cases b with
  | nil => rfl
  | cons y b =>
    have hlo := hx (y.toNat % 16) (Nat.mod_lt _ (by decide))
    exact if_neg fun h => h.2.elim hlo.1 hlo.2

theorem parseHex_hexText {n : ℕ} (what : String) (b : Blob n) :
    parseHex what n (hexText byte b.val) = .ok b := by
  have hstrip : LineText.strip isSpace (hexText byte b.val) = hexText byte b.val :=
    (isValue_hexText readsConfig b.val).strip
  have hlength : (hexText byte b.val).length = n * 2 := by
    rw [hexText, HexText.encode_length, b.property, Nat.mul_comm]
  have hdecode : HexText.decode hexNibble (hexText byte b.val) = some b.val :=
    HexText.decode_encode (fun n hn => (digit_plain n hn).1) b.val
  unfold parseHex
  dsimp only
  rw [hstrip, cleanHex_hexText, hlength, if_neg (by simp), hdecode]
  exact dif_pos b.property

theorem digit_toChar : ∀ k < 10, byte k.digitChar ≠ 0 ∧
    Char.ofNat (byte k.digitChar).toNat = k.digitChar := by
  decide

theorem parseHorizon_write {bits : ℕ} (hbits : 32 ≤ bits) {n : ℤ} (hn : 0 ≤ n)
    (hint : n < 2 ^ 31) : parseHorizon bits ((DecimalText.write n).map byte) = .ok n := by
  have hstrip : LineText.strip isSpace ((DecimalText.write n).map byte) =
      (DecimalText.write n).map byte := (isValue_write readsConfig hn).strip
  have hdigit : ∀ c ∈ DecimalText.write n, byte c ≠ 0 ∧ Char.ofNat (byte c).toNat = c := by
    intro c hc
    obtain ⟨k, hk, rfl⟩ := eq_digitChar_of_isDigit (DecimalText.isDigit_of_mem_write hn hc)
    exact digit_toChar k hk
  have htake : ((DecimalText.write n).map byte).takeWhile (· ≠ 0) =
      (DecimalText.write n).map byte := by
    rw [List.takeWhile_eq_self_iff, List.forall_mem_map]
    exact fun c hc => decide_eq_true (hdigit c hc).1
  have htext : ((DecimalText.write n).map byte).map (fun b => Char.ofNat b.toNat) =
      DecimalText.write n := by
    rw [List.map_map]
    exact (List.map_congr_left fun c hc => (hdigit c hc).2).trans (List.map_id _)
  have hmax : (2 : ℤ) ^ 31 ≤ 2 ^ (bits - 1) := pow_le_pow_right₀ (by decide) (by omega)
  have hpos : (0 : ℤ) ≤ 2 ^ (bits - 1) := by positivity
  have hwrap : n.bmod (2 ^ 32) = n := by
    rw [Int.bmod_def]
    split_ifs <;> omega
  unfold parseHorizon
  dsimp only
  rw [hstrip, htake, htext, DecimalText.readInt_write hn]
  dsimp only
  rw [if_pos ⟨by omega, by omega⟩, hwrap]

theorem legacy_lookup {config : StoreConfig UInt8 ℤ} (h : config.legacySalts.length ≤ 2) :
    ∀ i < 2, IniText.first (configSections byte config) (word byte "salt")
        (word byte ("legacy" ++ toString i)) =
      config.legacySalts[i]?.map fun salt => hexText byte salt.val := by
  obtain ⟨primary, legacy, anchors, authoritative, horizon, topic, node, proprietor⟩ := config
  intro i hi
  match legacy, h with
  | [], _ | [_], _ | [_, _], _ => interval_cases i <;> cases proprietor <;> rfl

theorem first_hashOption {doc : List (IniText.Section UInt8)} {name : String} (key : String)
    {h : Option Hash} (hget : IniText.first doc (word byte name) (word byte key) =
      h.map fun h => hexText byte h.val) :
    (IniText.first doc (word byte name) (word byte key)).mapM (parseHex key 16) = .ok h := by
  rw [hget]
  cases h with
  | none => rfl
  | some h =>
    rw [Option.map_some, Option.mapM_some, parseHex_hexText]
    rfl

theorem first_addresses (config : StoreConfig UInt8 ℤ) :
    IniText.first (configSections byte config) (word byte "trust") (word byte "authoritative") =
        (config.authoritative.map fun h => hexText byte h.val) ∧
      IniText.first (configSections byte config) (word byte "rfed") (word byte "node") =
        (config.rfedNode.map fun h => hexText byte h.val) ∧
      IniText.first (configSections byte config) (word byte "lxmf") (word byte "proprietor") =
        config.lxmfProprietor.map fun h => hexText byte h.val := by
  obtain ⟨primary, legacy, anchors, authoritative, horizon, topic, node, proprietor⟩ := config
  refine ⟨?_, ?_, ?_⟩
  · cases authoritative <;> cases proprietor <;> rfl
  · cases node <;> cases proprietor <;> rfl
  · cases proprietor <;> rfl

theorem decodeSections_configSections {bits : ℕ} (hbits : 32 ≤ bits) {config : StoreConfig UInt8 ℤ}
    (htopic : IsValue iniFormat config.rfedTopic) (hlegacy : config.legacySalts.length ≤ 2)
    (hhorizon : 0 ≤ config.horizonDays) (hint : config.horizonDays < 2 ^ 31) :
    decodeSections bits (configSections byte config) = .ok config := by
  have hprimary : IniText.first (configSections byte config) (word byte "salt")
      (word byte "primary") = some (hexText byte config.primarySalt.val) := rfl
  have hjoined : IniText.first (configSections byte config) (word byte "trust")
      (word byte "anchors") = some (joinAnchors byte config.anchors) := rfl
  obtain ⟨hauthoritative, hnode, hproprietor⟩ := first_addresses config
  have hhorizonText : IniText.first (configSections byte config) (word byte "policy")
      (word byte "deletion_horizon_days") =
        some ((DecimalText.write config.horizonDays).map byte) := rfl
  have htopicText : IniText.first (configSections byte config) (word byte "rfed")
      (word byte "topic") = some config.rfedTopic := rfl
  have hsalts : (config.legacySalts.zipIdx.map fun x => (x.2, hexText byte x.1.val)).mapM
      (fun x => parseHex ("legacy" ++ toString x.1) 32 x.2) = .ok config.legacySalts :=
    mapM_zipIdx fun x _ => parseHex_hexText _ x.1
  have hstrip : LineText.strip isSpace (joinAnchors byte config.anchors) =
      joinAnchors byte config.anchors := (isValue_joinAnchors readsConfig config.anchors).strip
  have hanchors : (commaItems iniFormat (joinAnchors byte config.anchors)).mapM
      (parseHex "anchors" 16) = .ok config.anchors := by
    rw [show joinAnchors byte config.anchors = joinAnchors iniFormat.char config.anchors from rfl,
      commaItems_joinAnchors readsConfig, List.mapM_map]
    exact (mapM_ok fun a _ => parseHex_hexText "anchors" a).trans (by rw [List.map_id'])
  have htopicStrip : LineText.strip isSpace config.rfedTopic = config.rfedTopic := htopic.strip
  unfold decodeSections
  dsimp only
  rw [filterMap_range_two hlegacy (legacy_lookup hlegacy), hsalts, hjoined, Option.getD_some,
    hstrip, hanchors, first_hashOption "authoritative" hauthoritative,
    first_hashOption "node" hnode, first_hashOption "proprietor" hproprietor, hprimary,
    Option.elim_some, parseHex_hexText, hhorizonText, Option.elim_some,
    parseHorizon_write hbits hhorizon hint, htopicText, Option.map_some, Option.getD_some,
    htopicStrip]
  rfl

theorem topic_of_decodeSections {bits : ℕ} {sections : List (IniText.Section UInt8)}
    {config : StoreConfig UInt8 ℤ} (h : decodeSections bits sections = .ok config) :
    config.rfedTopic = ((IniText.first sections (word byte "rfed") (word byte "topic")).map
      (LineText.strip isSpace)).getD (word byte rfedTopic) := by
  unfold decodeSections at h
  dsimp only at h
  obtain ⟨_, _, h⟩ := ok_of_bind h
  obtain ⟨_, _, h⟩ := ok_of_bind h
  obtain ⟨_, _, h⟩ := ok_of_bind h
  obtain ⟨_, _, h⟩ := ok_of_bind h
  obtain ⟨_, _, h⟩ := ok_of_bind h
  obtain ⟨_, _, h⟩ := ok_of_bind h
  obtain ⟨_, _, h⟩ := ok_of_bind h
  obtain rfl := Except.ok.inj h
  rfl

theorem isValue_rfedTopic : IsValue iniFormat (word byte rfedTopic) :=
  ⟨by decide, rfl⟩

theorem isValue_of_decode {bits : ℕ} {data : Bytes} {config : StoreConfig UInt8 ℤ}
    (h : decodeConfigIni bits data = .ok config) : IsValue iniFormat config.rfedTopic := by
  have hvalues : IniText.AllValues (IsValue iniFormat) (parseIni data) :=
    IniText.allValues_foldl_append (fun _ _ hmem =>
      IniText.isValue_of_readLines readsConfig.lawful hmem) nofun
  rw [topic_of_decodeSections h]
  cases hget : IniText.first (parseIni data) (word byte "rfed") (word byte "topic") with
  | none => exact isValue_rfedTopic
  | some topic =>
    have hvalue := hvalues.first hget
    rw [Option.map_some, Option.getD_some, show LineText.strip isSpace topic = topic from
      hvalue.strip]
    exact hvalue

end Cpp

end Dacar.Cli

import Dacar.Cli.ConfigRoundTrip

/-!
# One configuration record for both ports

The ports write the same bytes.  Each gives a configuration back exactly when the topic is a text
of one line with nothing to strip.
-/

namespace Dacar.Cli

open IniText (Format IsValue IsWord IsSection)

/-! ## The same text -/

section Units

variable {β : Type} {char : Char → β} {units : Char → List β}
  (hunits : ∀ c : Char, c.toNat < 128 → units c = [char c])

def encodeOption (units : Char → List β) (o : List Char × List Char) : List β × List β :=
  (o.1.flatMap units, o.2.flatMap units)

def encodeSection (units : Char → List β) (s : IniText.Section Char) : IniText.Section β :=
  (s.1.flatMap units, s.2.map (encodeOption units))

include hunits

theorem encode_ascii {l : List Char} (h : ∀ c ∈ l, c.toNat < 128) :
    l.flatMap units = l.map char := by
  induction l with
  | nil => rfl
  | cons c l ih =>
    rw [List.forall_mem_cons] at h
    rw [List.flatMap_cons, hunits c h.1, ih h.2, List.singleton_append, List.map_cons]

theorem encode_hexText (b : Bytes) : (hexText id b).flatMap units = hexText char b := by
  have hascii : ∀ n < 16, (Nat.digitChar n).toNat < 128 := by decide
  rw [encode_ascii hunits fun c hc => by
    obtain ⟨n, hn, rfl⟩ := HexText.exists_of_mem_encode hc
    exact hascii n hn]
  exact List.map_flatMap

theorem encode_write (doc : List (IniText.Section Char)) :
    (IniText.write id doc).flatMap units = IniText.write char (doc.map (encodeSection units)) := by
  have hequals : [id ' ', id '=', id ' '].flatMap units = [char ' ', char '=', char ' '] :=
    encode_ascii hunits (l := [' ', '=', ' ']) (by simp)
  have hclose : [id ']', id '\n'].flatMap units = [char ']', char '\n'] :=
    encode_ascii hunits (l := [']', '\n']) (by simp)
  have hend : [id '\n'].flatMap units = [char '\n'] :=
    encode_ascii hunits (l := ['\n']) (by simp)
  have hoption : ∀ o, (IniText.writeOption id o).flatMap units =
      IniText.writeOption char (encodeOption units o) := fun o => by
    rw [IniText.writeOption, List.flatMap_append, List.flatMap_append, List.flatMap_append,
      hequals, hend]
    rfl
  have hsection : ∀ s, (IniText.writeSection id s).flatMap units =
      IniText.writeSection char (encodeSection units s) := fun s => by
    rw [IniText.writeSection, List.flatMap_append, List.flatMap_append, List.flatMap_append,
      List.flatMap_cons, List.flatMap_assoc, funext hoption, hclose, hend,
      hunits (id '[') (by decide), IniText.writeSection, encodeSection, List.flatMap_map]
    rfl
  rw [IniText.write, List.flatMap_assoc, funext hsection, IniText.write, List.flatMap_map]

theorem encode_word : ∀ s ∈ configWords, (word id s).flatMap units = word char s := by
  intro s hs
  rw [word, List.map_id, encode_ascii hunits fun c hc => ?_, word]
  exact (toNat_lt_of_isWordChar ((isWordChar_of_mem_configWords s hs).2 c hc)).trans (by decide)

theorem encode_joinAnchors (anchors : List Hash) :
    (joinAnchors id anchors).flatMap units = joinAnchors char anchors := by
  cases anchors with
  | nil => rfl
  | cons a anchors =>
    have hcomma : (word id ", ").flatMap units = word char ", " :=
      encode_ascii hunits (l := ", ".toList) (by simp)
    have hitem : ∀ b : Hash, (word id ", " ++ hexText id b.val).flatMap units =
        word char ", " ++ hexText char b.val := fun b => by
      rw [List.flatMap_append, encode_hexText hunits, hcomma]
    rw [joinAnchors, List.flatMap_append, encode_hexText hunits, List.flatMap_assoc, funext hitem]
    rfl

theorem encode_decimal (n : ℤ) :
    ((DecimalText.write n).map id).flatMap units = (DecimalText.write n).map char := by
  have hascii : ∀ k < 10, (Nat.digitChar k).toNat < 128 := by decide
  have hdigit : ∀ c ∈ Nat.toDigits 10 n.natAbs, c.toNat < 128 := fun c hc => by
    obtain ⟨k, hk, rfl⟩ := eq_digitChar_of_isDigit (DecimalText.isDigit_of_mem_toDigits hc)
    exact hascii k hk
  rw [List.map_id, encode_ascii hunits]
  rw [DecimalText.write]
  split_ifs
  · rw [List.forall_mem_cons]
    exact ⟨by decide, hdigit⟩
  · exact hdigit

theorem encode_hashOption {key : String} (hkey : key ∈ configWords) (h : Option Hash) :
    (hashOption id key h).map (encodeOption units) = hashOption char key h := by
  cases h with
  | none => rfl
  | some h =>
    rw [hashOption, List.map_singleton, encodeOption, encode_word hunits key hkey,
      encode_hexText hunits, hashOption]

/-- There are but two places, so that the key is one of the words. -/
theorem encode_legacySalt {salts : List Salt} {x : Salt × ℕ}
    (hx : x ∈ (salts.take maxLegacySalts).zipIdx) :
    encodeOption units (word id ("legacy" ++ toString x.2), hexText id x.1.val) =
      (word char ("legacy" ++ toString x.2), hexText char x.1.val) := by
  have hi : x.2 < 2 := by
    have hlt := List.snd_lt_of_mem_zipIdx hx
    simp [maxLegacySalts] at hlt
    omega
  have hkey : "legacy" ++ toString x.2 ∈ configWords := by
    generalize x.2 = i at hi
    interval_cases i <;> decide
  rw [encodeOption, encode_word hunits _ hkey, encode_hexText hunits]

theorem encode_configSections (config : StoreConfig Char ℤ) :
    (configSections id config).map (encodeSection units) =
      configSections char { config with rfedTopic := config.rfedTopic.flatMap units } := by
  have hword : ∀ s ∈ configWords, (word id s).flatMap units = word char s := encode_word hunits
  have hsalts := List.map_congr_left fun x (hx : x ∈ (config.legacySalts.take _).zipIdx) =>
    encode_legacySalt hunits hx
  have hsalt : encodeSection units (word id "salt",
      (word id "primary", hexText id config.primarySalt.val)
      :: (config.legacySalts.take maxLegacySalts).zipIdx.map fun x =>
        (word id ("legacy" ++ toString x.2), hexText id x.1.val)) =
      (word char "salt", (word char "primary", hexText char config.primarySalt.val)
      :: (config.legacySalts.take maxLegacySalts).zipIdx.map fun x =>
        (word char ("legacy" ++ toString x.2), hexText char x.1.val)) := by
    rw [encodeSection, List.map_cons, List.map_map, encodeOption, hword "salt" (by decide),
      hword "primary" (by decide), encode_hexText hunits]
    exact congrArg (fun options => (word char "salt",
      (word char "primary", hexText char config.primarySalt.val) :: options)) hsalts
  have htrust : encodeSection units (word id "trust",
      (word id "anchors", joinAnchors id config.anchors)
      :: hashOption id "authoritative" config.authoritative) =
      (word char "trust", (word char "anchors", joinAnchors char config.anchors)
      :: hashOption char "authoritative" config.authoritative) := by
    rw [encodeSection, List.map_cons, encodeOption, encode_hashOption hunits (by decide),
      hword "trust" (by decide), hword "anchors" (by decide), encode_joinAnchors hunits]
  have hpolicy : encodeSection units (word id "policy", [(word id "deletion_horizon_days",
      (DecimalText.write config.horizonDays).map id)]) =
      (word char "policy", [(word char "deletion_horizon_days",
      (DecimalText.write config.horizonDays).map char)]) := by
    rw [encodeSection, List.map_cons, List.map_nil, encodeOption, hword "policy" (by decide),
      hword "deletion_horizon_days" (by decide), encode_decimal hunits]
  have hrfed : encodeSection units (word id "rfed", (word id "topic", config.rfedTopic)
      :: hashOption id "node" config.rfedNode) =
      (word char "rfed", (word char "topic", config.rfedTopic.flatMap units)
      :: hashOption char "node" config.rfedNode) := by
    rw [encodeSection, List.map_cons, encodeOption, encode_hashOption hunits (by decide),
      hword "rfed" (by decide), hword "topic" (by decide)]
  have hlxmf : (lxmfSections id config.lxmfProprietor).map (encodeSection units) =
      lxmfSections char config.lxmfProprietor := by
    cases config.lxmfProprietor with
    | none => rfl
    | some h =>
      rw [lxmfSections, List.map_cons, List.map_nil, encodeSection,
        encode_hashOption hunits (by decide), hword "lxmf" (by decide), lxmfSections]
  rw [configSections, List.map_append, List.map_cons, List.map_cons, List.map_cons, List.map_cons,
    List.map_nil, hsalt, htrust, hpolicy, hrfed, hlxmf]
  rfl

/-- The record is the same text in any units in which ASCII is one unit a character. -/
theorem encode_configText (config : StoreConfig Char ℤ) :
    (configText id config).flatMap units =
      configText char { config with rfedTopic := config.rfedTopic.flatMap units } := by
  rw [configText, encode_write hunits, encode_configSections hunits, configText]

end Units

namespace StoreConfig

/-- The configuration with its topic in UTF-8. -/
def utf8 (config : StoreConfig Char ℤ) : StoreConfig UInt8 ℤ :=
  { config with rfedTopic := Utf8.encode config.rfedTopic }

/-- The configuration with its topic as a string of code units. -/
def utf16 (config : StoreConfig Char ℤ) : StoreConfig UInt16 ℤ :=
  { config with rfedTopic := Utf16.encode config.rfedTopic }

/-- The horizon as the number it is in JavaScript. -/
def number (config : StoreConfig Char ℤ) : StoreConfig Char JsNumber :=
  { config with horizonDays := .finite config.horizonDays }

/-- Two legacy salts at most, and a positive `int` of days. -/
def Fits {α : Type} (config : StoreConfig α ℤ) : Prop :=
  config.legacySalts.length ≤ 2 ∧ 0 < config.horizonDays ∧ config.horizonDays < 2 ^ 31

end StoreConfig

theorem encodeConfigIni_utf8 (config : StoreConfig Char ℤ) :
    Cpp.encodeConfigIni config.utf8 = Javascript.encodeConfigIni config :=
  (encode_configText (fun _ h => Utf8.utf8EncodeChar_of_ascii h) config).symm

theorem encodeConfigUnits_utf16 (config : StoreConfig Char ℤ) :
    Javascript.encodeConfigUnits config.utf16 = Javascript.encodeConfigIni config := by
  have htext : configText Javascript.unit config.utf16 = Utf16.encode (configText id config) :=
    (encode_configText (fun _ h => Utf16.encodeChar_of_ascii h) config).symm
  rw [Javascript.encodeConfigUnits, Javascript.textEncoder, htext, Utf16.decode_encode,
    Javascript.encodeConfigIni]

/-! ## Saving and loading -/

theorem Javascript.decode_encode_iff {p : Javascript.TextPlatform} (hp : p.Lawful)
    {config : StoreConfig Char ℤ} (h : config.Fits) :
    Javascript.decodeConfigIni p (Javascript.encodeConfigIni config) = .ok config.number ↔
      '\n' ∉ config.rfedTopic ∧
        LineText.strip isStrWhiteSpace config.rfedTopic = config.rfedTopic := by
  constructor
  · intro hdecode
    have hvalue := Javascript.isValue_of_decode hp hdecode
    exact ⟨hvalue.newline, hvalue.strip⟩
  · intro ⟨hnewline, hstrip⟩
    rw [Javascript.decodeConfigIni,
      Javascript.parseIni_encode hp ⟨hnewline, hstrip⟩ (le_of_lt h.2.1),
      Javascript.decodeSections_configSections p hp h.1 (le_of_lt h.2.1) h.2.2]
    rfl

theorem Cpp.decode_encode_iff {bits : ℕ} (hbits : 32 ≤ bits) {config : StoreConfig UInt8 ℤ}
    (h : config.Fits) :
    Cpp.decodeConfigIni bits (Cpp.encodeConfigIni config) = .ok config ↔
      Cpp.byte '\n' ∉ config.rfedTopic ∧
        LineText.strip Cpp.isSpace config.rfedTopic = config.rfedTopic := by
  constructor
  · intro hdecode
    have hvalue := Cpp.isValue_of_decode hdecode
    exact ⟨hvalue.newline, hvalue.strip⟩
  · intro ⟨hnewline, hstrip⟩
    rw [Cpp.decodeConfigIni, Cpp.parseIni_encode ⟨hnewline, hstrip⟩ (le_of_lt h.2.1),
      Cpp.decodeSections_configSections hbits ⟨hnewline, hstrip⟩ h.1 (le_of_lt h.2.1) h.2.2]

/-- A configuration comes back, in a port and across the two, exactly when its topic is a text of
one line with nothing at its ends that the reading port strips; C++ by itself also gives back
bytes that are no text. -/
theorem config_comes_back (p : Javascript.TextPlatform) (hp : p.Lawful) (bits : ℕ)
    (hbits : 32 ≤ bits) (script : StoreConfig UInt16 ℤ) (hscript : script.Fits)
    (native : StoreConfig UInt8 ℤ) (hnative : native.Fits) :
    ((∃ config : StoreConfig Char ℤ, config.utf16 = script ∧
        Javascript.decodeConfigIni p (Javascript.encodeConfigUnits script) = .ok config.number) ↔
      ∃ topic, Utf16.encode topic = script.rfedTopic ∧ '\n' ∉ topic ∧
        LineText.strip isStrWhiteSpace topic = topic) ∧
    (Cpp.decodeConfigIni bits (Cpp.encodeConfigIni native) = .ok native ↔
      Cpp.byte '\n' ∉ native.rfedTopic ∧
        LineText.strip Cpp.isSpace native.rfedTopic = native.rfedTopic) ∧
    ((∃ config : StoreConfig Char ℤ, config.utf8 = native ∧
        Javascript.decodeConfigIni p (Cpp.encodeConfigIni native) = .ok config.number) ↔
      ∃ topic, Utf8.encode topic = native.rfedTopic ∧ '\n' ∉ topic ∧
        LineText.strip isStrWhiteSpace topic = topic) ∧
    ((∃ config : StoreConfig Char ℤ, config.utf16 = script ∧
        Cpp.decodeConfigIni bits (Javascript.encodeConfigUnits script) = .ok config.utf8) ↔
      ∃ topic, Utf16.encode topic = script.rfedTopic ∧ Cpp.byte '\n' ∉ Utf8.encode topic ∧
        LineText.strip Cpp.isSpace (Utf8.encode topic) = Utf8.encode topic) := by
  have hutf16 : ∀ topic, Utf16.encode topic = script.rfedTopic →
      ∃ config : StoreConfig Char ℤ, config.utf16 = script ∧ config.rfedTopic = topic :=
    fun topic h => ⟨{ script with rfedTopic := topic }, by rw [StoreConfig.utf16, h], rfl⟩
  have hutf8 : ∀ topic, Utf8.encode topic = native.rfedTopic →
      ∃ config : StoreConfig Char ℤ, config.utf8 = native ∧ config.rfedTopic = topic :=
    fun topic h => ⟨{ native with rfedTopic := topic }, by rw [StoreConfig.utf8, h], rfl⟩
  refine ⟨⟨?_, ?_⟩, Cpp.decode_encode_iff hbits hnative, ⟨?_, ?_⟩, ?_, ?_⟩
  · rintro ⟨config, rfl, hback⟩
    rw [encodeConfigUnits_utf16] at hback
    exact ⟨config.rfedTopic, rfl, (Javascript.decode_encode_iff hp hscript).mp hback⟩
  · rintro ⟨topic, htopic, hline⟩
    obtain ⟨config, rfl, rfl⟩ := hutf16 topic htopic
    refine ⟨config, rfl, ?_⟩
    rw [encodeConfigUnits_utf16]
    exact (Javascript.decode_encode_iff hp hscript).mpr hline
  · rintro ⟨config, rfl, hback⟩
    rw [encodeConfigIni_utf8] at hback
    exact ⟨config.rfedTopic, rfl, (Javascript.decode_encode_iff hp hnative).mp hback⟩
  · rintro ⟨topic, htopic, hline⟩
    obtain ⟨config, rfl, rfl⟩ := hutf8 topic htopic
    refine ⟨config, rfl, ?_⟩
    rw [encodeConfigIni_utf8]
    exact (Javascript.decode_encode_iff hp hnative).mpr hline
  · rintro ⟨config, rfl, hback⟩
    have hfits : config.utf8.Fits := hscript
    rw [encodeConfigUnits_utf16, ← encodeConfigIni_utf8] at hback
    exact ⟨config.rfedTopic, rfl, (Cpp.decode_encode_iff hbits hfits).mp hback⟩
  · rintro ⟨topic, htopic, hline⟩
    obtain ⟨config, rfl, rfl⟩ := hutf16 topic htopic
    have hfits : config.utf8.Fits := hscript
    refine ⟨config, rfl, ?_⟩
    rw [encodeConfigUnits_utf16, ← encodeConfigIni_utf8]
    exact (Cpp.decode_encode_iff hbits hfits).mpr hline

/-- A platform with the decoder and the lower case that the law is about. -/
def utf8Platform : Javascript.TextPlatform where
  textDecoder data := ((String.fromUTF8? data.toByteArray).map String.toList).getD []
  toLowerCase text := text.map Char.toLower

theorem utf8Platform_lawful : utf8Platform.Lawful where
  textDecoder text _ := by
    have hvalid : (Utf8.encode text).toByteArray.IsValidUTF8 := ⟨text, rfl⟩
    have hdecode : String.fromUTF8? (Utf8.encode text).toByteArray = some (String.ofList text) :=
      dif_pos hvalid
    rw [utf8Platform]
    dsimp only
    rw [hdecode, Option.map_some, Option.getD_some, String.toList_ofList]
  toLowerCase _ _ := rfl

/-- Every field is there; the topic has a delimiter, a comment sign and a letter beyond ASCII. -/
def fullConfig : StoreConfig Char ℤ where
  primarySalt := Blob.fill 32 1
  legacySalts := [Blob.fill 32 2, Blob.fill 32 3]
  anchors := [Blob.fill 16 0x11, Blob.fill 16 0x22]
  authoritative := some (Blob.fill 16 4)
  horizonDays := 90
  rfedTopic := ['m', 'e', 's', 'h', ' ', '=', ' ', '#', 'é']
  rfedNode := some (Blob.fill 16 5)
  lxmfProprietor := some (Blob.fill 16 6)

theorem fullConfig_fits : fullConfig.Fits :=
  ⟨Nat.le_refl 2, by decide, by decide⟩

theorem config_comes_back_full :
    (∃ config : StoreConfig Char ℤ, config.utf16 = fullConfig.utf16 ∧
        Javascript.decodeConfigIni utf8Platform (Javascript.encodeConfigUnits fullConfig.utf16) =
          .ok config.number) ∧
      Cpp.decodeConfigIni 64 (Cpp.encodeConfigIni fullConfig.utf8) = .ok fullConfig.utf8 ∧
      (∃ config : StoreConfig Char ℤ, config.utf8 = fullConfig.utf8 ∧
        Javascript.decodeConfigIni utf8Platform (Cpp.encodeConfigIni fullConfig.utf8) =
          .ok config.number) ∧
      ∃ config : StoreConfig Char ℤ, config.utf16 = fullConfig.utf16 ∧
        Cpp.decodeConfigIni 64 (Javascript.encodeConfigUnits fullConfig.utf16) =
          .ok config.utf8 :=
  have hports := config_comes_back utf8Platform utf8Platform_lawful 64 (by decide)
    fullConfig.utf16 fullConfig_fits fullConfig.utf8 fullConfig_fits
  ⟨hports.1.mpr ⟨fullConfig.rfedTopic, rfl, by decide +kernel⟩, hports.2.1.mpr (by decide +kernel),
    hports.2.2.1.mpr ⟨fullConfig.rfedTopic, rfl, by decide +kernel⟩,
    hports.2.2.2.mpr ⟨fullConfig.rfedTopic, rfl, by decide +kernel⟩⟩

/-! ## A topic of several lines -/

/-- Every configuration comes back, in a port and across the two. -/
def ConfigsComeBack : Prop :=
  ∀ (p : Javascript.TextPlatform) (bits : ℕ) (config : StoreConfig Char ℤ),
    p.Lawful → 32 ≤ bits → config.Fits →
    Javascript.decodeConfigIni p (Javascript.encodeConfigIni config) = .ok config.number ∧
    Cpp.decodeConfigIni bits (Cpp.encodeConfigIni config.utf8) = .ok config.utf8 ∧
    Javascript.decodeConfigIni p (Cpp.encodeConfigIni config.utf8) = .ok config.number ∧
    Cpp.decodeConfigIni bits (Javascript.encodeConfigIni config) = .ok config.utf8

/-- The topic goes on with a section of anchors and one of salts. -/
def severalLines : StoreConfig Char ℤ where
  primarySalt := Blob.fill 32 1
  legacySalts := []
  anchors := [Blob.fill 16 0x11]
  authoritative := none
  horizonDays := 180
  rfedTopic := "x\n[trust]\nanchors=".toList ++ List.replicate 32 '2' ++
    "\n[salt]\nlegacy0=".toList ++ List.replicate 64 '3'
  rfedNode := none
  lxmfProprietor := none

/-- The anchors are other ones in JavaScript, and in C++ there is a legacy salt more. -/
theorem topic_changes_trust :
    ¬ConfigsComeBack ∧
      (Javascript.decodeConfigIni utf8Platform
        (Javascript.encodeConfigIni severalLines)).toOption.map StoreConfig.anchors =
          some [Blob.fill 16 0x22] ∧
      (Cpp.decodeConfigIni 64 (Cpp.encodeConfigIni severalLines.utf8)).toOption.map
        StoreConfig.legacySalts = some [Blob.fill 32 0x33] := by
  have htext : utf8Platform.textDecoder (Javascript.encodeConfigIni severalLines) =
      configText id severalLines :=
    utf8Platform_lawful.textDecoder _ (by decide)
  refine ⟨fun hclaim => ?_, ?_, by decide +kernel⟩
  · have hback := (hclaim utf8Platform 64 severalLines utf8Platform_lawful (by decide)
      ⟨by decide, by decide, by decide⟩).1
    exact absurd (Javascript.isValue_of_decode utf8Platform_lawful hback).newline (by decide)
  · rw [Javascript.decodeConfigIni, Javascript.parseIni, htext]
    decide +kernel

end Dacar.Cli

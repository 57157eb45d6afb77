import Dacar.Chunking
import Dacar.Cli.Config
import Dacar.Cli.Aliases
import Dacar.Utf8

/-!
# Payload files

A payload is read from a file as it is, or as hex digits.  Which of the two it is the
commands see from the bytes.
-/

namespace Dacar.Cli

/-! ## What is exported -/

/-- `Operation.to_payload`, past the check that it is signed. -/
def Python.toValue (op : Operation) : WireValue :=
  .array [.bin op.tuple.issuer.val, .bin op.tuple.grantee.val, .int op.action.byte.toNat false,
    .int op.hlc (decide (op.hlc ≥ 2 ^ 32)), .bin op.tuple.relationHash.val,
    .array (op.tuple.objectHashes.map fun h => .bin h.val), .bool op.tuple.wildcard,
    .array (op.signatures.map fun s => .bin s.val)]

/-- A signed Operation or a batch of payloads, as either port packs it. -/
inductive Exported (L : MsgPackLibraries) : Bytes → Prop
  | javascript {op : Operation} {data : Bytes} (h : op.toPayload L.encode = .ok data) :
    Exported L data
  | javascriptBatch {payloads : List Bytes} {data : Bytes} (hne : payloads ≠ [])
    (h : encodeBatch (fun v => .ok (L.encode v)) payloads = .ok data) : Exported L data
  | python {op : Operation} (h : op.signatures ≠ []) : Exported L (L.packb (Python.toValue op))
  | pythonBatch {payloads : List Bytes} {data : Bytes} (hne : payloads ≠ [])
    (h : Python.encodeBatch (fun v => .ok (L.packb v)) payloads = .ok data) : Exported L data

/-- The first byte of an array: `fixarray`, `array 16` or `array 32`. -/
def IsArrayTag (tag : UInt8) : Prop := 0x90 ≤ tag ∧ tag ≤ 0x9f ∨ tag = 0xdc ∨ tag = 0xdd

instance (tag : UInt8) : Decidable (IsArrayTag tag) := inferInstanceAs (Decidable (_ ∨ _))

/-- Arrays are packed as the format has it. -/
structure TagsArrays (L : MsgPackLibraries) : Prop where
  encode : ∀ vs, ∃ tag rest, L.encode (.array vs) = tag :: rest ∧ IsArrayTag tag
  packb : ∀ vs, ∃ tag rest, L.packb (.array vs) = tag :: rest ∧ IsArrayTag tag

/-! ## Reading -/

/-- How a port looks at the bytes of a file. -/
structure InputFormat where
  /-- Whether the byte may stand in a text. -/
  decodes : UInt8 → Bool
  char : UInt8 → Char
  strips : Char → Bool
  /-- The bytes that hex digits spell; `none` where it throws. -/
  ofHex : List Char → Option Bytes

/-- An even number of hex digits with white space around is decoded, anything else stays. -/
def InputFormat.read (f : InputFormat) (data : Bytes) (forceBinary : Bool) : Option Bytes :=
  if forceBinary then some data
  else if !data.all f.decodes then some data
  else
    let text := LineText.strip f.strips (data.map f.char)
    if !text.isEmpty && text.length % 2 = 0 && text.all fun c => (digit c).isSome then f.ofHex text
    else some data

/-- `Buffer.toString("ascii")` looks at the low seven bits of every byte. -/
def Javascript.inputFormat : InputFormat where
  decodes _ := true
  char b := Char.ofNat (b.toNat % 128)
  strips := isStrWhiteSpace
  ofHex text := (hexToBytes text).toOption

/-- Of an empty file the text is empty, so that its bytes stay. -/
def Javascript.coercePayload : Bytes → Bool → Option Bytes := inputFormat.read

/-- `data.decode("ascii")` raises on a byte above 127. -/
def Python.inputFormat : InputFormat where
  decodes b := b < 0x80
  char b := Char.ofNat b.toNat
  strips := isSpace
  ofHex := HexText.decode digit

/-- `_read_payload_input` of the bytes of the file. -/
def Python.readPayloadInput : Bytes → Bool → Option Bytes := inputFormat.read

/-- A digit as `toHex` and `bytes.hex` write it, or in upper case. -/
def hexDigit (upper : Bool) (n : ℕ) : Char :=
  if upper then n.digitChar.toUpper else n.digitChar

def hexFile (upper : Bool) (data : Bytes) : Bytes :=
  HexText.encode (fun n => UInt8.ofNat (hexDigit upper n).toNat) data

/-! ## What is read -/

theorem digit_hexDigit (upper : Bool) : ∀ n < 16, digit (hexDigit upper n) = some n := by
  cases upper <;> decide

theorem forall_byte {P : UInt8 → Prop} (h : ∀ n < 256, P (UInt8.ofNat n)) (b : UInt8) : P b := by
  have hb := h b.toNat b.toNat_lt
  rwa [UInt8.ofNat_toNat] at hb

namespace InputFormat

/-- The byte is white space of a text. -/
def blank (f : InputFormat) (b : UInt8) : Bool := f.decodes b && f.strips (f.char b)

structure Lawful (f : InputFormat) : Prop where
  digit : ∀ upper : Bool, ∀ n < 16,
    f.decodes (UInt8.ofNat (hexDigit upper n).toNat) = true ∧
      f.char (UInt8.ofNat (hexDigit upper n).toNat) = hexDigit upper n ∧
      f.strips (hexDigit upper n) = false
  tag : ∀ b, IsArrayTag b → f.decodes b = true →
    f.strips (f.char b) = false ∧ Dacar.digit (f.char b) = none
  ofHex : ∀ text : List Char, (∀ c ∈ text, (Dacar.digit c).isSome) →
    f.ofHex text = HexText.decode Dacar.digit text

variable {f : InputFormat}

/-- A file that starts as an array does is no hex text. -/
theorem Lawful.read_array (hf : f.Lawful) {tag : UInt8} (htag : IsArrayTag tag) (rest : Bytes) :
    f.read (tag :: rest) false = some (tag :: rest) := by
  rw [InputFormat.read, if_neg (by simp)]
  split_ifs with hraw
  · rfl
  · have hall : (tag :: rest).all f.decodes = true := by simpa using hraw
    have hdecodes : f.decodes tag = true := List.all_eq_true.mp hall tag List.mem_cons_self
    obtain ⟨hstays, hdigit⟩ := hf.tag tag htag hdecodes
    have hmem : f.char tag ∈ LineText.strip f.strips ((tag :: rest).map f.char) :=
      LineText.mem_strip hstays (List.mem_map_of_mem List.mem_cons_self)
    dsimp only
    rw [if_neg]
    intro htext
    have hhex := List.all_eq_true.mp (Bool.and_eq_true_iff.mp htext).2 _ hmem
    rw [hdigit] at hhex
    exact Bool.false_ne_true hhex

section HexFiles

variable (hf : f.Lawful) (upper : Bool) (data : Bytes)
include hf

theorem Lawful.decodes_hexFile : ∀ b ∈ hexFile upper data, f.decodes b = true := by
  intro b hb
  obtain ⟨n, hn, rfl⟩ := HexText.exists_of_mem_encode hb
  exact (hf.digit upper n hn).1

theorem Lawful.map_hexFile :
    (hexFile upper data).map f.char = HexText.encode (hexDigit upper) data := by
  rw [hexFile, HexText.map_encode]
  exact HexText.encode_congr (fun n hn => (hf.digit upper n hn).2.1) data

theorem Lawful.strips_hexText :
    ∀ c ∈ HexText.encode (hexDigit upper) data, f.strips c = false := by
  intro c hc
  obtain ⟨n, hn, rfl⟩ := HexText.exists_of_mem_encode hc
  exact (hf.digit upper n hn).2.2

/-- With more text in front or behind, digits do not spell these bytes. -/
theorem Lawful.ofHex_around (hne : data ≠ []) {raw : Bytes} (hraw : raw ≠ data)
    {front back text : List Char}
    (htext : text = front ++ (HexText.encode (hexDigit upper) data ++ back)) :
    (if !text.isEmpty && text.length % 2 = 0 && text.all fun c => (Dacar.digit c).isSome then
      f.ofHex text
    else some raw) = some data ↔ front = [] ∧ back = [] := by
  have hdigits : (HexText.encode (hexDigit upper) data).length = 2 * data.length :=
    HexText.encode_length data
  have hpos := List.length_pos_of_ne_nil hne
  constructor
  · intro h
    split_ifs at h with hhex
    · rw [hf.ofHex _ (List.all_eq_true.mp (Bool.and_eq_true_iff.mp hhex).2)] at h
      have htwice := HexText.decode_length h
      rw [htext, List.length_append, List.length_append, hdigits] at htwice
      exact ⟨List.eq_nil_of_length_eq_zero (by omega), List.eq_nil_of_length_eq_zero (by omega)⟩
    · exact absurd (Option.some.inj h) hraw
  · rintro ⟨rfl, rfl⟩
    rw [List.nil_append, List.append_nil] at htext
    subst htext
    have hhex : ∀ c ∈ HexText.encode (hexDigit upper) data, (Dacar.digit c).isSome := by
      intro c hc
      obtain ⟨n, hn, rfl⟩ := HexText.exists_of_mem_encode hc
      rw [digit_hexDigit upper n hn]
      rfl
    have hsome : HexText.encode (hexDigit upper) data ≠ [] :=
      List.ne_nil_of_length_pos (by omega)
    rw [if_pos, hf.ofHex _ hhex]
    · exact HexText.decode_encode (digit_hexDigit upper) data
    · simp [hsome, hdigits, List.all_eq_true.mpr hhex]

/-- Hex text is read as the bytes it spells when nothing but white space is around it, and
else it is not. -/
theorem Lawful.read_hexFile (hne : data ≠ []) (pre post : Bytes) :
    f.read (pre ++ (hexFile upper data ++ post)) false = some data ↔
      ∀ b ∈ pre ++ post, f.blank b = true := by
  have hpos := List.length_pos_of_ne_nil hne
  have hraw : pre ++ (hexFile upper data ++ post) ≠ data := fun h => by
    have hsame := congrArg List.length h
    rw [List.length_append, List.length_append, hexFile, HexText.encode_length] at hsame
    omega
  rw [InputFormat.read, if_neg (by simp)]
  by_cases hall : (pre ++ (hexFile upper data ++ post)).all f.decodes = true
  · have hdecodes : ∀ b ∈ pre ++ post, f.decodes b = true := fun b hb => by
      rw [List.all_eq_true] at hall
      exact hall b (by simp only [List.mem_append] at hb ⊢; tauto)
    have hblank : (∀ b ∈ pre ++ post, f.blank b = true) ↔
        (pre.map f.char).dropWhile f.strips = [] ∧ (post.map f.char).rdropWhile f.strips = [] := by
      rw [List.dropWhile_eq_nil_iff, List.rdropWhile_eq_nil_iff, List.forall_mem_map,
        List.forall_mem_map, ← List.forall_mem_append]
      exact forall₂_congr fun b hb => by rw [blank, hdecodes b hb, Bool.true_and]
    have hsome : HexText.encode (hexDigit upper) data ≠ [] :=
      List.ne_nil_of_length_pos (by rw [HexText.encode_length]; omega)
    have htext : LineText.strip f.strips ((pre ++ (hexFile upper data ++ post)).map f.char) =
        (pre.map f.char).dropWhile f.strips ++ (HexText.encode (hexDigit upper) data ++
          (post.map f.char).rdropWhile f.strips) := by
      rw [List.map_append, List.map_append, hf.map_hexFile,
        LineText.strip_around hsome (hf.strips_hexText upper data)]
    rw [if_neg (by simp [hall]), hblank]
    exact hf.ofHex_around upper data hne hraw htext
  · rw [if_pos (by rw [Bool.eq_false_of_not_eq_true hall]; rfl)]
    refine iff_of_false (mt Option.some.inj hraw) fun h => hall ?_
    have hends : ∀ b ∈ pre ++ post, f.decodes b = true := fun b hb =>
      (Bool.and_eq_true_iff.mp (h b hb)).1
    rw [List.forall_mem_append] at hends
    rw [List.all_eq_true, List.forall_mem_append, List.forall_mem_append]
    exact ⟨hends.1, hf.decodes_hexFile upper data, hends.2⟩

end HexFiles

end InputFormat

theorem Javascript.inputFormat_lawful : inputFormat.Lawful where
  digit := by
    intro upper
    cases upper <;> decide
  tag := by
    refine forall_byte ?_
    decide +kernel
  ofHex := by
    intro text htext
    have hclean : cleanHex text = text := by
      unfold cleanHex
      split
      · exact absurd (htext 'x' (by simp)) (by decide)
      · rfl
    rw [inputFormat]
    dsimp only
    rw [hexToBytes, hclean]
    cases HexText.decode digit text <;> rfl

theorem Python.inputFormat_lawful : inputFormat.Lawful where
  digit := by
    intro upper
    cases upper <;> decide
  tag := by
    refine forall_byte ?_
    decide +kernel
  ofHex _ _ := rfl

/-! ## Exported payloads -/

theorem Exported.starts {L : MsgPackLibraries} (hL : TagsArrays L) {data : Bytes}
    (h : Exported L data) : ∃ tag rest, data = tag :: rest ∧ IsArrayTag tag := by
  cases h with
  | javascript h =>
    unfold Operation.toPayload at h
    split_ifs at h
    obtain rfl := Except.ok.inj h
    exact hL.encode _
  | javascriptBatch hne h =>
    obtain rfl := Except.ok.inj h
    exact hL.encode _
  | python h => exact hL.packb _
  | pythonBatch hne h =>
    obtain rfl := Except.ok.inj h
    exact hL.packb _

/-- A tab, a line feed, a vertical tab, a form feed, a carriage return or a space. -/
def IsAsciiBlank (n : ℕ) : Prop := 9 ≤ n ∧ n ≤ 13 ∨ n = 32

instance (n : ℕ) : Decidable (IsAsciiBlank n) := inferInstanceAs (Decidable (_ ∨ _))

theorem Javascript.blank_iff (b : UInt8) :
    inputFormat.blank b = true ↔ IsAsciiBlank (b.toNat % 128) := by
  revert b
  refine forall_byte ?_
  decide +kernel

theorem Python.blank_iff (b : UInt8) :
    inputFormat.blank b = true ↔ IsAsciiBlank b.toNat ∨ 28 ≤ b.toNat ∧ b.toNat ≤ 31 := by
  revert b
  refine forall_byte ?_
  decide +kernel

/-- An exported payload is read from its bytes, and from its hex text with blanks around. -/
theorem payload_input_exact {L : MsgPackLibraries} (hL : TagsArrays L) {data : Bytes}
    (h : Exported L data) :
    Javascript.coercePayload data false = some data ∧
      Python.readPayloadInput data false = some data ∧
      ∀ upper pre post,
        (Javascript.coercePayload (pre ++ (hexFile upper data ++ post)) false = some data ↔
          ∀ b ∈ pre ++ post, IsAsciiBlank (b.toNat % 128)) ∧
        (Python.readPayloadInput (pre ++ (hexFile upper data ++ post)) false = some data ↔
          ∀ b ∈ pre ++ post, IsAsciiBlank b.toNat ∨ 28 ≤ b.toNat ∧ b.toNat ≤ 31) := by
  obtain ⟨tag, rest, rfl, htag⟩ := h.starts hL
  refine ⟨Javascript.inputFormat_lawful.read_array htag rest,
    Python.inputFormat_lawful.read_array htag rest, fun upper pre post => ⟨?_, ?_⟩⟩
  · rw [Javascript.coercePayload, Javascript.inputFormat_lawful.read_hexFile _ _ (by simp)]
    exact forall₂_congr fun b _ => Javascript.blank_iff b
  · rw [Python.readPayloadInput, Python.inputFormat_lawful.read_hexFile _ _ (by simp)]
    exact forall₂_congr fun b _ => Python.blank_iff b

theorem isArrayTag_of_arrayHeader (n : ℕ) (rest : Bytes) :
    ∃ tag rest', MessagePack.arrayHeader n ++ rest = tag :: rest' ∧ IsArrayTag tag := by
  unfold MessagePack.arrayHeader
  split_ifs with hfix
  · refine ⟨_, _, rfl, .inl ?_⟩
    interval_cases n <;> decide
  · exact ⟨_, _, rfl, .inr (.inl rfl)⟩
  · exact ⟨_, _, rfl, .inr (.inr rfl)⟩

theorem tagsArrays_ofFormat : TagsArrays .ofFormat where
  encode vs := by
    show ∃ tag rest, MessagePack.encode (JsValue.array vs).toFormat = tag :: rest ∧ IsArrayTag tag
    rw [JsValue.toFormat, MessagePack.encode]
    exact isArrayTag_of_arrayHeader _ _
  packb vs := by
    show ∃ tag rest, MessagePack.encode (WireValue.array vs).toFormat = tag :: rest ∧ IsArrayTag tag
    rw [WireValue.toFormat, MessagePack.encode]
    exact isArrayTag_of_arrayHeader _ _

/-- A batch of one payload. -/
def oneBatch : Bytes := MsgPackLibraries.ofFormat.encode (.array [.bytes [1]])

theorem exported_oneBatch : Exported .ofFormat oneBatch :=
  .javascriptBatch (List.cons_ne_nil [1] []) rfl

theorem payload_input_exact_oneBatch :
    Javascript.coercePayload oneBatch false = some oneBatch ∧
      Python.readPayloadInput ([10] ++ (hexFile true oneBatch ++ [13, 10])) false = some oneBatch :=
  have h := payload_input_exact tagsArrays_ofFormat exported_oneBatch
  ⟨h.1, (h.2.2 true [10] [13, 10]).2.mpr (by decide +kernel)⟩

/-- A no-break space, which both ports take for white space, keeps the digits from being read,
and the separator `0x1c` does in JavaScript alone. -/
theorem no_break_space_hides_digits :
    (isStrWhiteSpace '\u00a0' = true ∧ Python.isSpace '\u00a0' = true ∧
      Python.isSpace '\u001c' = true) ∧ Exported .ofFormat oneBatch ∧
      Javascript.coercePayload (Utf8.encode ['\u00a0'] ++ (hexFile false oneBatch ++ [])) false ≠
        some oneBatch ∧
      Python.readPayloadInput (Utf8.encode ['\u00a0'] ++ (hexFile false oneBatch ++ [])) false ≠
        some oneBatch ∧
      Javascript.coercePayload (Utf8.encode ['\u001c'] ++ (hexFile false oneBatch ++ [])) false ≠
        some oneBatch ∧
      Python.readPayloadInput (Utf8.encode ['\u001c'] ++ (hexFile false oneBatch ++ [])) false =
        some oneBatch := by
  have hne : oneBatch ≠ [] := by
    obtain ⟨tag, rest, heq, -⟩ := exported_oneBatch.starts tagsArrays_ofFormat
    rw [heq]
    exact List.cons_ne_nil _ _
  have hjs := Javascript.inputFormat_lawful.read_hexFile false _ hne
  have hpy := Python.inputFormat_lawful.read_hexFile false _ hne
  exact ⟨by decide, exported_oneBatch, (hjs _ []).not.mpr (by decide +kernel),
    (hpy _ []).not.mpr (by decide +kernel), (hjs _ []).not.mpr (by decide +kernel),
    (hpy _ []).mpr (by decide +kernel)⟩

end Dacar.Cli

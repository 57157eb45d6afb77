import Dacar.Cli.Aliases
import Dacar.DecimalText
import Dacar.Engine
import Dacar.IniText
import Dacar.Utf16
import Dacar.Utf8

/-!
# The configuration record

Salts, anchors and addresses of a node, kept as an INI text.  Two ports write the same text and
have a parser of their own for it.
-/

namespace Dacar.Cli

def rfedTopic : String := "dacar.policy.v1"
def defaultDeletionHorizonDays : ℤ := 180
def defaultSalt : Salt := Blob.fill 32 0

/-- The raw configuration, with text over `α`. -/
structure StoreConfig (α ν : Type) where
  primarySalt : Salt
  legacySalts : List Salt
  anchors : List Hash
  authoritative : Option Hash
  horizonDays : ν
  rfedTopic : List α
  rfedNode : Option Hash
  lxmfProprietor : Option Hash

/-! ## Writing -/

section Write

variable {α : Type} (char : Char → α)

def word (s : String) : List α := s.toList.map char

def hexText (b : Bytes) : List α := HexText.encode (fun n => char n.digitChar) b

/-- `, ` between them. -/
def joinAnchors : List Hash → List α
  | [] => []
  | a :: anchors =>
    hexText char a.val ++ anchors.flatMap fun b => word char ", " ++ hexText char b.val

def hashOption (key : String) : Option Hash → List (List α × List α)
  | none => []
  | some h => [(word char key, hexText char h.val)]

/-- The section is there with a proprietor only. -/
def lxmfSections : Option Hash → List (IniText.Section α)
  | none => []
  | some h => [(word char "lxmf", hashOption char "proprietor" (some h))]

def configSections (config : StoreConfig α ℤ) : List (IniText.Section α) :=
  [(word char "salt", (word char "primary", hexText char config.primarySalt.val) ::
      (config.legacySalts.take maxLegacySalts).zipIdx.map fun (salt, i) =>
        (word char ("legacy" ++ toString i), hexText char salt.val)),
    (word char "trust", (word char "anchors", joinAnchors char config.anchors) ::
      hashOption char "authoritative" config.authoritative),
    (word char "policy", [(word char "deletion_horizon_days",
      (DecimalText.write config.horizonDays).map char)]),
    (word char "rfed", (word char "topic", config.rfedTopic) ::
      hashOption char "node" config.rfedNode)] ++ lxmfSections char config.lxmfProprietor

def configText (config : StoreConfig α ℤ) : List α :=
  IniText.write char (configSections char config)

end Write

/-- The items of a list with commas, the empty ones left out. -/
def commaItems {α : Type} [DecidableEq α] (f : IniText.Format α) (raw : List α) : List (List α) :=
  ((raw.splitOnP (· = f.char ',')).map (LineText.strip f.strips)).filter fun item => !item.isEmpty

/-! ## JavaScript -/

namespace Javascript

def encodeConfigIni (config : StoreConfig Char ℤ) : Bytes := Utf8.encode (configText id config)

/-- An ASCII character as a code unit. -/
def unit (c : Char) : UInt16 := UInt16.ofNat c.toNat

/-- `TextEncoder`, on a string of any code units. -/
def textEncoder (units : List UInt16) : Bytes := Utf8.encode (Utf16.decode units)

/-- The same encoder for a topic that is any string, surrogates out of their pairs included. -/
def encodeConfigUnits (config : StoreConfig UInt16 ℤ) : Bytes :=
  textEncoder (configText unit config)

/-- What the decoder uses of its platform: `TextDecoder` and `String.prototype.toLowerCase`. -/
structure TextPlatform where
  textDecoder : Bytes → List Char
  toLowerCase : List Char → List Char

/-- The decoder gives UTF-8 text back, a byte order mark apart, and lower case is as usual in
ASCII. -/
structure TextPlatform.Lawful (p : TextPlatform) : Prop where
  textDecoder : ∀ text : List Char, text.head? ≠ some '\uFEFF' →
    p.textDecoder (Utf8.encode text) = text
  toLowerCase : ∀ text : List Char, (∀ c ∈ text, c.toNat < 128) →
    p.toLowerCase text = text.map Char.toLower

def isLineTerminator (c : Char) : Bool :=
  c = '\n' || c = '\r' || c = '\u2028' || c = '\u2029'

/-- `line.match(/^\[(.+)\]$/)` -/
def sectionName : List Char → Option (List Char)
  | '[' :: rest =>
    if rest.getLast? = some ']' ∧ ¬rest.dropLast.isEmpty ∧ ¬rest.dropLast.any isLineTerminator then
      some rest.dropLast
    else none
  | _ => none

def iniFormat (p : TextPlatform) : IniText.Format Char where
  char := id
  lines text := splitLines text []
  strips := isStrWhiteSpace
  lower := p.toLowerCase
  header := sectionName
  keyless := true

/-- `_parseIni`; the sections are a `Map`. -/
def parseIni (p : TextPlatform) (data : Bytes) : List (IniText.Section Char) :=
  (((iniFormat p).readLines (p.textDecoder data)).foldl IniText.replace ([], none)).1

/-- `text.length`, in UTF-16 code units. -/
def utf16Length (text : List Char) : ℕ :=
  (text.map fun c => if c.toNat < 0x10000 then 1 else 2).sum

/-- Without `0x` at its front. -/
def cleanHex : List Char → List Char
  | '0' :: 'x' :: rest => rest
  | hex => hex

/-- `_hexToBytes` -/
def hexToBytes (hex : List Char) : Except String Bytes :=
  match HexText.decode digit (cleanHex hex) with
  | none => .error s!"invalid hex string (length {utf16Length (cleanHex hex)})"
  | some b => .ok b

def expectHex (name : String) (n : ℕ) (hex : List Char) : Except String (Blob n) := do
  let bytes ← hexToBytes hex
  if h : bytes.length = n then pure ⟨bytes, h⟩
  else .error s!"{name} must be {n} bytes ({n * 2} hex), got {bytes.length}"

/-- The double next to `n`, of two the one whose last bit is 0. -/
def doubleOf (n : ℕ) : ℕ :=
  if n < 2 ^ 53 then n
  else
    let ulp := 2 ^ (n.log2 - 52)
    if 2 * (n % ulp) < ulp ∨ 2 * (n % ulp) = ulp ∧ n / ulp % 2 = 0 then n / ulp * ulp
    else (n / ulp + 1) * ulp

/-- `parseInt(text, 10)` -/
def parseInt (text : List Char) : JsNumber :=
  match DecimalText.readInt (text.dropWhile isStrWhiteSpace) with
  | none => .nan
  | some (n, _) =>
    if 2 ^ 1024 ≤ doubleOf n.natAbs then .infinite (n < 0)
    else .finite (n.sign * doubleOf n.natAbs)

/-- `_decodeConfigIni` of the parsed sections. -/
def decodeSections (p : TextPlatform) (sections : List (IniText.Section Char)) :
    Except String (StoreConfig Char JsNumber) := do
  let get (name key : String) := IniText.only sections name.toList key.toList
  let primarySalt ← expectHex "primary" 32
    ((get "salt" "primary").getD (hexText id defaultSalt.val))
  let legacySalts ← ((List.range maxLegacySalts).filterMap fun i =>
      ((get "salt" ("legacy" ++ toString i)).filter fun v => !v.isEmpty).map fun v => (i, v)).mapM
    fun (i, v) => expectHex ("legacy" ++ toString i) 32 v
  let anchors ← (commaItems (iniFormat p) ((get "trust" "anchors").getD [])).zipIdx.mapM
    fun (h, i) => expectHex s!"anchors[{i}]" 16 h
  let authoritative ← (get "trust" "authoritative").mapM (expectHex "authoritative" 16)
  let horizonDays := parseInt ((get "policy" "deletion_horizon_days").getD
    (DecimalText.write defaultDeletionHorizonDays))
  let topic := (get "rfed" "topic").getD rfedTopic.toList
  let rfedNode ← (get "rfed" "node").mapM (expectHex "node" 16)
  let lxmfProprietor ← (get "lxmf" "proprietor").mapM (expectHex "proprietor" 16)
  return { primarySalt, legacySalts, anchors, authoritative, horizonDays, rfedTopic := topic,
           rfedNode, lxmfProprietor }

def decodeConfigIni (p : TextPlatform) (data : Bytes) :
    Except String (StoreConfig Char JsNumber) :=
  decodeSections p (parseIni p data)

end Javascript

/-! ## C++ -/

namespace Cpp

def encodeConfigIni (config : StoreConfig UInt8 ℤ) : Bytes := configText byte config

/-- `std::tolower` -/
def toLower (b : UInt8) : UInt8 := if byte 'A' ≤ b ∧ b ≤ byte 'Z' then b + 32 else b

def sectionName (line : Bytes) : Option Bytes :=
  if line.head? = some (byte '[') ∧ line.getLast? = some (byte ']') then
    some (LineText.strip isSpace (line.drop 1).dropLast)
  else none

def iniFormat : IniText.Format UInt8 where
  char := byte
  lines text := text.splitOnP (· = byte '\n')
  strips := isSpace
  lower key := key.map toLower
  header := sectionName
  keyless := false

def parseIni (text : Bytes) : List (IniText.Section UInt8) :=
  (iniFormat.readLines text).foldl IniText.append []

/-- Without `0x` or `0X` at its front. -/
def cleanHex : Bytes → Bytes
  | zero :: x :: rest =>
    if zero = byte '0' ∧ (x = byte 'x' ∨ x = byte 'X') then rest else zero :: x :: rest
  | value => value

def parseHex (what : String) (n : ℕ) (value : Bytes) : Except String (Blob n) :=
  let clean := cleanHex (LineText.strip isSpace value)
  if clean.length ≠ n * 2 then
    .error s!"{what} must be {n} bytes ({n * 2} hex), got {clean.length / 2}"
  else
    match HexText.decode hexNibble clean with
    | none => .error s!"{what} is not valid hex"
    | some b => if h : b.length = n then .ok ⟨b, h⟩ else .error s!"{what} is not valid hex"

/-- `strtol` of a text up to its first NUL, with the checks behind it, for a `long` of `bits`
bits; the result becomes an `int`. -/
def parseHorizon (bits : ℕ) (value : Bytes) : Except String ℤ :=
  let text := (LineText.strip isSpace value).takeWhile (· ≠ 0)
  match DecimalText.readInt (text.map fun b => Char.ofNat b.toNat) with
  | some (n, []) =>
    if -2 ^ (bits - 1) ≤ n ∧ n < 2 ^ (bits - 1) then .ok (n.bmod (2 ^ 32))
    else .error "deletion_horizon_days is not an integer"
  | _ => .error "deletion_horizon_days is not an integer"

/-- `decode_config_ini` of the parsed sections. -/
def decodeSections (bits : ℕ) (sections : List (IniText.Section UInt8)) :
    Except String (StoreConfig UInt8 ℤ) := do
  let get (name key : String) := IniText.first sections (word byte name) (word byte key)
  let primarySalt ← (get "salt" "primary").elim (.ok defaultSalt) (parseHex "primary" 32)
  let legacySalts ← ((List.range maxLegacySalts).filterMap fun i =>
      (get "salt" ("legacy" ++ toString i)).map fun v => (i, v)).mapM
    fun (i, v) => parseHex ("legacy" ++ toString i) 32 v
  let anchors ← (commaItems iniFormat
      (LineText.strip isSpace ((get "trust" "anchors").getD []))).mapM (parseHex "anchors" 16)
  let authoritative ← (get "trust" "authoritative").mapM (parseHex "authoritative" 16)
  let horizonDays ← (get "policy" "deletion_horizon_days").elim (.ok defaultDeletionHorizonDays)
    (parseHorizon bits)
  let topic := ((get "rfed" "topic").map (LineText.strip isSpace)).getD (word byte rfedTopic)
  let rfedNode ← (get "rfed" "node").mapM (parseHex "node" 16)
  let lxmfProprietor ← (get "lxmf" "proprietor").mapM (parseHex "proprietor" 16)
  return { primarySalt, legacySalts, anchors, authoritative, horizonDays, rfedTopic := topic,
           rfedNode, lxmfProprietor }

def decodeConfigIni (bits : ℕ) (data : Bytes) : Except String (StoreConfig UInt8 ℤ) :=
  decodeSections bits (parseIni data)

end Cpp

end Dacar.Cli

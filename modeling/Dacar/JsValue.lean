import Dacar.Bytes

/-!
# Decoded MessagePack values

What the MessagePack decoder of the JavaScript port hands on, and the coercions the
port applies to it.  The decoder itself is a library and stays a parameter.
-/

namespace Dacar

/-- A JavaScript Number.  Nothing here tells `-0` from `0`. -/
inductive JsNumber
  | finite (q : ℚ)
  | nan
  | infinite (negative : Bool)
  deriving DecidableEq

inductive JsValue
  | null
  | bool (b : Bool)
  | number (x : JsNumber)
  | bigint (n : ℤ)
  | string (s : String)
  | bytes (b : Bytes)
  | array (elements : List JsValue)
  | object (fields : List (String × JsValue))

/-- `MsgPack.decode`, with the text of what it throws. -/
abbrev MsgPackDecode := Bytes → Except String JsValue

/-- The platform's MessagePack encoder. -/
abbrev MsgPackEncode := JsValue → Bytes

/-! ## `BigInt(value)` -/

/-- `WhiteSpace` and `LineTerminator` of the language. -/
def isStrWhiteSpace (c : Char) : Bool :=
  c.val ∈ [0x09, 0x0a, 0x0b, 0x0c, 0x0d, 0x20, 0xa0, 0x1680, 0x2028, 0x2029, 0x202f, 0x205f,
    0x3000, 0xfeff] || (0x2000 ≤ c.val && c.val ≤ 0x200a)

def digit (c : Char) : Option ℕ :=
  if '0' ≤ c ∧ c ≤ '9' then some (c.toNat - '0'.toNat)
  else if 'a' ≤ c ∧ c ≤ 'f' then some (c.toNat - 'a'.toNat + 10)
  else if 'A' ≤ c ∧ c ≤ 'F' then some (c.toNat - 'A'.toNat + 10)
  else none

def digits (base : ℕ) : List Char → ℕ → Option ℕ
  | [], n => some n
  | c :: cs, n =>
    match digit c with
    | none => none
    | some d => if d < base then digits base cs (n * base + d) else none

/-- At least one digit. -/
def numeral (base : ℕ) (cs : List Char) : Option ℤ :=
  if cs.isEmpty then none else (digits base cs 0).map Int.ofNat

/-- `StringToBigInt`: a sign goes with decimal digits only, blanks at both ends are skipped
and nothing at all is zero. -/
def stringToBigInt (s : String) : Option ℤ :=
  let text := s.toList.dropWhile isStrWhiteSpace
  match (text.reverse.dropWhile isStrWhiteSpace).reverse with
  | [] => some 0
  | '+' :: cs => numeral 10 cs
  | '-' :: cs => (numeral 10 cs).map Neg.neg
  | '0' :: 'x' :: cs | '0' :: 'X' :: cs => numeral 16 cs
  | '0' :: 'o' :: cs | '0' :: 'O' :: cs => numeral 8 cs
  | '0' :: 'b' :: cs | '0' :: 'B' :: cs => numeral 2 cs
  | cs => numeral 10 cs

/-- Whether `m` reads back as the double `n`: at most half a step off, less where a tie goes
to the neighbour; the steps below a power of two are half as long. -/
def readsBackAs (n m : ℕ) : Bool :=
  let ulp := 2 ^ (n.log2 - 52)
  let even := n / ulp % 2 == 0
  let below := if n == 2 ^ n.log2 then ulp / 2 else ulp
  if n ≤ m then decide (2 * (m - n) < ulp) || (even && decide (2 * (m - n) = ulp))
  else decide (2 * (n - m) < below) || (even && decide (2 * (n - m) = below))

/-- The multiple of `10 ^ j` next to `n` that reads back as `n`, the closer one of two. -/
def shownAt (n j : ℕ) : Option ℕ :=
  let lo := n / 10 ^ j * 10 ^ j
  let hi := lo + 10 ^ j
  match readsBackAs n lo, readsBackAs n hi with
  | true, true => some (if n - lo ≤ hi - n then lo else hi)
  | true, false => some lo
  | false, true => some hi
  | false, false => none

/-- The integer that `String(n)` shows: beyond `2 ^ 53` the shortest digits that read back
as `n`, padded with zeros. -/
def shownInteger (n : ℕ) : ℕ :=
  if n ≤ 2 ^ 53 then n else ((List.range 21).reverse.findSome? (shownAt n)).getD n

/-- `BigInt(String(x))`: fractions and, from `10 ^ 21` on, exponents are no integer
literals. -/
def numberLiteral : JsNumber → Option ℤ
  | .finite q =>
    if q.den = 1 ∧ q.num.natAbs < 10 ^ 21 then some (q.num.sign * shownInteger q.num.natAbs)
    else none
  | .nan | .infinite _ => none

mutual

/-- `BigInt` of an element's text in a joined array; `null` has the empty text there. -/
def JsValue.joined : JsValue → Option ℤ
  | .null => some 0
  | .bool _ => none
  | .number x => numberLiteral x
  | .bigint n => some n
  | .string s => stringToBigInt s
  | .bytes [] => some 0
  | .bytes [b] => some b.toNat
  | .bytes _ => none
  | .array vs => joinedElements vs
  | .object _ => none

/-- Two elements have a comma between them, which no integer literal has. -/
def joinedElements : List JsValue → Option ℤ
  | [] => some 0
  | v :: vs => if vs.isEmpty then v.joined else none

end

/-- `BigInt(value)`; `none` when it throws.  An array is read through its text. -/
def JsValue.toBigInt : JsValue → Option ℤ
  | .null => none
  | .bool b => some (if b then 1 else 0)
  | .number (.finite q) => if q.den = 1 then some q.num else none
  | .number _ => none
  | v => v.joined

/-! ## Checked fields -/

/-- What a decoder of the port throws. -/
inductive DecodeError
  /-- An error of the platform: `MsgPack.decode`, `BigInt`, or a method that is not there. -/
  | platform
  | error (message : String)
  /-- `unknown action byte ${action}`, `unknown verdict byte ${verdict}`. -/
  | unknown (what : String) (value : JsValue)

def expectBytes (len : ℕ) (name : String) : JsValue → Except DecodeError (Blob len)
  | .bytes b =>
    if h : b.length = len then .ok ⟨b, h⟩
    else .error (.error s!"{name} must be a {len}-byte Uint8Array")
  | _ => .error (.error s!"{name} must be a {len}-byte Uint8Array")

@[simp] theorem expectBytes_val {n : ℕ} (name : String) (b : Blob n) :
    expectBytes n name (.bytes b.val) = .ok b := by
  rw [expectBytes, dif_pos b.property]

theorem mapM_expectBytes_val {n : ℕ} (name : String) (bs : List (Blob n)) :
    (bs.map fun b => JsValue.bytes b.val).mapM (expectBytes n name) = .ok bs := by
  induction bs with
  | nil => rfl
  | cons b bs ih =>
    rw [List.map_cons, List.mapM_cons, expectBytes_val, ih]
    rfl

def expectBool (name : String) : JsValue → Except DecodeError Bool
  | .bool b => .ok b
  | _ => .error (.error s!"{name} must be a boolean")

/-- `BigInt(value)` where the callers ask for an HLC. -/
def expectBigInt (v : JsValue) : Except DecodeError ℤ :=
  match v.toBigInt with
  | some n => .ok n
  | none => .error .platform

/-- `value.map(f)`: arrays have it, and so have byte strings, whose elements are Numbers. -/
def mapElements {α : Type} (f : JsValue → Except DecodeError α) :
    JsValue → Except DecodeError (List α)
  | .array vs => vs.mapM f
  | .bytes b => (b.map fun x => JsValue.number (.finite x.toNat)).mapM f
  | _ => .error .platform

/-! ## Small payloads -/

section Forms

mutual

/-- The few MessagePack forms that Deltas, challenges and receipts are made of. -/
def pack : JsValue → Bytes
  | .bytes b => 0xc4 :: UInt8.ofNat b.length :: b
  | .array vs => UInt8.ofNat (0x90 + vs.length) :: packAll vs
  | .number (.finite q) => [UInt8.ofNat q.num.toNat]
  | .bigint n => 0xcf :: bigEndian 8 n.toNat
  | .bool b => [if b then 0xc3 else 0xc2]
  | _ => [0xc0]

def packAll : List JsValue → Bytes
  | [] => []
  | v :: vs => pack v ++ packAll vs

end

def unpackMany (unpack : Bytes → Option (JsValue × Bytes)) :
    ℕ → Bytes → Option (List JsValue × Bytes)
  | 0, b => some ([], b)
  | n + 1, b => do
    let head ← unpack b
    let rest ← unpackMany unpack n head.2
    pure (head.1 :: rest.1, rest.2)

def unpack : ℕ → Bytes → Option (JsValue × Bytes)
  | 0, _ | _ + 1, [] => none
  | fuel + 1, tag :: b =>
    if tag < 0x80 then some (.number (.finite tag.toNat), b)
    else if 0x90 ≤ tag ∧ tag < 0xa0 then
      (unpackMany (unpack fuel) (tag.toNat - 0x90) b).map fun many => (.array many.1, many.2)
    else if tag = 0xc2 ∨ tag = 0xc3 then some (.bool (tag = 0xc3), b)
    else if tag = 0xc4 then
      b.head?.map fun len => (.bytes (b.tail.take len.toNat), b.tail.drop len.toNat)
    else if tag = 0xcf then
      let n : ℕ := (b.take 8).foldl (fun n x => n * 256 + x.toNat) 0
      some (.bigint n, b.drop 8)
    else none

def unpackAll : MsgPackDecode := fun b =>
  match unpack b.length b with
  | some (v, []) => .ok v
  | _ => .error "malformed"

end Forms

end Dacar

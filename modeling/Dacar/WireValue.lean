import Dacar.JsValue
import Dacar.Operation

/-!
# One payload, two decoders

A MessagePack value as it is on the wire, what the JavaScript port makes of it, and how
the Python port reads an Operation from it.
-/

namespace Dacar

/-- What a MessagePack decoder reads. -/
inductive WireValue
  | nil
  | bool (b : Bool)
  /-- JavaScript sees a `wide` integer as a BigInt and any other as a Number. -/
  | int (n : ℤ) (wide : Bool)
  | float (x : JsNumber)
  | str (s : String)
  | bin (b : Bytes)
  | array (elements : List WireValue)
  | map (fields : List (WireValue × WireValue))
  | ext (kind : ℤ) (data : Bytes)

namespace WireValue

mutual

def toJs : WireValue → JsValue
  | .nil => .null
  | .bool b => .bool b
  | .int n wide => if wide then .bigint n else .number (.finite n)
  | .float x => .number x
  | .str s => .string s
  | .bin b => .bytes b
  | .array vs => .array (toJsAll vs)
  -- no check looks inside an object
  | .map _ | .ext _ _ => .object []

def toJsAll : List WireValue → List JsValue
  | [] => []
  | v :: vs => v.toJs :: toJsAll vs

end

@[simp] theorem toJsAll_eq_map (vs : List WireValue) : toJsAll vs = vs.map toJs := by
  induction vs with
  | nil => rfl
  | cons v vs ih => rw [toJsAll, ih, List.map_cons]

/-- `type(value).__name__` -/
def typeName : WireValue → String
  | .nil => "NoneType"
  | .bool _ => "bool"
  | .int _ _ => "int"
  | .float _ => "float"
  | .str _ => "str"
  | .bin _ => "bytes"
  | .array _ => "list"
  | .map _ => "dict"
  | .ext kind _ => if kind = -1 then "Timestamp" else "ExtType"

/-- `len(value)`, where it has one; an `ExtType` is a pair. -/
def len : WireValue → Option ℕ
  | .str s => some s.length
  | .bin b => some b.length
  | .array vs => some vs.length
  | .map fields => some fields.length
  | .ext kind _ => if kind = -1 then none else some 2
  | _ => none

end WireValue

/-! ## The Python port -/

namespace Python

/-- A `ValueError`, with the value that its text ends in, if it does. -/
inductive ValueError
  | error (message : String)
  | about (message : String) (value : WireValue)

/-- `_expect_bytes(value, length, name)` -/
def expectBytes (length : ℕ) (name : String) : WireValue → Except ValueError (Blob length)
  | .bin b =>
    if h : b.length = length then .ok ⟨b, h⟩
    else .error (.error s!"{name} must be {length} bytes, got {b.length} bytes")
  | v => .error (.error s!"{name} must be a {length}-byte binary blob, got {v.typeName}")

def expectBool (name : String) : WireValue → Except ValueError Bool
  | .bool b => .ok b
  | v => .error (.error s!"{name} must be a boolean, got {v.typeName}")

/-- The loops over `object_hashes` and `signatures`, from index `i` on. -/
def expectBlobs (length : ℕ) (name : String) :
    ℕ → List WireValue → Except ValueError (List (Blob length))
  | _, [] => .ok []
  | i, v :: vs =>
    match expectBytes length name v with
    | .ok b => do
      let bs ← expectBlobs length name (i + 1) vs
      pure (b :: bs)
    | .error _ =>
      let shown := (v.len.map toString).getD "N/A"
      .error (.error
        s!"{name}[{i}] must be {length} bytes, got {v.typeName} with length {shown}")

def expectObjectHashes : WireValue → Except ValueError (List Hash)
  | .array hs => expectBlobs 16 "object_hashes" 0 hs
  | _ => .error (.error "object_hashes must be an array of 16-byte blobs")

def expectSignatures : WireValue → Except ValueError (List Signature)
  | .array (sig :: sigs) => expectBlobs 64 "signatures" 0 (sig :: sigs)
  | _ => .error (.error "signatures must be a non-empty array of 64-byte blobs")

/-- `action in (1, 0)` compares with `==`, and so does `Action(action)`. -/
def Action.ofValue : WireValue → Except ValueError Action
  | .int n wide =>
    if n = 1 then .ok .grant
    else if n = 0 then .ok .revoke
    else .error (.about "unknown action byte" (.int n wide))
  | .bool b => .ok (if b then .grant else .revoke)
  | .float (.finite q) =>
    if q = 1 then .ok .grant
    else if q = 0 then .ok .revoke
    else .error (.about "unknown action byte" (.float (.finite q)))
  | v => .error (.about "unknown action byte" v)

/-- `isinstance(hlc, int)`, which booleans are too. -/
def expectHlc (v : WireValue) : Except ValueError ℤ :=
  let n? : Option ℤ := match v with
    | .int n _ => some n
    | .bool b => some (if b then 1 else 0)
    | _ => none
  match n? with
  | some n =>
    if 0 ≤ n ∧ n ≤ maxHlc then .ok n else .error (.error "hlc must be a uint64 integer")
  | none => .error (.error "hlc must be a uint64 integer")

/-- `Tuple.__post_init__`; the other checks have nothing left to find. -/
def Tuple.make (relationHash : Hash) (objectHashes : List Hash) (wildcard : Bool)
    (grantee issuer : Hash) : Except ValueError Tuple :=
  if h : objectHashes.length ≤ maxSegments then
    .ok ⟨relationHash, objectHashes, wildcard, grantee, issuer, h⟩
  else .error (.error s!"too many object segments ({objectHashes.length} > {maxSegments})")

theorem toNat_le_maxHlc {n : ℤ} (h : 0 ≤ n ∧ n ≤ maxHlc) : n.toNat ≤ maxHlc :=
  Int.toNat_le.mpr h.2

/-- `Operation.__post_init__` -/
def Operation.make (tuple : Tuple) (action : Action) (hlc : ℤ) (signatures : List Signature) :
    Except ValueError Operation :=
  if h : 0 ≤ hlc ∧ hlc ≤ maxHlc then .ok ⟨tuple, action, hlc.toNat, signatures, toNat_le_maxHlc h⟩
  else .error (.error s!"hlc must fit in 64 bits, got {hlc}")

/-- `Operation.from_payload`, past the decoder. -/
def Operation.fromValue : WireValue → Except ValueError Operation
  | .array [issuer, grantee, action, hlc, relationHash, objectHashes, wildcard, signatures] => do
    let issuer ← expectBytes 16 "issuer" issuer
    let grantee ← expectBytes 16 "grantee" grantee
    let relationHash ← expectBytes 16 "relation_hash" relationHash
    let wildcard ← expectBool "wildcard" wildcard
    let action ← Action.ofValue action
    let hlc ← expectHlc hlc
    let objectHashes ← expectObjectHashes objectHashes
    let signatures ← expectSignatures signatures
    let tuple ← Tuple.make relationHash objectHashes wildcard grantee issuer
    Operation.make tuple action hlc signatures
  | _ => throw (.error "payload must be an 8-element MessagePack array")

end Python

end Dacar

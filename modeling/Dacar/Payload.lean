import Dacar.JsValue
import Dacar.Operation

/-!
# Operation payloads

On the wire an Operation is an 8-element MessagePack array.  Decoding it checks every
field, so that what comes out is a well-formed Operation.
-/

namespace Dacar

/-- The action is compared with Numbers, so the BigInts 0 and 1 are unknown. -/
def Action.ofValue : JsValue → Except DecodeError Action
  | .number (.finite q) =>
    if q = 1 then .ok .grant
    else if q = 0 then .ok .revoke
    else .error (.unknown "action byte" (.number (.finite q)))
  | v => .error (.unknown "action byte" v)

theorem Action.ofValue_byte (a : Action) :
    Action.ofValue (.number (.finite a.byte.toNat)) = .ok a := by
  cases a <;> simp [Action.ofValue, Action.byte]

/-- The one check of the constructor that `expectBytes` leaves open. -/
def Tuple.make (relationHash : Hash) (objectHashes : List Hash) (wildcard : Bool)
    (grantee issuer : Hash) : Except DecodeError Tuple :=
  if h : objectHashes.length ≤ maxSegments then
    .ok ⟨relationHash, objectHashes, wildcard, grantee, issuer, h⟩
  else .error (.error s!"too many object segments ({objectHashes.length} > {maxSegments})")

namespace Operation

def make (tuple : Tuple) (action : Action) (hlc : ℤ) (signatures : List Signature) :
    Except DecodeError Operation :=
  if h : 0 ≤ hlc ∧ hlc ≤ maxHlc then .ok ⟨tuple, action, hlc.toNat, signatures, by omega⟩
  else .error (.error "hlc must be a bigint in [0, 2^64)")

def fromValue : JsValue → Except DecodeError Operation
  | .array [issuer, grantee, action, hlc, relationHash, objectHashes, wildcard, signatures] => do
    -- the action and the list of signatures are looked at before any other field
    let action ← Action.ofValue action
    let signatures ← match signatures with
      | .array (sig :: sigs) => pure (sig :: sigs)
      | _ => throw (.error "signatures must be a non-empty array of 64-byte blobs")
    let relationHash ← expectBytes 16 "relation_hash" relationHash
    let objectHashes ← mapElements (expectBytes 16 "object_hash") objectHashes
    let wildcard ← expectBool "wildcard" wildcard
    let grantee ← expectBytes 16 "grantee" grantee
    let issuer ← expectBytes 16 "issuer" issuer
    let tuple ← Tuple.make relationHash objectHashes wildcard grantee issuer
    let hlc ← expectBigInt hlc
    let signatures ← signatures.mapM (expectBytes 64 "signature")
    make tuple action hlc signatures
  | _ => throw (.error "payload must be an 8-element MessagePack array")

def fromPayload (decode : MsgPackDecode) (data : Bytes) : Except DecodeError Operation :=
  match decode data with
  | .error _ => throw .platform
  | .ok v => fromValue v

def toValue (op : Operation) : JsValue :=
  .array [.bytes op.tuple.issuer.val, .bytes op.tuple.grantee.val,
    .number (.finite op.action.byte.toNat), .bigint op.hlc, .bytes op.tuple.relationHash.val,
    .array (op.tuple.objectHashes.map fun h => .bytes h.val), .bool op.tuple.wildcard,
    .array (op.signatures.map fun s => .bytes s.val)]

def toPayload (encode : MsgPackEncode) (op : Operation) : Except DecodeError Bytes :=
  if op.signatures.isEmpty then
    throw (.error "Operation must be signed before payload serialization")
  else pure (encode op.toValue)

/-- What a signed operation is packed into is read back as that operation. -/
theorem fromValue_toValue {op : Operation} (h : op.signatures ≠ []) :
    fromValue op.toValue = .ok op := by
  obtain ⟨sig, sigs, hsigs⟩ := List.exists_cons_of_ne_nil h
  have hsigned : ((sig :: sigs).map fun s => JsValue.bytes s.val).mapM
      (expectBytes 64 "signature") = .ok (sig :: sigs) := mapM_expectBytes_val _ _
  have hhlc : (0 : ℤ) ≤ op.hlc ∧ (op.hlc : ℤ) ≤ maxHlc :=
    ⟨Int.natCast_nonneg _, Int.ofNat_le.mpr op.hlc_le⟩
  rw [toValue, hsigs]
  simp only [List.map_cons] at hsigned ⊢
  rw [fromValue, Action.ofValue_byte]
  simp only [bind, pure, Except.bind, Except.pure, expectBytes_val, mapElements,
    mapM_expectBytes_val, expectBool, Tuple.make, dif_pos op.tuple.segments_le, expectBigInt,
    JsValue.toBigInt, JsValue.joined, hsigned, make, dif_pos hhlc, Int.toNat_natCast, ← hsigs]

end Operation

end Dacar

import Dacar.Hlc
import Dacar.Namespace

/-!
# Tuples and Operations

A Tuple is the permission itself, an Operation a signed grant or revoke of one
at an HLC.  Both have a packed binary pre-image: the tuple's is the CRDT key, the
operation's is what the issuer signs.
-/

namespace Dacar

def maxSegments : ℕ := 0xff

/-- A hashed permission `(Object, Relation, Grantee, Issuer)`. -/
structure Tuple where
  relationHash : Hash
  objectHashes : List Hash
  wildcard : Bool
  grantee : Hash
  issuer : Hash
  segments_le : objectHashes.length ≤ maxSegments
  deriving DecidableEq

namespace Tuple

/-- The wildcard flag and the segment count, one byte each, before the segments. -/
def objectBytes (t : Tuple) : Bytes :=
  [if t.wildcard then 0x01 else 0x00, UInt8.ofNat t.objectHashes.length] ++
    t.objectHashes.flatMap Subtype.val

/-- Action and HLC are left out, so a grant and its revoke share a pre-image. -/
def preimage (t : Tuple) : Bytes :=
  t.issuer.val ++ (t.grantee.val ++ (t.relationHash.val ++ t.objectBytes))

/-- The JavaScript map key, `toHex(preimage)`; hex digits rename the bytes one to one. -/
def key (t : Tuple) : Bytes := t.preimage

theorem objectBytes_inj {s t : Tuple} (h : s.objectBytes = t.objectBytes) :
    s.wildcard = t.wildcard ∧ s.objectHashes = t.objectHashes := by
  simp only [objectBytes, List.cons_append, List.nil_append, List.cons.injEq] at h
  obtain ⟨hw, -, ho⟩ := h
  refine ⟨?_, Blob.flatMap_val_injective (by decide) ho⟩
  cases hs : s.wildcard <;> cases ht : t.wildcard <;> simp_all

theorem preimage_injective : Function.Injective preimage := by
  intro s t h
  obtain ⟨hi, h⟩ := Blob.append_inj h
  obtain ⟨hg, h⟩ := Blob.append_inj h
  obtain ⟨hr, h⟩ := Blob.append_inj h
  obtain ⟨hw, ho⟩ := objectBytes_inj h
  cases s
  cases t
  simp_all

theorem key_injective : Function.Injective key := preimage_injective

end Tuple

inductive Action
  | revoke
  | grant
  deriving DecidableEq

def Action.byte : Action → UInt8
  | .revoke => 0x00
  | .grant => 0x01

structure Operation where
  tuple : Tuple
  action : Action
  hlc : ℕ
  signatures : List Signature
  hlc_le : hlc ≤ maxHlc
  deriving DecidableEq

/-- What the issuer signs. -/
def Operation.preimage (op : Operation) : Bytes :=
  op.tuple.issuer.val ++ (op.tuple.grantee.val ++ (op.action.byte ::
    (bigEndian 8 op.hlc ++ (op.tuple.relationHash.val ++ op.tuple.objectBytes))))

end Dacar

import Dacar.WireValue

/-!
# Remembering who sent a Delta

A channel message carries the public key of its transport sender before the Delta.  The
receive path files that key in the RNS identity recall store, where the key resolver
looks it up by identity hash.  The two adapters choose the hash it is filed under
differently.
-/

namespace Dacar.Rfed

/-- `"RTID"` -/
def magicRtid : Bytes := [0x52, 0x54, 0x49, 0x44]

def magicLength : ℕ := 4

/-- The magic and the sender's public key. -/
def preludeLength : ℕ := magicLength + 64

/-- `DecodedDacarDelta`; the sender's identity is the one of the key. -/
structure DecodedDacarDelta where
  delta : Bytes
  senderPub : RnsPublicKey

/-- What `unwrapRawChannelMessage` of the rfed library hands to the JavaScript adapter. -/
structure DecodedRaw where
  payload : Bytes
  senderIdentityHash : Hash
  senderPub : RnsPublicKey

/-- The libraries under the two adapters. -/
structure Libraries where
  /-- `channel_identity.decrypt` -/
  decrypt : Bytes → Option Bytes
  /-- `serialization.unpackb` -/
  unpackb : Bytes → Option WireValue
  msgPackDecode : MsgPackDecode
  /-- `none` when it throws. -/
  unwrapRawChannelMessage : Bytes → Option DecodedRaw
  /-- The identity hash of a public key, `SHA-256(P)[:16]`. -/
  identityHash : RnsPublicKey → Hash

/-- `unwrap_dacar_delta` -/
def unwrapDacarDelta (lib : Libraries) (innerBlob : Bytes) : Except String DecodedDacarDelta :=
  match lib.decrypt innerBlob with
  | none => .error "rfed inner_blob EC-decryption failed (wrong channel?)"
  | some plaintext =>
    if h : plaintext.length < preludeLength then
      .error (s!"rfed prelude plaintext too short: {plaintext.length} bytes " ++
        s!"(need at least {preludeLength} for the RTID prelude)")
    else if plaintext.take magicLength ≠ magicRtid then
      .error s!"rfed prelude magic mismatch: expected \"RTID\", got {plaintext.take magicLength}"
    else
      .ok {
        delta := plaintext.drop preludeLength
        senderPub := ⟨(plaintext.drop magicLength).take 64, by
          simp only [preludeLength, magicLength] at h ⊢
          simp
          omega⟩ }

/-- A blob as it comes in: fanned out live, or as an item of a pull page, which may lack it. -/
inductive Received
  | fanout (innerBlob : Bytes)
  | pulled (blob : Option Bytes)

def Received.blob : Received → Option Bytes
  | .fanout innerBlob => some innerBlob
  | .pulled blob => blob

/-- An entry of the recall store: a hash and the key filed under it. -/
abbrev Remembered := Hash × RnsPublicKey

namespace Python

/-- Field `[0]` of a Delta, if it is an issuer hash. -/
def issuerField (lib : Libraries) (delta : Bytes) : Option Hash :=
  match lib.unpackb delta with
  | some (.array (.bin issuerHash :: _)) =>
    if h : issuerHash.length = 16 then some ⟨issuerHash, h⟩ else none
  | _ => none

/-- `RNS.Identity.remember(issuer_hash, issuer_hash, sender_pub, None)` -/
def rememberSender (lib : Libraries) (decoded : DecodedDacarDelta) (store : List Remembered) :
    List Remembered :=
  match issuerField lib decoded.delta with
  | some issuerHash => store ++ [(issuerHash, decoded.senderPub)]
  | none => store

def receive (lib : Libraries) (message : Received) (store : List Remembered) : List Remembered :=
  match message.blob with
  | none => store
  | some blob =>
    match unwrapDacarDelta lib blob with
    -- a foreign blob is dropped
    | .error _ => store
    | .ok decoded => rememberSender lib decoded store

end Python

namespace JavaScript

/-- `_rememberSender`: the field is looked at, but the key goes under its own hash. -/
def rememberSender (lib : Libraries) (hasRns : Bool) (decoded : DecodedRaw)
    (store : List Remembered) : List Remembered :=
  if !hasRns then store
  else
    match lib.msgPackDecode decoded.payload with
    | .ok (.array (.bytes issuerHash :: _)) =>
      if issuerHash.length = 16 then store ++ [(decoded.senderIdentityHash, decoded.senderPub)]
      else store
    | _ => store

def receive (lib : Libraries) (hasRns : Bool) (message : Received) (store : List Remembered) :
    List Remembered :=
  match message.blob with
  | none => store
  | some blob =>
    match lib.unwrapRawChannelMessage blob with
    | none => store
    | some decoded => rememberSender lib hasRns decoded store

end JavaScript

/-- An adapter; the JavaScript one remembers nobody when it has no Reticulum instance. -/
inductive Adapter
  | python
  | javascript (hasRns : Bool)

/-- One message through the receive path, as far as it touches the recall store. -/
def receive (lib : Libraries) : Adapter → Received → List Remembered → List Remembered
  | .python => Python.receive lib
  | .javascript hasRns => JavaScript.receive lib hasRns

/-- What a sequence of messages adds to the store. -/
def receiveAll (lib : Libraries) (adapter : Adapter) (messages : List Received) :
    List Remembered :=
  messages.foldl (fun store message => receive lib adapter message store) []

/-- Every key is filed under its own identity hash. -/
def Bound (lib : Libraries) (store : List Remembered) : Prop :=
  ∀ entry ∈ store, lib.identityHash entry.2 = entry.1

/-- The Delta names the key it came with: if it decrypts and begins with an issuer hash, that
is the identity hash of the sender's key. -/
def SentByIssuer (lib : Libraries) (message : Received) : Prop :=
  ∀ blob ∈ message.blob, ∀ decoded, unwrapDacarDelta lib blob = .ok decoded →
    ∀ issuerHash ∈ Python.issuerField lib decoded.delta,
      lib.identityHash decoded.senderPub = issuerHash

section Steps

variable {lib : Libraries} {store : List Remembered}

theorem bound_append {entry : Remembered} :
    Bound lib (store ++ [entry]) ↔ Bound lib store ∧ lib.identityHash entry.2 = entry.1 := by
  simp [Bound, or_imp, forall_and]

theorem python_receive_bound (message : Received) :
    Bound lib (Python.receive lib message store) ↔
      Bound lib store ∧ SentByIssuer lib message := by
  unfold Python.receive SentByIssuer
  cases message.blob with
  | none => simp
  | some blob =>
    cases hd : unwrapDacarDelta lib blob with
    | error e => simp [hd]
    | ok decoded =>
      unfold Python.rememberSender
      cases hi : Python.issuerField lib decoded.delta with
      | none => simp [hd, hi]
      | some issuerHash =>
        simp only [hd, hi, bound_append, Option.mem_some_iff, forall_eq', Except.ok.injEq]

theorem javascript_receive_bound
    (hunwrap : ∀ blob decoded, lib.unwrapRawChannelMessage blob = some decoded →
      decoded.senderIdentityHash = lib.identityHash decoded.senderPub)
    (hasRns : Bool) (message : Received) :
    Bound lib (JavaScript.receive lib hasRns message store) ↔ Bound lib store := by
  unfold JavaScript.receive
  cases message.blob with
  | none => rfl
  | some blob =>
    cases hd : lib.unwrapRawChannelMessage blob with
    | none => simp [hd]
    | some decoded =>
      have hkey := hunwrap blob decoded hd
      simp only [hd]
      unfold JavaScript.rememberSender
      split_ifs
      · rfl
      · split
        · split_ifs
          · simp [bound_append, hkey]
          · rfl
        · rfl

end Steps

theorem receiveAll_bound {lib : Libraries} {adapter : Adapter} {P : Received → Prop}
    (hstep : ∀ message store, Bound lib (receive lib adapter message store) ↔
      Bound lib store ∧ P message)
    (messages : List Received) :
    Bound lib (receiveAll lib adapter messages) ↔ ∀ message ∈ messages, P message := by
  induction messages using List.reverseRecOn with
  | nil => simp [receiveAll, Bound]
  | append_singleton messages message ih =>
    rw [receiveAll, List.foldl_append, ← receiveAll, List.foldl_cons, List.foldl_nil, hstep, ih]
    simp [or_imp, forall_and]

/-- The store stays bound exactly when the Python adapter is spared Deltas that were sent
on with another key than their issuer's. -/
theorem recall_bound_iff (lib : Libraries)
    (hunwrap : ∀ blob decoded, lib.unwrapRawChannelMessage blob = some decoded →
      decoded.senderIdentityHash = lib.identityHash decoded.senderPub)
    (adapter : Adapter) (messages : List Received) :
    Bound lib (receiveAll lib adapter messages) ↔
      (adapter = .python → ∀ message ∈ messages, SentByIssuer lib message) := by
  cases adapter with
  | python =>
    rw [receiveAll_bound fun message store => python_receive_bound message]
    simp
  | javascript hasRns =>
    have hstep (message store) : Bound lib (receive lib (.javascript hasRns) message store) ↔
        Bound lib store ∧ True :=
      (javascript_receive_bound hunwrap hasRns message).trans (and_iff_left trivial).symm
    rw [receiveAll_bound hstep]
    simp

/-! ## A member who relays

A member of the channel wraps a Delta of somebody else in its own prelude. -/

/-- Libraries for identities whose keys begin with their hash, on an open channel; a Delta
is the 16 bytes of its issuer field. -/
def relayLibraries : Libraries where
  decrypt := some
  unpackb delta := some (.array [.bin delta])
  msgPackDecode delta := .ok (.array [.bytes delta])
  unwrapRawChannelMessage innerBlob :=
    if h : 68 ≤ innerBlob.length then
      some {
        payload := innerBlob.drop 68
        senderIdentityHash := ⟨(innerBlob.drop 4).take 16, by simp; omega⟩
        senderPub := ⟨(innerBlob.drop 4).take 64, by simp; omega⟩ }
    else none
  identityHash key := ⟨key.val.take 16, by simp [key.property]⟩

/-- The Delta of identity `issuer`, sent on by identity `sender`. -/
def relayed (sender issuer : UInt8) : Received :=
  .fanout (magicRtid ++ (List.replicate 64 sender ++ List.replicate 16 issuer))

/-- The node remembers the member's key under the issuer's hash. -/
theorem member_key_under_issuer_hash :
    ¬ Bound relayLibraries (receiveAll relayLibraries .python [relayed 1 2]) := by
  unfold Bound
  decide

theorem relayLibraries_unwrap (blob : Bytes) (decoded : DecodedRaw)
    (h : relayLibraries.unwrapRawChannelMessage blob = some decoded) :
    decoded.senderIdentityHash = relayLibraries.identityHash decoded.senderPub := by
  simp only [relayLibraries] at h ⊢
  split_ifs at h
  cases h
  simp [List.take_take]

/-- The JavaScript adapter files the same message under the member's own hash. -/
theorem member_key_under_own_hash :
    Bound relayLibraries (receiveAll relayLibraries (.javascript true) [relayed 1 2]) :=
  (recall_bound_iff relayLibraries relayLibraries_unwrap (.javascript true) [relayed 1 2]).mpr
    nofun

end Dacar.Rfed

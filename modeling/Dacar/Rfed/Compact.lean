import Dacar.Fallible
import Dacar.RecallStore
import Dacar.Rfed.Stamp

/-!
# The compact channel message

A Delta travels over a channel behind the magic and the sender's public key, encrypted to the
channel, behind the channel hash, and before a stamp if the channel asks for one.
-/

namespace Dacar.Rfed

def hashLength : ℕ := 16

/-- An `RNS::Identity`: its hash, its public keys, and its encryption, which draws entropy. -/
structure Identity where
  hash : Hash
  publicKey : RnsPublicKey
  encrypt : Bytes → Bytes → Bytes
  /-- `none` where it fails. -/
  decrypt : Bytes → Option Bytes

/-- What is encrypted to the identity, the identity decrypts. -/
def Identity.Lawful (i : Identity) : Prop :=
  ∀ entropy plaintext, i.decrypt (i.encrypt entropy plaintext) = some plaintext

/-! ## Framing -/

structure FanoutPayload where
  channelHash : Bytes
  innerBlob : Bytes
  deriving DecidableEq

structure SendPayload where
  channelHash : Bytes
  innerBlob : Bytes
  stamp : Bytes
  deriving DecidableEq

def parseFanoutPayload (payload : Bytes) : Except String FanoutPayload :=
  if payload.length < hashLength then
    .error (s!"rfed fanout payload too short: {payload.length} bytes " ++
      s!"(need at least {hashLength})")
  else .ok { channelHash := payload.take hashLength, innerBlob := payload.drop hashLength }

def parseSendPayload (payload : Bytes) : Except String SendPayload :=
  let minLen := hashLength + stampSize
  if payload.length < minLen then
    .error (s!"rfed SEND payload too short: {payload.length} bytes " ++
      s!"(need at least {minLen})")
  else
    .ok {
      channelHash := payload.take hashLength
      innerBlob := (payload.drop hashLength).take (payload.length - hashLength - stampSize)
      stamp := payload.drop (payload.length - stampSize) }

theorem length_key {plaintext : Bytes} (h : ¬ plaintext.length < preludeLength) :
    ((plaintext.drop magicLength).take 64).length = 64 := by
  rw [List.length_take, List.length_drop]
  rw [preludeLength] at h
  omega

/-- The sender's keys, and what follows the prelude. -/
def verifyRtidPrelude (plaintext : Bytes) : Except String DecodedDacarDelta :=
  if h : plaintext.length < preludeLength then
    .error s!"rfed prelude plaintext too short: {plaintext.length} bytes"
  else if plaintext.take magicLength ≠ magicRtid then
    .error "rfed prelude magic mismatch: expected \"RTID\""
  else
    .ok {
      delta := plaintext.drop preludeLength
      senderPub := ⟨(plaintext.drop magicLength).take 64, length_key h⟩ }

/-! ## Wrapping -/

/-- The hashes of the identity library. -/
structure IdentityHashes where
  fullHash : Bytes → Blob 32
  truncatedHash : Bytes → Hash

/-- `lxmf.delivery`, in ASCII. -/
def lxmfDelivery : Bytes :=
  [0x6c, 0x78, 0x6d, 0x66, 0x2e, 0x64, 0x65, 0x6c, 0x69, 0x76, 0x65, 0x72, 0x79]

def deliveryHashFor (H : IdentityHashes) (identity : Identity) : Hash :=
  H.truncatedHash ((H.fullHash lxmfDelivery).val.take 10 ++ identity.hash.val)

structure RfedPayload where
  rfedPayload : Bytes
  channelHash : Hash
  channelDeliveryHash : Hash
  innerBlob : Bytes
  stamp : Option (Blob stampSize)

/-- A message with a stamp, or without. -/
def frame (channelHash channelDeliveryHash : Hash) (innerBlob : Bytes)
    (stamp : Option (Blob stampSize)) : RfedPayload where
  rfedPayload := channelHash.val ++ innerBlob ++ stamp.elim [] Subtype.val
  channelHash := channelHash
  channelDeliveryHash := channelDeliveryHash
  innerBlob := innerBlob
  stamp := stamp

def innerBlobOf (channel sender : Identity) (entropy delta : Bytes) : Bytes :=
  channel.encrypt entropy (magicRtid ++ sender.publicKey.val ++ delta)

/-- The rounds that a channel stamp is worked out in. -/
def stampExpandRounds : ℕ := 16

/-- `wrap_dacar_delta` in C++; the search throws when it finds no stamp. -/
def Cpp.wrapDacarDelta (H : StampHashes) (I : IdentityHashes) (random : ℕ → Blob stampSize)
    (channel sender : Identity) (entropy delta : Bytes) (stampCost : ℕ) :
    Except String RfedPayload :=
  let innerBlob := innerBlobOf channel sender entropy delta
  if stampCost > 0 then
    (generateChannelStamp H random channel.hash innerBlob stampCost stampExpandRounds).map fun s =>
      frame channel.hash (deliveryHashFor I channel) innerBlob (some s)
  else .ok (frame channel.hash (deliveryHashFor I channel) innerBlob none)

/-- What the Python port takes from the rfed package. -/
structure RfedPackage where
  generateChannelStamp : Hash → Bytes → ℕ → Except String (Blob stampSize)
  deliveryHashFor : Identity → Hash

/-- `wrap_dacar_delta` in Python. -/
def Python.wrapDacarDelta (rfed : RfedPackage) (channel sender : Identity) (entropy delta : Bytes)
    (stampCost : Option ℕ) : Except String RfedPayload :=
  let innerBlob := innerBlobOf channel sender entropy delta
  match stampCost with
  | some (cost + 1) => (rfed.generateChannelStamp channel.hash innerBlob (cost + 1)).map fun s =>
      frame channel.hash (rfed.deliveryHashFor channel) innerBlob (some s)
  | _ => .ok (frame channel.hash (rfed.deliveryHashFor channel) innerBlob none)

/-- `unwrap_dacar_delta` in C++; a failed decryption gives no bytes. -/
def Cpp.unwrapDacarDelta (innerBlob : Bytes) (channel : Identity) :
    Except String DecodedDacarDelta :=
  let plaintext := (channel.decrypt innerBlob).getD []
  if plaintext.isEmpty then .error "rfed inner_blob EC-decryption failed (wrong channel?)"
  else verifyRtidPrelude plaintext

/-! ## Reading a message back -/

section Framing

variable {channelHash : Hash} {innerBlob : Bytes}

theorem parseFanoutPayload_append (channelHash : Hash) (innerBlob : Bytes) :
    parseFanoutPayload (channelHash.val ++ innerBlob) = .ok ⟨channelHash.val, innerBlob⟩ := by
  have hlen : channelHash.val.length = hashLength := channelHash.property
  rw [parseFanoutPayload, if_neg (by rw [List.length_append, hlen]; omega), ← hlen,
    List.take_left, List.drop_left]

/-- The stamp is what is left of the end. -/
theorem parseSendPayload_append (channelHash : Hash) (innerBlob : Bytes) (stamp : Blob stampSize) :
    parseSendPayload (channelHash.val ++ innerBlob ++ stamp.val) =
      .ok ⟨channelHash.val, innerBlob, stamp.val⟩ := by
  have hhash : channelHash.val.length = hashLength := channelHash.property
  have hstamp : stamp.val.length = stampSize := stamp.property
  have hlen : (channelHash.val ++ innerBlob ++ stamp.val).length =
      hashLength + innerBlob.length + stampSize := by
    rw [List.length_append, List.length_append, hhash, hstamp]
  have hinner : hashLength + innerBlob.length + stampSize - hashLength - stampSize =
      innerBlob.length := by omega
  have hfront : hashLength + innerBlob.length + stampSize - stampSize =
      (channelHash.val ++ innerBlob).length := by
    rw [List.length_append, hhash]
    omega
  rw [parseSendPayload, if_neg (by rw [hlen]; omega), hlen, hinner, hfront, List.drop_left,
    List.append_assoc, ← hhash, List.take_left, List.drop_left, List.take_left]

end Framing

section Prelude

/-- What stands in a plaintext: the magic, the sender's keys, the Delta. -/
def plaintextOf (d : DecodedDacarDelta) : Bytes := magicRtid ++ (d.senderPub.val ++ d.delta)

theorem take_magic (d : DecodedDacarDelta) : (plaintextOf d).take magicLength = magicRtid :=
  List.take_left' rfl

theorem drop_magic (d : DecodedDacarDelta) :
    (plaintextOf d).drop magicLength = d.senderPub.val ++ d.delta := List.drop_left' rfl

theorem drop_prelude (d : DecodedDacarDelta) : (plaintextOf d).drop preludeLength = d.delta := by
  rw [preludeLength, ← List.drop_drop, drop_magic]
  exact List.drop_left' d.senderPub.property

theorem take_key (d : DecodedDacarDelta) :
    ((plaintextOf d).drop magicLength).take 64 = d.senderPub.val := by
  rw [drop_magic]
  exact List.take_left' d.senderPub.property

theorem length_plaintextOf (d : DecodedDacarDelta) :
    (plaintextOf d).length = preludeLength + d.delta.length := by
  have hkey : d.senderPub.val.length = 64 := d.senderPub.property
  rw [plaintextOf, List.length_append, List.length_append, hkey, preludeLength, Nat.add_assoc]
  rfl

/-- A plaintext that is long enough and has the magic is made of its parts. -/
theorem plaintext_eq {plaintext : Bytes} (h : plaintext.take magicLength = magicRtid) :
    plaintext = magicRtid ++ ((plaintext.drop magicLength).take 64 ++
      plaintext.drop preludeLength) := by
  have hrest : (plaintext.drop magicLength).take 64 ++ plaintext.drop preludeLength =
      plaintext.drop magicLength := by
    rw [preludeLength, ← List.drop_drop]
    exact List.take_append_drop 64 _
  rw [hrest, ← h, List.take_append_drop]

theorem verifyRtidPrelude_eq_ok {plaintext : Bytes} {d : DecodedDacarDelta} :
    verifyRtidPrelude plaintext = .ok d ↔ plaintext = plaintextOf d := by
  constructor
  · intro h
    unfold verifyRtidPrelude at h
    split_ifs at h with hshort hmagic
    obtain rfl := Except.ok.inj h
    exact plaintext_eq (not_not.mp hmagic)
  · rintro rfl
    have hlong : ¬ (plaintextOf d).length < preludeLength := by
      rw [length_plaintextOf]
      omega
    rw [verifyRtidPrelude, dif_neg hlong, if_neg (not_not.mpr (take_magic d))]
    simp only [drop_prelude, take_key]

/-- The C++ port unwraps just what decrypts to a prelude and a Delta. -/
theorem Cpp.unwrapDacarDelta_eq_ok {innerBlob : Bytes} {channel : Identity}
    {d : DecodedDacarDelta} :
    unwrapDacarDelta innerBlob channel = .ok d ↔
      channel.decrypt innerBlob = some (plaintextOf d) := by
  have hne : ¬ (plaintextOf d).isEmpty = true := by
    rw [plaintextOf]
    simp [magicRtid]
  unfold unwrapDacarDelta
  cases channel.decrypt innerBlob with
  | none => exact iff_of_false (fun h => by cases h) (fun h => by cases h)
  | some plaintext =>
    dsimp only
    rw [Option.getD_some, Option.some.injEq]
    split_ifs with hempty
    · refine iff_of_false (fun h => by cases h) ?_
      rintro rfl
      exact hne hempty
    · exact verifyRtidPrelude_eq_ok

/-- So does the Python port. -/
theorem unwrapDacarDelta_eq_ok {lib : Libraries} {innerBlob : Bytes} {d : DecodedDacarDelta} :
    unwrapDacarDelta lib innerBlob = .ok d ↔ lib.decrypt innerBlob = some (plaintextOf d) := by
  unfold unwrapDacarDelta
  cases lib.decrypt innerBlob with
  | none => exact iff_of_false (fun h => by cases h) (fun h => by cases h)
  | some plaintext =>
    dsimp only
    rw [Option.some.injEq]
    constructor
    · intro h
      split_ifs at h with hshort hmagic
      obtain rfl := Except.ok.inj h
      exact plaintext_eq (not_not.mp hmagic)
    · rintro rfl
      have hlong : ¬ (plaintextOf d).length < preludeLength := by
        rw [length_plaintextOf]
        omega
      rw [dif_neg hlong, if_neg (not_not.mpr (take_magic d))]
      simp only [drop_prelude, take_key]

end Prelude

/-! ## From one port to another -/

/-- What a port wraps. -/
structure Wraps (channel sender : Identity) (entropy delta : Bytes) (cost : ℕ)
    (p : RfedPayload) : Prop where
  channelHash : p.channelHash = channel.hash
  innerBlob : p.innerBlob = innerBlobOf channel sender entropy delta
  rfedPayload : p.rfedPayload = p.channelHash.val ++ p.innerBlob ++ p.stamp.elim [] Subtype.val
  stamped : p.stamp.isSome = true ↔ 0 < cost

theorem Cpp.wraps {H : StampHashes} {I : IdentityHashes} {random : ℕ → Blob stampSize}
    {channel sender : Identity} {entropy delta : Bytes} {cost : ℕ} {p : RfedPayload}
    (h : wrapDacarDelta H I random channel sender entropy delta cost = .ok p) :
    Wraps channel sender entropy delta cost p ∧
      ∀ stamp ∈ p.stamp, generateChannelStamp H random channel.hash p.innerBlob cost
        stampExpandRounds = .ok stamp := by
  unfold wrapDacarDelta at h
  dsimp only at h
  split_ifs at h with hcost
  · obtain ⟨stamp, hstamp, rfl⟩ := Fallible.map_eq_ok.mp h
    exact ⟨⟨rfl, rfl, rfl, iff_of_true rfl hcost⟩, by rintro _ ⟨⟩; exact hstamp⟩
  · obtain rfl := Except.ok.inj h
    exact ⟨⟨rfl, rfl, rfl, iff_of_false (fun h => by cases h) hcost⟩, fun _ h => by cases h⟩

theorem Python.wraps {rfed : RfedPackage} {channel sender : Identity} {entropy delta : Bytes}
    {cost : Option ℕ} {p : RfedPayload}
    (h : wrapDacarDelta rfed channel sender entropy delta cost = .ok p) :
    Wraps channel sender entropy delta (cost.getD 0) p := by
  unfold wrapDacarDelta at h
  dsimp only at h
  rcases cost with _ | _ | cost
  · obtain rfl := Except.ok.inj h
    exact ⟨rfl, rfl, rfl, iff_of_false (fun h => by cases h) (Nat.lt_irrefl 0)⟩
  · obtain rfl := Except.ok.inj h
    exact ⟨rfl, rfl, rfl, iff_of_false (fun h => by cases h) (Nat.lt_irrefl 0)⟩
  · obtain ⟨stamp, -, rfl⟩ := Fallible.map_eq_ok.mp h
    exact ⟨rfl, rfl, rfl, iff_of_true rfl (Nat.succ_pos cost)⟩

/-- The message of a Delta comes apart again: its frame into the channel hash, the blob and the
stamp, and the blob, in either port, into the Delta and the sender's keys. -/
structure ComesApart (channel sender : Identity) (delta : Bytes) (cost : ℕ) (p : RfedPayload) :
    Prop where
  unstamped : cost = 0 → parseFanoutPayload p.rfedPayload = .ok ⟨channel.hash.val, p.innerBlob⟩
  stamped : 0 < cost → ∃ stamp ∈ p.stamp,
    parseSendPayload p.rfedPayload = .ok ⟨channel.hash.val, p.innerBlob, stamp.val⟩
  /-- As the node fans it out, without the stamp. -/
  fanout : parseFanoutPayload (p.channelHash.val ++ p.innerBlob) =
    .ok ⟨channel.hash.val, p.innerBlob⟩
  cpp : Cpp.unwrapDacarDelta p.innerBlob channel = .ok ⟨delta, sender.publicKey⟩
  python : ∀ lib : Libraries, lib.decrypt = channel.decrypt →
    unwrapDacarDelta lib p.innerBlob = .ok ⟨delta, sender.publicKey⟩

theorem Wraps.comesApart {channel sender : Identity} (hchannel : channel.Lawful)
    {entropy delta : Bytes} {cost : ℕ} {p : RfedPayload}
    (h : Wraps channel sender entropy delta cost p) : ComesApart channel sender delta cost p := by
  have hdecrypt : channel.decrypt p.innerBlob =
      some (plaintextOf ⟨delta, sender.publicKey⟩) := by
    rw [h.innerBlob, innerBlobOf, hchannel, List.append_assoc]
    rfl
  refine ⟨fun hcost => ?_, fun hcost => ?_, ?_, Cpp.unwrapDacarDelta_eq_ok.mpr hdecrypt,
    fun lib hlib => unwrapDacarDelta_eq_ok.mpr (hlib ▸ hdecrypt)⟩
  · have hnone : p.stamp = none := by
      rw [← Option.not_isSome_iff_eq_none, h.stamped, hcost]
      exact Nat.lt_irrefl 0
    rw [h.rfedPayload, hnone, Option.elim_none, List.append_nil, h.channelHash,
      parseFanoutPayload_append]
  · obtain ⟨stamp, hstamp⟩ := Option.isSome_iff_exists.mp (h.stamped.mpr hcost)
    refine ⟨stamp, hstamp, ?_⟩
    rw [h.rfedPayload, hstamp, Option.elim_some, h.channelHash, parseSendPayload_append]
  · rw [h.channelHash, parseFanoutPayload_append]

/-- A Delta that a port wraps is the Delta that either port unwraps, and a stamp that the C++
port searched is valid for the blob. -/
theorem wrapped_delta_unwraps (H : StampHashes) (I : IdentityHashes)
    (random : ℕ → Blob stampSize) (rfed : RfedPackage) {channel : Identity}
    (hchannel : channel.Lawful) (sender : Identity) (entropy delta : Bytes) (p : RfedPayload) :
    (∀ cost, Cpp.wrapDacarDelta H I random channel sender entropy delta cost = .ok p →
      ComesApart channel sender delta cost p ∧ ∀ stamp ∈ p.stamp,
        validateChannelStamp H channel.hash p.innerBlob stamp.val cost stampExpandRounds = true) ∧
    ∀ cost, Python.wrapDacarDelta rfed channel sender entropy delta cost = .ok p →
      ComesApart channel sender delta (cost.getD 0) p := by
  constructor
  · intro cost h
    obtain ⟨hwraps, hstamp⟩ := Cpp.wraps h
    refine ⟨hwraps.comesApart hchannel, fun stamp hmem => ?_⟩
    obtain ⟨trial, -, -, hvalid, -⟩ := (searchStamp_eq_ok _ _).mp (hstamp stamp hmem)
    exact validateChannelStamp_iff.mpr ⟨stamp.property.ge, stampValid_iff.mp hvalid⟩
  · exact fun cost h => (Python.wraps h).comesApart hchannel

section Stamped

/-- A channel that masks every byte. -/
def maskChannel : Identity where
  hash := Blob.fill 16 1
  publicKey := Blob.fill 64 2
  encrypt _ plaintext := plaintext.map (· ^^^ 0x5a)
  decrypt blob := some (blob.map (· ^^^ 0x5a))

theorem maskChannel_lawful : maskChannel.Lawful := by
  intro _ plaintext
  simp [maskChannel, Function.comp_def]

/-- Hashes with four zero bits in front where the last byte is a one, and else with none. -/
def payHashes : StampHashes where
  sha256 message := if message.getLast? = some 1 then Blob.fill 32 0x0f else Blob.fill 32 0xff
  hkdf _ _ salt := salt

def maskHashes : IdentityHashes := ⟨fun _ => Blob.fill 32 0, fun _ => Blob.fill 16 0⟩

/-- The draws count up. -/
def draws (trial : ℕ) : Blob stampSize := Blob.fill 32 (UInt8.ofNat trial)

/-- The Delta `7` at a cost of four bits, which the second draw pays. -/
def stampedDelta : RfedPayload :=
  frame maskChannel.hash (Blob.fill 16 0) (innerBlobOf maskChannel maskChannel [] [7])
    (some (Blob.fill 32 1))

theorem wrap_stampedDelta :
    Cpp.wrapDacarDelta payHashes maskHashes draws maskChannel maskChannel [] [7] 4 =
      .ok stampedDelta := by
  have hfound : generateChannelStamp payHashes draws maskChannel.hash
      (innerBlobOf maskChannel maskChannel [] [7]) 4 stampExpandRounds = .ok (draws 1) := by
    refine (searchStamp_eq_ok _ _).mpr ⟨1, by norm_num [maxTrials], rfl, by decide +kernel, ?_⟩
    intro j hj
    obtain rfl := Nat.lt_one_iff.mp hj
    decide +kernel
  rw [Cpp.wrapDacarDelta, hfound]
  rfl

theorem wrapped_delta_unwraps_stamped :
    Cpp.unwrapDacarDelta stampedDelta.innerBlob maskChannel = .ok ⟨[7], Blob.fill 64 2⟩ ∧
      validateChannelStamp payHashes maskChannel.hash stampedDelta.innerBlob
        (Blob.fill 32 1).val 4 stampExpandRounds = true := by
  obtain ⟨happart, hstamp⟩ := (wrapped_delta_unwraps payHashes maskHashes draws
    ⟨fun _ _ _ => .error "", fun _ => Blob.fill 16 0⟩ maskChannel_lawful maskChannel [] [7]
    stampedDelta).1 4 wrap_stampedDelta
  exact ⟨happart.cpp, hstamp _ rfl⟩

end Stamped

end Dacar.Rfed

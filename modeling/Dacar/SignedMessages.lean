import Dacar.Challenge

/-!
# What an identity signs

One signing key serves three formats: Operations, Freshness Receipts and the rfed
channel subscriptions.  Nothing in them names the format; they are told apart by
their lengths, and within one format the bytes determine the fields.
-/

namespace Dacar

namespace Operation

theorem preimage_inj {op op' : Operation} (h : op.preimage = op'.preimage) :
    op.tuple = op'.tuple ∧ op.action = op'.action ∧ op.hlc = op'.hlc := by
  obtain ⟨hissuer, h⟩ := Blob.append_inj h
  obtain ⟨hgrantee, h⟩ := Blob.append_inj h
  obtain ⟨hbyte, h⟩ := List.cons.inj h
  have hlen : (bigEndian 8 op.hlc).length = (bigEndian 8 op'.hlc).length := by simp
  have hhlc := List.append_inj_left h hlen
  obtain ⟨hrelation, h⟩ := Blob.append_inj (List.append_inj_right h hlen)
  obtain ⟨hwildcard, hobject⟩ := Tuple.objectBytes_inj h
  have hle := op.hlc_le
  have hle' := op'.hlc_le
  simp only [maxHlc] at hle hle'
  refine ⟨?_, ?_, bigEndian_injective (by omega) (by omega) hhlc⟩
  · cases htuple : op.tuple
    cases htuple' : op'.tuple
    simp_all
  · cases haction : op.action <;> cases haction' : op'.action <;> simp_all [Action.byte]

/-- `16 + 16 + 1 + 8 + 16 + 1 + 1` bytes and 16 more for each segment. -/
theorem preimage_length (op : Operation) :
    op.preimage.length = 59 + 16 * op.tuple.objectHashes.length := by
  have hsegments : (op.tuple.objectHashes.flatMap Subtype.val).length =
      16 * op.tuple.objectHashes.length := by
    rw [List.length_flatMap, List.map_congr_left fun h _ => h.property, List.map_const',
      List.sum_replicate, smul_eq_mul, Nat.mul_comm]
  simp only [preimage, Tuple.objectBytes, List.length_append, List.length_cons, List.length_nil,
    hsegments, bigEndian_length, op.tuple.issuer.property, op.tuple.grantee.property,
    op.tuple.relationHash.property]
  omega

end Operation

theorem Receipt.preimage_length (r : Receipt) : r.preimage.length = 41 := by
  simp [Receipt.preimage, r.nonce.property]

/-- `identity.sign(channel_hash)`: a subscription signs the bare channel hash. -/
def channelMessage (channelHash : Hash) : Bytes := channelHash.val

theorem channelMessage_length (channelHash : Hash) : (channelMessage channelHash).length = 16 :=
  channelHash.property

/-! ## The C++ writers

They shift the HLC byte by byte where the others call a library. -/

namespace Cpp

/-- `(uint8_t)((hlc >> shift) & 0xFF)` for the shifts 56, 48, …, 0. -/
def hlcBytes (hlc : ℕ) : Bytes :=
  [56, 48, 40, 32, 24, 16, 8, 0].map fun shift => UInt8.ofNat ((hlc >>> shift) &&& 0xff)

def operationPreimage (op : Operation) : Bytes :=
  op.tuple.issuer.val ++ op.tuple.grantee.val ++ [op.action.byte] ++ hlcBytes op.hlc ++
    op.tuple.relationHash.val ++ [if op.tuple.wildcard then 0x01 else 0x00] ++
    [UInt8.ofNat op.tuple.objectHashes.length] ++ op.tuple.objectHashes.flatMap Subtype.val

def receiptPreimage (r : Receipt) : Bytes :=
  [r.verdict.byte] ++ hlcBytes r.serverHlc ++ r.nonce.val

theorem and_ff (b : UInt8) : b &&& 0xff = b := by
  apply UInt8.toNat_inj.mp
  rw [UInt8.toNat_and]
  have hmod : b.toNat &&& 0xff = b.toNat % 256 := Nat.and_two_pow_sub_one_eq_mod b.toNat 8
  exact hmod.trans (Nat.mod_eq_of_lt b.toNat_lt)

theorem hlcBytes_eq (hlc : ℕ) : hlcBytes hlc = bigEndian 8 hlc := by
  simp [hlcBytes, bigEndian, and_ff, Nat.shiftRight_eq_div_pow, Nat.div_div_eq_div_mul]

theorem operationPreimage_eq (op : Operation) : operationPreimage op = op.preimage := by
  simp [operationPreimage, Operation.preimage, Tuple.objectBytes, hlcBytes_eq]

theorem receiptPreimage_eq (r : Receipt) : receiptPreimage r = r.preimage := by
  simp [receiptPreimage, Receipt.preimage, hlcBytes_eq]

end Cpp

/-! ## The three formats together -/

inductive SignedMessage
  | operation (op : Operation)
  | receipt (r : Receipt)
  | subscription (channelHash : Hash)

namespace SignedMessage

/-- The bytes that are signed. -/
def bytes : SignedMessage → Bytes
  | .operation op => op.preimage
  | .receipt r => r.preimage
  | .subscription channelHash => channelMessage channelHash

/-- What the message says, its own signatures left out. -/
def content : SignedMessage → SignedMessage
  | .operation op => .operation { op with signatures := [] }
  | .receipt r => .receipt { r with signature := none }
  | .subscription channelHash => .subscription channelHash

theorem operation_ne_receipt (op : Operation) (r : Receipt) : op.preimage ≠ r.preimage := by
  intro h
  have hlen := congrArg List.length h
  rw [op.preimage_length, r.preimage_length] at hlen
  omega

theorem operation_ne_subscription (op : Operation) (channelHash : Hash) :
    op.preimage ≠ channelMessage channelHash := by
  intro h
  have hlen := congrArg List.length h
  rw [op.preimage_length, channelMessage_length] at hlen
  omega

theorem receipt_ne_subscription (r : Receipt) (channelHash : Hash) :
    r.preimage ≠ channelMessage channelHash := by
  intro h
  have hlen := congrArg List.length h
  rw [r.preimage_length, channelMessage_length] at hlen
  omega

/-- One case for each pair of formats: the lengths exclude the mixed ones. -/
theorem content_eq_of_bytes_eq {a b : SignedMessage} (h : a.bytes = b.bytes) :
    a.content = b.content := by
  cases a with
  | operation op =>
    cases b with
    | operation op' =>
      obtain ⟨htuple, haction, hhlc⟩ := Operation.preimage_inj h
      simp [content, htuple, haction, hhlc]
    | receipt r => exact absurd h (operation_ne_receipt op r)
    | subscription channelHash => exact absurd h (operation_ne_subscription op channelHash)
  | receipt r =>
    cases b with
    | operation op => exact absurd h.symm (operation_ne_receipt op r)
    | receipt r' =>
      obtain ⟨hverdict, hhlc, hnonce⟩ := Receipt.preimage_inj h
      simp [content, hverdict, hhlc, hnonce]
    | subscription channelHash => exact absurd h (receipt_ne_subscription r channelHash)
  | subscription channelHash =>
    cases b with
    | operation op => exact absurd h.symm (operation_ne_subscription op channelHash)
    | receipt r => exact absurd h.symm (receipt_ne_subscription r channelHash)
    | subscription channelHash' => rw [content, content, Subtype.ext h]

/-- Pre-images determine what they are made of, in each format and across them.  So a
signature that is good for one byte string only authenticates one message only. -/
theorem signatures_do_not_transfer :
    (∀ op op' : Operation, op.preimage = op'.preimage →
      op.tuple = op'.tuple ∧ op.action = op'.action ∧ op.hlc = op'.hlc) ∧
    (∀ s t : Tuple, s.preimage = t.preimage → s = t) ∧
    (∀ (op : Operation) (r : Receipt), op.preimage ≠ r.preimage) ∧
    (∀ (op : Operation) (channelHash : Hash), op.preimage ≠ channelMessage channelHash) ∧
    ∀ (ed25519 : Ed25519) (publicKey : SigningKey) (sig : Signature),
      (∀ m m', ed25519 publicKey m sig = true → ed25519 publicKey m' sig = true → m = m') →
      ∀ a b : SignedMessage, ed25519 publicKey a.bytes sig = true →
        ed25519 publicKey b.bytes sig = true → a.content = b.content := by
  refine ⟨fun _ _ => Operation.preimage_inj, fun s t h => Tuple.preimage_injective h,
    operation_ne_receipt, operation_ne_subscription, ?_⟩
  intro ed25519 publicKey sig hbinding a b ha hb
  exact content_eq_of_bytes_eq (hbinding _ _ ha hb)

end SignedMessage

end Dacar

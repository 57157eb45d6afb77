import Dacar.GreedyMatch
import Dacar.Operation

/-!
# Threshold signatures

An Operation of an issuer with threshold `N` carries exactly `N` signatures over its
pre-image, each valid under a different member of the issuer's keyset.  The three ports
tell members apart by different things: JavaScript by the 64-byte RNS public key,
Python by the 32-byte Ed25519 key, C++ by the position in the list.
-/

namespace Dacar

/-- Ed25519 verification of a signature on a message, the platform's. -/
abbrev Ed25519 := SigningKey → Bytes → Signature → Bool

open GreedyMatch

variable (ed25519 : Ed25519)

/-- Which keys a signature of this operation is valid under. -/
def Operation.validUnder (op : Operation) (key : SigningKey) (sig : Signature) : Bool :=
  ed25519 key op.preimage sig

/-- `used` holds 64-byte keys; `validate` looks at the Ed25519 half only. -/
def Operation.verifyThreshold (op : Operation) (memberPublicKeys : List RnsPublicKey)
    (threshold : ℤ) : Bool :=
  GreedyMatch.threshold id (fun m sig => op.validUnder ed25519 m.ed25519 sig) memberPublicKeys
    op.signatures threshold

/-- Python: `used` holds raw Ed25519 keys. -/
def Python.verifyThreshold (op : Operation) (memberPublicKeys : List SigningKey) (threshold : ℤ) :
    Bool :=
  GreedyMatch.threshold id (fun m sig => op.validUnder ed25519 m sig) memberPublicKeys
    op.signatures threshold

/-- C++: `used[i]` marks positions. -/
def Cpp.verifyThreshold (op : Operation) (memberPublicKeys : List SigningKey) (threshold : ℤ) :
    Bool :=
  GreedyMatch.threshold Prod.snd (fun m sig => op.validUnder ed25519 m.1 sig)
    memberPublicKeys.zipIdx op.signatures threshold

/-- Public keys of one issuer: one for an identity, `M ≥ N` for a Threshold Group. -/
structure IssuerKeyset where
  memberPublicKeys : List RnsPublicKey
  threshold : ℕ
  threshold_pos : 1 ≤ threshold
  enough : threshold ≤ memberPublicKeys.length

def Operation.verifyKeyset (op : Operation) (keyset : IssuerKeyset) : Bool :=
  op.verifyThreshold ed25519 keyset.memberPublicKeys keyset.threshold

/-! ## Who really signed -/

section Authenticity

variable {op : Operation} {members : List SigningKey} {N : ℤ}

/-- The operation carries exactly `N` signatures of `N` different signing keys, and every
set of that kind is accepted if no signature is valid under two keys. -/
abbrev ThresholdAuthentic {μ : Type*} (half : μ → SigningKey) (members : List μ) (op : Operation)
    (N : ℤ) (verdict : Bool) : Prop :=
  Authentic half (op.validUnder ed25519) members op.signatures N verdict

/-- Two of the signatures are by one signing key, which has as many tags among the members. -/
abbrev SignedTwice {μ τ : Type*} [DecidableEq τ] (half : μ → SigningKey) (tag : μ → τ)
    (members : List μ) (op : Operation) (N : ℤ) : Prop :=
  Doubled half tag (op.validUnder ed25519) members op.signatures N

theorem zipIdx_tag_fixes_key (members : List SigningKey) :
    ∀ m ∈ members.zipIdx, ∀ m' ∈ members.zipIdx, m.2 = m'.2 → m.1 = m'.1 := by
  rintro ⟨k, i⟩ hm ⟨k', j⟩ hm' (rfl : i = j)
  have h := List.mem_zipIdx_iff_getElem?.mp hm
  have h' := List.mem_zipIdx_iff_getElem?.mp hm'
  exact Option.some.inj (h.symm.trans h')

theorem zipIdx_key_fixes_tag (hn : members.Nodup) :
    ∀ m ∈ members.zipIdx, ∀ m' ∈ members.zipIdx, m.1 = m'.1 → m.2 = m'.2 := by
  rintro ⟨k, i⟩ hm ⟨k', j⟩ hm' (rfl : k = k')
  have h := List.mem_zipIdx_iff_getElem?.mp hm
  have h' := List.mem_zipIdx_iff_getElem?.mp hm'
  exact (List.getElem?_inj (List.getElem?_eq_some_iff.mp h).1 hn).mp (h.trans h'.symm)

/-- Positions aside, the indexed members have the keys of the list. -/
theorem authentic_zipIdx {verdict : Bool} :
    ThresholdAuthentic ed25519 Prod.fst members.zipIdx op N verdict ↔
      ThresholdAuthentic ed25519 id members op N verdict := by
  have hkeys : ∀ k : SigningKey, (∃ m ∈ members.zipIdx, m.1 = k) ↔ ∃ m ∈ members, id m = k := by
    intro k
    constructor
    · rintro ⟨⟨m, i⟩, hm, rfl⟩
      exact ⟨m, List.fst_mem_of_mem_zipIdx hm, rfl⟩
    · rintro ⟨m, hm, rfl⟩
      obtain ⟨i, hi⟩ := List.mem_iff_getElem?.mp hm
      exact ⟨(m, i), List.mem_zipIdx_iff_getElem?.mpr hi, rfl⟩
  have hdist : DistinctKeys Prod.fst (op.validUnder ed25519) members.zipIdx op.signatures ↔
      DistinctKeys id (op.validUnder ed25519) members op.signatures := by
    unfold DistinctKeys
    simp only [hkeys]
  constructor
  · exact fun h => ⟨fun hv => (h.sound hv).imp_right hdist.mp,
      fun hu hn hl hd => h.complete hu hn hl (hdist.mpr hd)⟩
  · exact fun h => ⟨fun hv => (h.sound hv).imp_right hdist.mpr,
      fun hu hn hl hd => h.complete hu hn hl (hdist.mp hd)⟩

end Authenticity

/-- Python is always authentic.  JavaScript and C++ are when no Ed25519 key occurs in two
members; and, where no signature is valid under two keys, exactly when no signing key that
signed twice has that many members. -/
theorem threshold_authenticity (op : Operation) (N : ℤ) :
    (∀ members : List SigningKey, ThresholdAuthentic ed25519 id members op N
      (Python.verifyThreshold ed25519 op members N)) ∧
    (∀ members : List RnsPublicKey,
      ((∀ m ∈ members, ∀ m' ∈ members, m.ed25519 = m'.ed25519 → m = m') →
        ThresholdAuthentic ed25519 RnsPublicKey.ed25519 members op N
          (op.verifyThreshold ed25519 members N)) ∧
      (UniquelyValid (op.validUnder ed25519) op.signatures →
        (ThresholdAuthentic ed25519 RnsPublicKey.ed25519 members op N
          (op.verifyThreshold ed25519 members N) ↔
            ¬ SignedTwice ed25519 RnsPublicKey.ed25519 id members op N))) ∧
    (∀ members : List SigningKey,
      (members.Nodup → ThresholdAuthentic ed25519 id members op N
        (Cpp.verifyThreshold ed25519 op members N)) ∧
      (UniquelyValid (op.validUnder ed25519) op.signatures →
        (ThresholdAuthentic ed25519 id members op N (Cpp.verifyThreshold ed25519 op members N) ↔
          ¬ SignedTwice ed25519 Prod.fst Prod.snd members.zipIdx op N))) := by
  refine ⟨fun members => ?_, fun members => ⟨fun hkey => ?_, fun huniq => ?_⟩,
    fun members => ⟨fun hn => ?_, fun huniq => ?_⟩⟩
  · exact authentic_of_key_fixes_tag (fun _ _ _ _ h => h) fun _ _ _ _ h => h
  · exact authentic_of_key_fixes_tag (fun _ _ _ _ h => congrArg _ h) hkey
  · exact authentic_iff_not_doubled (fun _ _ _ _ h => congrArg _ h) huniq
  · exact (authentic_zipIdx ed25519).mp
      (authentic_of_key_fixes_tag (zipIdx_tag_fixes_key members) (zipIdx_key_fixes_tag hn))
  · rw [← authentic_zipIdx]
    exact authentic_iff_not_doubled (zipIdx_tag_fixes_key members) huniq

/-! ## One signer counted twice -/

section SignedTwice

/-- Key 7 signs, and only its signature 9 verifies. -/
def onlyKey : Ed25519 := fun key _ sig =>
  decide (key = Blob.fill 32 7) && decide (sig = Blob.fill 64 9)

/-- Two RNS public keys with the Ed25519 half 7. -/
def sameHalf : List RnsPublicKey :=
  [⟨List.replicate 32 1 ++ List.replicate 32 7, by simp⟩,
    ⟨List.replicate 32 2 ++ List.replicate 32 7, by simp⟩]

/-- One signature, carried twice. -/
def signedTwice : Operation where
  tuple := {
    relationHash := Blob.fill 16 0
    objectHashes := []
    wildcard := true
    grantee := Blob.fill 16 1
    issuer := Blob.fill 16 2
    segments_le := Nat.zero_le _ }
  action := .grant
  hlc := 0
  signatures := [Blob.fill 64 9, Blob.fill 64 9]
  hlc_le := Nat.zero_le _

theorem onlyKey_uniquelyValid (op : Operation) :
    UniquelyValid (op.validUnder onlyKey) op.signatures := by
  intro s _ k k' hk hk'
  simp only [Operation.validUnder, onlyKey, Bool.and_eq_true, decide_eq_true_eq] at hk hk'
  exact hk.1.trans hk'.1.symm

/-- Both signatures are by key 7, so no two distinct keys sign them. -/
theorem signedTwice_not_distinct {μ : Type*} (half : μ → SigningKey) (members : List μ) :
    ¬ DistinctKeys half (signedTwice.validUnder onlyKey) members signedTwice.signatures := by
  intro h
  have hone := (distinctKeys_iff (onlyKey_uniquelyValid signedTwice) h.exists_member).mp h
    (Blob.fill 32 7)
  have htwo : signedTwice.signatures.countP
      (signedTwice.validUnder onlyKey (Blob.fill 32 7)) = 2 := by decide +kernel
  omega

/-- A keyset with the signing key twice, and a keyset with two RNS keys that share it, each
accept the one signature as two. -/
theorem one_signer_meets_threshold :
    (signedTwice.verifyThreshold onlyKey sameHalf 2 = true ∧
      ¬ DistinctKeys RnsPublicKey.ed25519 (signedTwice.validUnder onlyKey) sameHalf
        signedTwice.signatures) ∧
    (Cpp.verifyThreshold onlyKey signedTwice [Blob.fill 32 7, Blob.fill 32 7] 2 = true ∧
      ¬ DistinctKeys id (signedTwice.validUnder onlyKey) [Blob.fill 32 7, Blob.fill 32 7]
        signedTwice.signatures) :=
  ⟨⟨by decide +kernel, signedTwice_not_distinct _ _⟩,
    ⟨by decide +kernel, signedTwice_not_distinct _ _⟩⟩

end SignedTwice

end Dacar

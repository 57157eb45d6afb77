import Mathlib

/-!
# Byte strings

Every identifier the protocol exchanges is a byte string of a fixed length.  A
`Blob n` carries that length with it, so a hash, a salt or a signature of the
wrong size cannot be built and the constructors of the source that throw on one
have nothing left to check.
-/

namespace Dacar

abbrev Bytes := List UInt8

/-- A byte string of exactly `n` bytes. -/
abbrev Blob (n : ℕ) := {b : Bytes // b.length = n}

/-- A label hash, an RNS identity hash or a Group ID. -/
abbrev Hash := Blob 16

/-- A Privacy Salt. -/
abbrev Salt := Blob 32

/-- An Ed25519 signature. -/
abbrev Signature := Blob 64

/-- A raw Ed25519 public key. -/
abbrev SigningKey := Blob 32

/-- A full RNS public key, `X25519 ‖ Ed25519`. -/
abbrev RnsPublicKey := Blob 64

/-- A challenge nonce. -/
abbrev Nonce := Blob 32

/-- The blob that repeats one byte. -/
def Blob.fill (n : ℕ) (b : UInt8) : Blob n := ⟨List.replicate n b, List.length_replicate⟩

/-- The Ed25519 half of an RNS public key: its last 32 bytes. -/
def RnsPublicKey.ed25519 (k : RnsPublicKey) : SigningKey :=
  ⟨k.val.drop 32, by simp [k.property]⟩

theorem Blob.append_inj {n : ℕ} {a b : Blob n} {s t : Bytes}
    (h : a.val ++ s = b.val ++ t) : a = b ∧ s = t := by
  have hl : a.val.length = b.val.length := a.property.trans b.property.symm
  exact ⟨Subtype.ext (List.append_inj_left h hl), List.append_inj_right h hl⟩

/-- Concatenating blobs of one size loses nothing. -/
theorem Blob.flatMap_val_injective {n : ℕ} (hn : 0 < n) {as bs : List (Blob n)}
    (h : as.flatMap Subtype.val = bs.flatMap Subtype.val) : as = bs := by
  have hpos : ∀ b : Blob n, b.val ≠ [] := by
    intro b hb
    have := b.property
    simp [hb] at this
    omega
  induction as generalizing bs with
  | nil =>
    cases bs with
    | nil => rfl
    | cons b bs => simp [hpos b] at h
  | cons a as ih =>
    cases bs with
    | nil => simp [hpos a] at h
    | cons b bs =>
      simp only [List.flatMap_cons] at h
      obtain ⟨hab, hrest⟩ := Blob.append_inj h
      rw [hab, ih hrest]

/-- `k` bytes, most significant first (`setBigUint64(o, n, false)` at `k = 8`). -/
def bigEndian : ℕ → ℕ → Bytes
  | 0, _ => []
  | k + 1, n => bigEndian k (n / 256) ++ [UInt8.ofNat n]

@[simp] theorem bigEndian_length (k n : ℕ) : (bigEndian k n).length = k := by
  induction k generalizing n with
  | zero => rfl
  | succ k ih => simp [bigEndian, ih]

theorem bigEndian_injective {k n m : ℕ} (hn : n < 256 ^ k) (hm : m < 256 ^ k)
    (h : bigEndian k n = bigEndian k m) : n = m := by
  induction k generalizing n m with
  | zero => simp only [Nat.pow_zero] at hn hm; omega
  | succ k ih =>
    have hl : (bigEndian k (n / 256)).length = (bigEndian k (m / 256)).length := by simp
    have hdiv : n / 256 = m / 256 :=
      ih (by rw [Nat.pow_succ] at hn; omega) (by rw [Nat.pow_succ] at hm; omega)
        (List.append_inj_left h hl)
    have hmod : n % 256 = m % 256 := by
      have hb := congrArg UInt8.toNat (List.cons.inj (List.append_inj_right h hl)).1
      simpa using hb
    omega

end Dacar

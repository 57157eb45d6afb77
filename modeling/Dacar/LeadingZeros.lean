import Mathlib

/-!
# Leading zero bits

A string of bytes, read as a number in base 256, begins with `n` zero bits just when the number
is small.  The bound says so for all `n`, those beyond the length of the string included.
-/

namespace LeadingZeros

/-- The number that the bytes are, the first byte first. -/
def value : List UInt8 → ℕ
  | [] => 0
  | b :: bs => b.toNat * 256 ^ bs.length + value bs

/-- Eight for each zero byte in front, and those of the first byte that is not zero. -/
def zeros : List UInt8 → ℕ
  | [] => 0
  | b :: bs => if b = 0 then 8 + zeros bs else 8 - b.toNat.size

theorem value_lt (bs : List UInt8) : value bs < 256 ^ bs.length := by
  induction bs with
  | nil => exact Nat.zero_lt_one
  | cons b bs ih =>
    rw [value, List.length_cons, pow_succ]
    have hb : b.toNat + 1 ≤ 256 := b.toNat_lt
    calc b.toNat * 256 ^ bs.length + value bs < (b.toNat + 1) * 256 ^ bs.length := by
          rw [Nat.add_mul, Nat.one_mul]
          omega
      _ ≤ 256 * 256 ^ bs.length := Nat.mul_le_mul_right _ hb
      _ = 256 ^ bs.length * 256 := Nat.mul_comm _ _

/-- The zero bits of a byte that is not zero. -/
theorem le_eight_sub_size_iff {b : ℕ} (hb : b < 256) (n : ℕ) :
    n ≤ 8 - b.size ↔ (b + 1) * 2 ^ n ≤ 256 := by
  have hsize : b.size ≤ 8 := Nat.size_le.mpr hb
  have hpow (hn : n ≤ 8) : 2 ^ (8 - n) * 2 ^ n = 256 := by
    rw [← pow_add, Nat.sub_add_cancel hn]
    norm_num
  constructor
  · intro h
    have hlt : b < 2 ^ (8 - n) := Nat.size_le.mp (by omega)
    calc (b + 1) * 2 ^ n ≤ 2 ^ (8 - n) * 2 ^ n := Nat.mul_le_mul_right _ hlt
      _ = 256 := hpow (by omega)
  · intro h
    have hn : n ≤ 8 := by
      refine (Nat.pow_le_pow_iff_right (Nat.lt_succ_self 1)).mp ?_
      calc 2 ^ n ≤ (b + 1) * 2 ^ n := Nat.le_mul_of_pos_left _ (Nat.succ_pos b)
        _ ≤ 2 ^ 8 := h
    rw [← hpow hn] at h
    have hlt : b < 2 ^ (8 - n) := Nat.le_of_mul_le_mul_right h (by positivity)
    have hle : b.size ≤ 8 - n := Nat.size_le.mpr hlt
    omega

theorem succ_mul_le_of_lt {b n : ℕ} (hpos : 0 < b) (h : b * 2 ^ n < 256) :
    (b + 1) * 2 ^ n ≤ 256 := by
  have hn : n < 8 := by
    refine (Nat.pow_lt_pow_iff_right (Nat.lt_succ_self 1)).mp ?_
    calc 2 ^ n ≤ b * 2 ^ n := Nat.le_mul_of_pos_left _ hpos
      _ < 2 ^ 8 := h
  have hpow : 2 ^ (8 - n) * 2 ^ n = 256 := by
    rw [← pow_add, Nat.sub_add_cancel hn.le]
    norm_num
  rw [← hpow] at h ⊢
  exact Nat.mul_le_mul_right _ (Nat.lt_of_mul_lt_mul_right h)

/-- The string begins with `n` zero bits. -/
theorem le_zeros_iff (bs : List UInt8) (n : ℕ) :
    n ≤ zeros bs ↔ (value bs + 1) * 2 ^ n ≤ 256 ^ bs.length := by
  induction bs generalizing n with
  | nil =>
    have hone : 1 * 2 ^ n ≤ 1 ↔ n = 0 := by
      rw [Nat.one_mul]
      exact ⟨fun h => by_contra fun hn => absurd h (Nat.not_le.mpr (Nat.one_lt_two_pow hn)),
        fun h => by rw [h, pow_zero]⟩
    exact Nat.le_zero.trans hone.symm
  | cons b bs ih =>
    have hrest : value bs + 1 ≤ 256 ^ bs.length := value_lt bs
    have hbyte : 0 < 256 ^ bs.length := by positivity
    rw [zeros, value, List.length_cons, pow_succ]
    by_cases hb : b = 0
    · rw [if_pos hb, hb, UInt8.toNat_zero, Nat.zero_mul, Nat.zero_add]
      rcases Nat.lt_or_ge n 8 with hn | hn
      · -- the first byte alone is enough
        refine iff_of_true (by omega) (Nat.mul_le_mul hrest ?_)
        calc 2 ^ n ≤ 2 ^ 8 := Nat.pow_le_pow_right (by decide) hn.le
          _ = 256 := by norm_num
      · obtain ⟨m, rfl⟩ := Nat.exists_eq_add_of_le hn
        rw [Nat.add_le_add_iff_left, ih, pow_add, ← Nat.mul_assoc, Nat.mul_right_comm]
        exact (Nat.mul_le_mul_right_iff (by decide : 0 < 2 ^ 8)).symm
    · have hpos : 0 < b.toNat := Nat.pos_of_ne_zero fun h => hb (UInt8.toNat_inj.mp h)
      rw [if_neg hb, le_eight_sub_size_iff b.toNat_lt]
      constructor
      · intro h
        calc (b.toNat * 256 ^ bs.length + value bs + 1) * 2 ^ n
            ≤ (b.toNat + 1) * 256 ^ bs.length * 2 ^ n := by
              refine Nat.mul_le_mul_right _ ?_
              rw [Nat.add_mul, Nat.one_mul]
              omega
          _ = 256 ^ bs.length * ((b.toNat + 1) * 2 ^ n) := by ring
          _ ≤ 256 ^ bs.length * 256 := Nat.mul_le_mul_left _ h
      · intro h
        refine succ_mul_le_of_lt hpos (Nat.lt_of_mul_lt_mul_left (a := 256 ^ bs.length) ?_)
        calc 256 ^ bs.length * (b.toNat * 2 ^ n) = b.toNat * 256 ^ bs.length * 2 ^ n := by ring
          _ < (b.toNat * 256 ^ bs.length + value bs + 1) * 2 ^ n :=
              Nat.mul_lt_mul_of_pos_right (by omega) (by positivity)
          _ ≤ 256 ^ bs.length * 256 := h

/-- No string begins with more zero bits than it has. -/
theorem zeros_le (bs : List UInt8) : zeros bs ≤ 8 * bs.length := by
  induction bs with
  | nil => exact le_rfl
  | cons b bs ih =>
    rw [zeros, List.length_cons]
    split_ifs <;> omega

end LeadingZeros

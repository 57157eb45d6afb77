import Mathlib

/-!
# Hybrid Logical Clocks

An HLC packs 48 bits of physical milliseconds over 16 bits of logical counter.
-/

namespace Dacar

def logicalBits : ℕ := 16
def physicalBits : ℕ := 48
def logicalMask : ℕ := 2 ^ logicalBits - 1
def maxLogical : ℕ := logicalMask
def maxPhysical : ℕ := 2 ^ physicalBits - 1
def maxHlc : ℕ := 2 ^ 64 - 1

/-- `none` is the `RangeError` of the source. -/
def packHlc (physicalMs logical : ℕ) : Option ℕ :=
  if physicalMs > maxPhysical then none
  else if logical > maxLogical then none
  else some (physicalMs <<< logicalBits ||| logical)

structure Unpacked where
  physicalMs : ℕ
  logical : ℕ

/-- The callers hold a 64-bit HLC, so the range check of the source never fires. -/
def unpackHlc (hlc : ℕ) : Unpacked where
  physicalMs := hlc >>> logicalBits
  logical := hlc &&& logicalMask

/-- The physical half of an HLC. -/
def physical (hlc : ℕ) : ℕ := (unpackHlc hlc).physicalMs

theorem physical_eq_div (hlc : ℕ) : physical hlc = hlc / 65536 := by
  simp [physical, unpackHlc, logicalBits, Nat.shiftRight_eq_div_pow]

theorem physical_mono {a b : ℕ} (h : a ≤ b) : physical a ≤ physical b := by
  rw [physical_eq_div, physical_eq_div]
  exact Nat.div_le_div_right h

/-- A strictly larger physical time makes a strictly larger HLC. -/
theorem lt_of_physical_lt {a b : ℕ} (h : physical a < physical b) : a < b := by
  by_contra hle
  exact absurd (physical_mono (not_lt.mp hle)) (not_le.mpr h)

structure Clock where
  lastMs : ℕ := 0
  logical : ℕ := 0
  deriving DecidableEq

/-- `Clock.now()` at wall-clock reading `phys`.  The fields are assigned before
`packHlc` runs, so they stay assigned when it throws. -/
def Clock.now (c : Clock) (phys : ℕ) : Option ℕ × Clock :=
  let c' : Clock :=
    if phys > c.lastMs then { lastMs := phys, logical := 0 }
    else { c with logical := c.logical + 1 }
  (packHlc c'.lastMs c'.logical, c')

theorem packHlc_le {p l t : ℕ} (h : packHlc p l = some t) : t ≤ maxHlc := by
  unfold packHlc at h
  split_ifs at h with hp hl
  obtain rfl := Option.some.inj h
  have h1 : p <<< logicalBits < 2 ^ 64 := by
    rw [Nat.shiftLeft_eq]
    simp only [maxPhysical, physicalBits, logicalBits] at *
    omega
  have h2 : l < 2 ^ 64 := by
    simp only [maxLogical, logicalMask, logicalBits] at hl
    omega
  have := Nat.or_lt_two_pow h1 h2
  simp only [maxHlc]
  omega

theorem Clock.now_le {c : Clock} {phys t : ℕ} (h : (c.now phys).1 = some t) : t ≤ maxHlc :=
  packHlc_le h

theorem logical_le_of_packHlc {p l t : ℕ} (h : packHlc p l = some t) : l ≤ maxLogical := by
  unfold packHlc at h
  split_ifs at h with hp hl
  exact not_lt.mp hl

/-- The two halves side by side. -/
theorem packHlc_eq {p l t : ℕ} (h : packHlc p l = some t) : t = p * 65536 + l := by
  have hl := logical_le_of_packHlc h
  have hlt : l < 2 ^ logicalBits := by
    simp only [maxLogical, logicalMask, logicalBits] at hl ⊢
    omega
  unfold packHlc at h
  split_ifs at h
  rw [← Option.some.inj h, ← Nat.shiftLeft_add_eq_or_of_lt hlt, Nat.shiftLeft_eq]
  simp [logicalBits]

namespace Clock

/-- The last HLC the clock gave out, or zero. -/
def packed (c : Clock) : ℕ := c.lastMs * 65536 + c.logical

/-- What the clock gives out next, at this wall-clock reading, is later than `hlc`. -/
def Overtakes (c : Clock) (phys hlc : ℕ) : Prop := physical hlc < phys ∨ hlc ≤ c.packed

section Now

variable {c : Clock} {phys t : ℕ} (h : (c.now phys).1 = some t)

include h

theorem now_packed : t = (c.now phys).2.packed := packHlc_eq h

theorem now_logical_le : (c.now phys).2.logical ≤ maxLogical := logical_le_of_packHlc h

theorem lt_now_iff (hc : c.logical ≤ maxLogical) (hlc : ℕ) : hlc < t ↔ c.Overtakes phys hlc := by
  rw [now_packed h, Overtakes, physical_eq_div, now, packed, packed]
  simp only [maxLogical, logicalMask, logicalBits] at hc
  split_ifs with hphys
  · dsimp only
    omega
  · dsimp only
    omega

end Now

end Clock

end Dacar

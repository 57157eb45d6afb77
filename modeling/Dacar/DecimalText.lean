import Mathlib

/-!
# Decimal numbers in text

Numbers are written with `Nat.toDigits` and read up to the first character that is no digit.
-/

namespace DecimalText

/-- The digits at the front and the rest; `none` where there is no digit. -/
def readNat (text : List Char) : Option (ℕ × List Char) :=
  let digits := text.takeWhile Char.isDigit
  if digits.isEmpty then none
  else some (Nat.ofDigitChars 10 digits 0, text.dropWhile Char.isDigit)

/-- A sign may stand before the digits. -/
def readInt : List Char → Option (ℤ × List Char)
  | '-' :: text => (readNat text).map fun (n, rest) => (-n, rest)
  | '+' :: text => (readNat text).map fun (n, rest) => (n, rest)
  | text => (readNat text).map fun (n, rest) => (n, rest)

def write (n : ℤ) : List Char :=
  if n < 0 then '-' :: Nat.toDigits 10 n.natAbs else Nat.toDigits 10 n.natAbs

theorem isDigit_of_mem_toDigits {n : ℕ} {c : Char} (h : c ∈ Nat.toDigits 10 n) :
    c.isDigit = true :=
  Nat.isDigit_of_mem_toDigits (by decide) (by decide) h

theorem readNat_toDigits (n : ℕ) : readNat (Nat.toDigits 10 n) = some (n, []) := by
  have hall : ∀ c ∈ Nat.toDigits 10 n, c.isDigit = true := fun c hc => isDigit_of_mem_toDigits hc
  have hne : (Nat.toDigits 10 n).isEmpty = false := by
    rw [List.isEmpty_eq_false_iff]
    exact Nat.toDigits_ne_nil
  unfold readNat
  rw [List.takeWhile_eq_self_iff.mpr hall, List.dropWhile_eq_nil_iff.mpr hall]
  dsimp only
  rw [hne, Nat.ofDigitChars_ten_toDigits]
  rfl

theorem readInt_of_digits {text : List Char} (h : ∀ c ∈ text.head?, c.isDigit = true) :
    readInt text = (readNat text).map fun (n, rest) => ((n : ℤ), rest) := by
  unfold readInt
  split
  · exact absurd (h '-' rfl) (by decide)
  · exact absurd (h '+' rfl) (by decide)
  · rfl

theorem readInt_write {n : ℤ} (h : 0 ≤ n) : readInt (write n) = some (n, []) := by
  rw [write, if_neg (by omega), readInt_of_digits fun c hc =>
    isDigit_of_mem_toDigits (List.mem_of_mem_head? hc), readNat_toDigits]
  simpa using h

theorem isDigit_of_mem_write {n : ℤ} (h : 0 ≤ n) {c : Char} (hc : c ∈ write n) :
    c.isDigit = true := by
  rw [write, if_neg (by omega)] at hc
  exact isDigit_of_mem_toDigits hc

end DecimalText

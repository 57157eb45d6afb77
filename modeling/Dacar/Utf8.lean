import Mathlib

/-!
# UTF-8 and ASCII delimiters

A byte below 128 is a character of its own in UTF-8, so a text may be split at an ASCII
delimiter before it is encoded or after.
-/

namespace Utf8

/-- The bytes of a text. -/
def encode (l : List Char) : List UInt8 := l.flatMap String.utf8EncodeChar

theorem utf8EncodeChar_of_ascii {c : Char} (h : c.toNat < 128) :
    String.utf8EncodeChar c = [UInt8.ofNat c.toNat] := by
  have hle : c.val.toNat ≤ 0x7f := Nat.le_of_lt_succ h
  rw [String.utf8EncodeChar, if_pos hle]
  rfl

/-- Bytes below 128 stand for their own characters only. -/
theorem toNat_of_mem_utf8EncodeChar {c : Char} {b : UInt8} (hb : b.toNat < 128)
    (h : b ∈ String.utf8EncodeChar c) : c.toNat = b.toNat := by
  unfold String.utf8EncodeChar at h
  dsimp only at h
  split_ifs at h with h1 h2 h3
  · rw [List.mem_singleton.mp h, UInt8.toNat_ofNat']
    change c.val.toNat = c.val.toNat % 256
    omega
  all_goals
    simp only [List.mem_cons, List.not_mem_nil, or_false] at h
    rcases h with rfl | rfl | rfl | rfl
    all_goals
      simp only [UInt8.toNat_ofNat'] at hb
      omega

theorem splitOn_append_of_not_mem {α : Type*} [DecidableEq α] {a : α} {xs : List α} (h : a ∉ xs)
    (ys : List α) : (xs ++ ys).splitOn a = (ys.splitOn a).modifyHead (xs ++ ·) := by
  induction xs with
  | nil => cases hs : ys.splitOn a <;> simp [hs]
  | cons x xs ih =>
    rw [List.mem_cons, not_or] at h
    rw [List.cons_append, List.splitOn_cons_eq_if_modifyHead, if_neg (by simpa using Ne.symm h.1),
      ih h.2]
    cases ys.splitOn a <;> simp

/-- Splitting at an ASCII character comes before or after the encoding. -/
theorem splitOn_encode {d : Char} (hd : d.toNat < 128) (l : List Char) :
    (encode l).splitOn (UInt8.ofNat d.toNat) = (l.splitOn d).map encode := by
  have hb : (UInt8.ofNat d.toNat).toNat = d.toNat := by
    rw [UInt8.toNat_ofNat']
    omega
  induction l with
  | nil => rfl
  | cons c l ih =>
    have hcons : encode (c :: l) = String.utf8EncodeChar c ++ encode l := List.flatMap_cons
    rw [hcons, List.splitOn_cons_eq_if_modifyHead]
    by_cases hc : c = d
    · rw [hc, utf8EncodeChar_of_ascii hd, List.singleton_append,
        List.splitOn_cons_eq_if_modifyHead, if_pos (by simp), if_pos (by simp), ih, List.map_cons]
      rfl
    · have hmem : UInt8.ofNat d.toNat ∉ String.utf8EncodeChar c := fun h =>
        hc (Char.toNat_inj.mp ((toNat_of_mem_utf8EncodeChar (by rw [hb]; exact hd) h).trans hb))
      rw [splitOn_append_of_not_mem hmem, if_neg (by simpa using hc), ih]
      cases l.splitOn d with
      | nil => rfl
      | cons x xs => rfl

theorem encode_injective : Function.Injective encode := by
  intro l l' h
  have htext : String.ofList l = String.ofList l' :=
    String.toByteArray_inj.mp (congrArg List.toByteArray h)
  rw [← String.toList_ofList (l := l), htext, String.toList_ofList]

end Utf8

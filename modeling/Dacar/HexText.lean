import Dacar.Bytes

/-!
# Bytes as hex digits

Two digits a byte, the high half first, over any alphabet that has sixteen of them.
-/

namespace HexText

open Dacar (Bytes)

variable {α : Type*} (digit : ℕ → α) (value : α → Option ℕ)

def encode (b : Bytes) : List α := b.flatMap fun x => [digit (x.toNat / 16), digit (x.toNat % 16)]

def decode : List α → Option Bytes
  | [] => some []
  | [_] => none
  | hi :: lo :: rest =>
    match value hi, value lo, decode rest with
    | some h, some l, some b => some (UInt8.ofNat (h * 16 + l) :: b)
    | _, _, _ => none

variable {digit value}

@[simp] theorem encode_length (b : Bytes) : (encode digit b).length = 2 * b.length := by
  induction b with
  | nil => rfl
  | cons x b ih =>
    rw [encode, List.flatMap_cons, List.length_append, ← encode, ih, List.length_cons]
    simp only [List.length_cons, List.length_nil]
    omega

theorem exists_of_mem_encode {b : Bytes} {c : α} (h : c ∈ encode digit b) :
    ∃ n < 16, c = digit n := by
  obtain ⟨x, -, hc⟩ := List.mem_flatMap.mp h
  have hx := x.toNat_lt
  rcases List.mem_pair.mp hc with rfl | rfl
  · exact ⟨_, by omega, rfl⟩
  · exact ⟨_, Nat.mod_lt _ (by decide), rfl⟩

/-- Digits that stand for their values spell the bytes. -/
theorem decode_encode (h : ∀ n < 16, value (digit n) = some n) (b : Bytes) :
    decode value (encode digit b) = some b := by
  induction b with
  | nil => rfl
  | cons x b ih =>
    have hx := x.toNat_lt
    have hsplit : x.toNat / 16 * 16 + x.toNat % 16 = x.toNat := by omega
    rw [encode, List.flatMap_cons, ← encode, List.cons_append, List.cons_append, List.nil_append,
      decode, h _ (by omega), h _ (Nat.mod_lt _ (by decide)), ih]
    dsimp only
    rw [hsplit, UInt8.ofNat_toNat]

/-- Another alphabet with the same digits. -/
theorem map_encode {β : Type*} (f : α → β) (b : Bytes) :
    (encode digit b).map f = encode (f ∘ digit) b := by
  simp [encode, List.map_flatMap]

/-- Only the sixteen digits matter. -/
theorem encode_congr {digit' : ℕ → α} (h : ∀ n < 16, digit n = digit' n) (b : Bytes) :
    encode digit b = encode digit' b := by
  rw [encode, encode]
  refine List.flatMap_congr fun x _ => ?_
  have hx := x.toNat_lt
  rw [h _ (by omega), h _ (Nat.mod_lt _ (by decide))]

theorem decode_length {l : List α} {b : Bytes} (h : decode value l = some b) :
    l.length = 2 * b.length := by
  induction l using List.twoStepInduction generalizing b with
  | nil =>
    obtain rfl := Option.some.inj h
    rfl
  | singleton c => cases h
  | cons_cons hi lo rest ih _ =>
    rw [decode] at h
    split at h
    · rename_i x y b' _ _ hrest
      obtain rfl := Option.some.inj h
      rw [List.length_cons, List.length_cons, ih hrest, List.length_cons]
      omega
    · cases h

end HexText

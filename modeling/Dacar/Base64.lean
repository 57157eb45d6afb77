import Mathlib

/-!
# Base64 for URLs

Three bytes are four digits, and what is left over is written without padding.  The reader is a
lenient one: it passes over what is no digit and stops where a group is padded out.
-/

namespace Base64

/-- `A` to `Z`, `a` to `z`, `0` to `9`, and the two that URLs leave alone. -/
def digit (v : ℕ) : Char :=
  if v < 26 then Char.ofNat (65 + v)
  else if v < 52 then Char.ofNat (97 + (v - 26))
  else if v < 62 then Char.ofNat (48 + (v - 52))
  else if v = 62 then '-'
  else '_'

/-- Both alphabets are read. -/
def value (c : Char) : Option ℕ :=
  if 'A' ≤ c ∧ c ≤ 'Z' then some (c.toNat - 65)
  else if 'a' ≤ c ∧ c ≤ 'z' then some (c.toNat - 97 + 26)
  else if '0' ≤ c ∧ c ≤ '9' then some (c.toNat - 48 + 52)
  else if c = '+' ∨ c = '-' then some 62
  else if c = '/' ∨ c = '_' then some 63
  else none

/-- Without padding. -/
def encode : List UInt8 → List Char
  | [] => []
  | [a] => [digit (a.toNat / 4), digit (a.toNat % 4 * 16)]
  | [a, b] =>
    [digit (a.toNat / 4), digit (a.toNat % 4 * 16 + b.toNat / 16), digit (b.toNat % 16 * 4)]
  | a :: b :: c :: rest =>
    digit (a.toNat / 4) :: digit (a.toNat % 4 * 16 + b.toNat / 16) ::
      digit (b.toNat % 16 * 4 + c.toNat / 64) :: digit (c.toNat % 64) :: encode rest

/-- The reader with its place in the group of four, the bits left over there, the padding it has
seen and the bytes so far.  A group of one digit, or one that is not padded out, is an error. -/
def read : List Char → ℕ → ℕ → ℕ → List UInt8 → Option (List UInt8)
  | [], place, _, _, done => if place = 0 then some done else none
  | c :: rest, place, bits, pads, done =>
    if c = '=' then
      if 2 ≤ place ∧ 4 ≤ place + (pads + 1) then some done
      else read rest place bits (if 2 ≤ place then pads + 1 else pads) done
    else
      match value c with
      | none => read rest place bits pads done
      | some v =>
        match place with
        | 0 => read rest 1 v 0 done
        | 1 => read rest 2 (v % 16) 0 (done ++ [UInt8.ofNat (bits * 4 + v / 16)])
        | 2 => read rest 3 (v % 4) 0 (done ++ [UInt8.ofNat (bits * 16 + v / 4)])
        | _ => read rest 0 0 0 (done ++ [UInt8.ofNat (bits * 64 + v)])

/-- Other characters than ASCII are refused. -/
def decode (text : List Char) : Option (List UInt8) :=
  if text.all fun c => c.toNat < 128 then read text 0 0 0 [] else none

/-- What fills up the last group. -/
def padding (text : List Char) : List Char := List.replicate ((4 - text.length % 4) % 4) '='

/-! ## Reading what was written -/

theorem digit_plain : ∀ v < 64, value (digit v) = some v ∧ digit v ≠ '=' ∧ digit v ≠ '/' ∧
    (digit v).toNat < 128 := by
  decide +kernel

/-- Every character that is written is a digit. -/
theorem exists_of_mem_encode {data : List UInt8} {c : Char} (h : c ∈ encode data) :
    ∃ v < 64, c = digit v := by
  have hbyte (a : UInt8) : a.toNat < 256 := a.toNat_lt
  induction data using encode.induct with
  | case1 => exact nomatch h
  | case2 a =>
    simp only [encode, List.mem_cons, List.not_mem_nil, or_false] at h
    have := hbyte a
    rcases h with rfl | rfl <;> exact ⟨_, by omega, rfl⟩
  | case3 a b =>
    simp only [encode, List.mem_cons, List.not_mem_nil, or_false] at h
    have := hbyte a
    have := hbyte b
    rcases h with rfl | rfl | rfl <;> exact ⟨_, by omega, rfl⟩
  | case4 a b c' rest ih =>
    simp only [encode, List.mem_cons] at h
    have := hbyte a
    have := hbyte b
    have := hbyte c'
    rcases h with rfl | rfl | rfl | rfl | h
    · exact ⟨_, by omega, rfl⟩
    · exact ⟨_, by omega, rfl⟩
    · exact ⟨_, by omega, rfl⟩
    · exact ⟨_, by omega, rfl⟩
    · exact ih h

section Read

variable {v : ℕ} (hv : v < 64) (rest : List Char) (bits pads : ℕ) (done : List UInt8)

include hv

theorem read_first : read (digit v :: rest) 0 bits pads done = read rest 1 v 0 done := by
  rw [read, if_neg (digit_plain v hv).2.1, (digit_plain v hv).1]
  rfl

theorem read_second : read (digit v :: rest) 1 bits pads done =
    read rest 2 (v % 16) 0 (done ++ [UInt8.ofNat (bits * 4 + v / 16)]) := by
  rw [read, if_neg (digit_plain v hv).2.1, (digit_plain v hv).1]
  rfl

theorem read_third : read (digit v :: rest) 2 bits pads done =
    read rest 3 (v % 4) 0 (done ++ [UInt8.ofNat (bits * 16 + v / 4)]) := by
  rw [read, if_neg (digit_plain v hv).2.1, (digit_plain v hv).1]
  rfl

theorem read_fourth : read (digit v :: rest) 3 bits pads done =
    read rest 0 0 0 (done ++ [UInt8.ofNat (bits * 64 + v)]) := by
  rw [read, if_neg (digit_plain v hv).2.1, (digit_plain v hv).1]
  rfl

end Read

theorem read_encode (data : List UInt8) (pads : ℕ) (done : List UInt8) :
    read (encode data ++ padding (encode data)) 0 0 pads done = some (done ++ data) := by
  have hbyte (a : UInt8) : a.toNat < 256 := a.toNat_lt
  have hback (a : UInt8) {n : ℕ} (h : n = a.toNat) : UInt8.ofNat n = a := by
    rw [h, UInt8.ofNat_toNat]
  induction data using encode.induct generalizing pads done with
  | case1 => simp [encode, padding, read]
  | case2 a =>
    have := hbyte a
    have hpad : padding (encode [a]) = ['=', '='] := rfl
    rw [hpad, encode, List.cons_append, List.cons_append, List.nil_append,
      read_first (by omega), read_second (by omega), hback a (by omega)]
    simp [read]
  | case3 a b =>
    have := hbyte a
    have := hbyte b
    have hpad : padding (encode [a, b]) = ['='] := rfl
    rw [hpad, encode, List.cons_append, List.cons_append, List.cons_append, List.nil_append,
      read_first (by omega), read_second (by omega), hback a (by omega), read_third (by omega),
      hback b (by omega)]
    simp [read]
  | case4 a b c rest ih =>
    have := hbyte a
    have := hbyte b
    have := hbyte c
    have hpad : padding (encode (a :: b :: c :: rest)) = padding (encode rest) := by
      rw [padding, padding, encode, List.length_cons, List.length_cons, List.length_cons,
        List.length_cons]
      congr 1
      omega
    rw [hpad, encode, List.cons_append, List.cons_append, List.cons_append, List.cons_append,
      read_first (by omega), read_second (by omega), hback a (by omega), read_third (by omega),
      hback b (by omega), read_fourth (by omega), hback c (by omega), ih]
    simp

/-- What is written and padded is read back. -/
theorem decode_encode (data : List UInt8) :
    decode (encode data ++ padding (encode data)) = some data := by
  have hascii : ((encode data ++ padding (encode data)).all fun c => c.toNat < 128) = true := by
    rw [List.all_eq_true]
    intro c hc
    rcases List.mem_append.mp hc with hc | hc
    · obtain ⟨v, hv, rfl⟩ := exists_of_mem_encode hc
      exact decide_eq_true (digit_plain v hv).2.2.2
    · rw [List.eq_of_mem_replicate hc]
      decide
  rw [decode, if_pos hascii, read_encode, List.nil_append]

end Base64

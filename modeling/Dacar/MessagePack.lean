import Dacar.Bytes

/-!
# MessagePack

The part of the format that binaries, flags, unsigned integers and arrays of these need:
the shortest encoding of a value, and a decoder that reads every encoding of one.
-/

namespace MessagePack

open Dacar (Bytes bigEndian bigEndian_length)

inductive Value
  | nil
  | bool (b : Bool)
  | uint (n : ℕ)
  | bin (b : Bytes)
  | array (elements : List Value)

/-! ## Encoding -/

/-- A tag byte and the number that belongs to it in `k` bytes. -/
def tagged (tag : UInt8) (k n : ℕ) : Bytes := tag :: bigEndian k n

/-- The formats from `positive fixint` to `uint 64`. -/
def uintBytes (n : ℕ) : Bytes :=
  if n < 2 ^ 7 then [UInt8.ofNat n]
  else if n < 2 ^ 8 then tagged 0xcc 1 n
  else if n < 2 ^ 16 then tagged 0xcd 2 n
  else if n < 2 ^ 32 then tagged 0xce 4 n
  else tagged 0xcf 8 n

/-- The head of `bin 8`, `bin 16` or `bin 32`. -/
def binHeader (n : ℕ) : Bytes :=
  if n < 2 ^ 8 then tagged 0xc4 1 n
  else if n < 2 ^ 16 then tagged 0xc5 2 n
  else tagged 0xc6 4 n

/-- The head of `fixarray`, `array 16` or `array 32`. -/
def arrayHeader (n : ℕ) : Bytes :=
  if n < 16 then [UInt8.ofNat (0x90 + n)]
  else if n < 2 ^ 16 then tagged 0xdc 2 n
  else tagged 0xdd 4 n

mutual

def encode : Value → Bytes
  | .nil => [0xc0]
  | .bool b => [if b then 0xc3 else 0xc2]
  | .uint n => uintBytes n
  | .bin b => binHeader b.length ++ b
  | .array vs => arrayHeader vs.length ++ encodeAll vs

def encodeAll : List Value → Bytes
  | [] => []
  | v :: vs => encode v ++ encodeAll vs

end

/-! ## Decoding -/

/-- The number that bytes spell, most significant first. -/
def ofBigEndian (b : Bytes) : ℕ := b.foldl (fun n x => n * 256 + x.toNat) 0

/-- The first `n` bytes and the rest. -/
def readBytes (n : ℕ) (b : Bytes) : Option (Bytes × Bytes) :=
  if n ≤ b.length then some (b.take n, b.drop n) else none

def readUint (k : ℕ) (b : Bytes) : Option (ℕ × Bytes) :=
  (readBytes k b).map fun r => (ofBigEndian r.1, r.2)

def decodeMany (decode : Bytes → Option (Value × Bytes)) :
    ℕ → Bytes → Option (List Value × Bytes)
  | 0, b => some ([], b)
  | n + 1, b => do
    let head ← decode b
    let tail ← decodeMany decode n head.2
    pure (head.1 :: tail.1, tail.2)

/-- One value off the front; `fuel` bounds how deep arrays nest. -/
def decode : ℕ → Bytes → Option (Value × Bytes)
  | 0, _ | _ + 1, [] => none
  | fuel + 1, tag :: b =>
    let uint (k : ℕ) := (readUint k b).map fun r => (Value.uint r.1, r.2)
    let bin (k : ℕ) := do
      let n ← readUint k b
      let r ← readBytes n.1 n.2
      pure (Value.bin r.1, r.2)
    let elements (n : ℕ) (b : Bytes) :=
      (decodeMany (decode fuel) n b).map fun r => (Value.array r.1, r.2)
    let array (k : ℕ) := do
      let n ← readUint k b
      elements n.1 n.2
    if tag < 0x80 then some (.uint tag.toNat, b)
    else if 0x90 ≤ tag ∧ tag < 0xa0 then elements (tag.toNat - 0x90) b
    else if tag = 0xc0 then some (.nil, b)
    else if tag = 0xc2 ∨ tag = 0xc3 then some (.bool (tag = 0xc3), b)
    else if tag = 0xc4 then bin 1
    else if tag = 0xc5 then bin 2
    else if tag = 0xc6 then bin 4
    else if tag = 0xcc then uint 1
    else if tag = 0xcd then uint 2
    else if tag = 0xce then uint 4
    else if tag = 0xcf then uint 8
    else if tag = 0xdc then array 2
    else if tag = 0xdd then array 4
    else none

/-- The value that all the bytes together encode. -/
def decodeAll (b : Bytes) : Option Value :=
  match decode b.length b with
  | some (v, []) => some v
  | _ => none

/-! ## What fits the format -/

mutual

/-- Integers of 64 bits, lengths of 32. -/
def Value.Fits : Value → Prop
  | .nil | .bool _ => True
  | .uint n => n < 2 ^ 64
  | .bin b => b.length < 2 ^ 32
  | .array vs => vs.length < 2 ^ 32 ∧ AllFit vs

def AllFit : List Value → Prop
  | [] => True
  | v :: vs => v.Fits ∧ AllFit vs

end

mutual

def Value.decidableFits : ∀ v : Value, Decidable v.Fits
  | .nil | .bool _ => isTrue trivial
  | .uint n => inferInstanceAs (Decidable (n < 2 ^ 64))
  | .bin b => inferInstanceAs (Decidable (b.length < 2 ^ 32))
  | .array vs => @instDecidableAnd _ _ inferInstance (decidableAllFit vs)

def decidableAllFit : ∀ vs : List Value, Decidable (AllFit vs)
  | [] => isTrue trivial
  | v :: vs => @instDecidableAnd _ _ v.decidableFits (decidableAllFit vs)

end

instance (v : Value) : Decidable v.Fits := v.decidableFits

mutual

/-- How deep arrays nest. -/
def Value.depth : Value → ℕ
  | .nil | .bool _ | .uint _ | .bin _ => 1
  | .array vs => depthAll vs + 1

def depthAll : List Value → ℕ
  | [] => 0
  | v :: vs => max v.depth (depthAll vs)

end

/-! ## Heads -/

theorem ofBigEndian_concat (b : Bytes) (x : UInt8) :
    ofBigEndian (b ++ [x]) = ofBigEndian b * 256 + x.toNat := by
  simp [ofBigEndian]

theorem ofBigEndian_bigEndian {k n : ℕ} (h : n < 256 ^ k) : ofBigEndian (bigEndian k n) = n := by
  induction k generalizing n with
  | zero =>
    rw [Nat.pow_zero] at h
    have h0 : n = 0 := by omega
    rw [h0]
    rfl
  | succ k ih =>
    rw [bigEndian, ofBigEndian_concat, ih (by rw [Nat.pow_succ] at h; omega)]
    have hx : (UInt8.ofNat n).toNat = n % 256 := by simp
    rw [hx]
    omega

theorem readBytes_append (b rest : Bytes) : readBytes b.length (b ++ rest) = some (b, rest) := by
  simp [readBytes]

theorem readUint_bigEndian {k n : ℕ} (h : n < 256 ^ k) (rest : Bytes) :
    readUint k (bigEndian k n ++ rest) = some (n, rest) := by
  have hread := readBytes_append (bigEndian k n) rest
  rw [bigEndian_length] at hread
  rw [readUint, hread, Option.map_some, ofBigEndian_bigEndian h]

section Round

variable {fuel n : ℕ} {rest : Bytes}

theorem decode_uintBytes (h : n < 2 ^ 64) :
    decode (fuel + 1) (uintBytes n ++ rest) = some (.uint n, rest) := by
  unfold uintBytes
  split_ifs with h1 h2 h3 h4
  · have hn : (UInt8.ofNat n).toNat = n := by
      simp only [UInt8.toNat_ofNat']
      omega
    have hlt : UInt8.ofNat n < 0x80 := UInt8.lt_iff_toNat_lt.mpr (by rw [hn]; exact h1)
    simp [decode, hlt, hn]
  · simp [decode, tagged, readUint_bigEndian (k := 1) (show n < 256 ^ 1 by omega)]
  · simp [decode, tagged, readUint_bigEndian (k := 2) (show n < 256 ^ 2 by omega)]
  · simp [decode, tagged, readUint_bigEndian (k := 4) (show n < 256 ^ 4 by omega)]
  · simp [decode, tagged, readUint_bigEndian (k := 8) (show n < 256 ^ 8 by omega)]

theorem decode_binHeader {b : Bytes} (h : b.length < 2 ^ 32) :
    decode (fuel + 1) (binHeader b.length ++ (b ++ rest)) = some (.bin b, rest) := by
  unfold binHeader
  split_ifs with h1 h2
  · simp [decode, tagged, readUint_bigEndian (k := 1) (show b.length < 256 ^ 1 by omega),
      readBytes_append]
  · simp [decode, tagged, readUint_bigEndian (k := 2) (show b.length < 256 ^ 2 by omega),
      readBytes_append]
  · simp [decode, tagged, readUint_bigEndian (k := 4) (show b.length < 256 ^ 4 by omega),
      readBytes_append]

theorem decode_arrayHeader (h : n < 2 ^ 32) :
    decode (fuel + 1) (arrayHeader n ++ rest) =
      (decodeMany (decode fuel) n rest).map fun r => (.array r.1, r.2) := by
  unfold arrayHeader
  split_ifs with h1 h2
  · have hn : (UInt8.ofNat (0x90 + n)).toNat = 0x90 + n := by
      simp only [UInt8.toNat_ofNat']
      omega
    have hlo : ¬ UInt8.ofNat (0x90 + n) < 0x80 := by
      rw [UInt8.lt_iff_toNat_lt, hn]
      simp
      omega
    have hmid : 0x90 ≤ UInt8.ofNat (0x90 + n) ∧ UInt8.ofNat (0x90 + n) < 0xa0 := by
      rw [UInt8.le_iff_toNat_le, UInt8.lt_iff_toNat_lt, hn]
      simp
      omega
    rw [List.singleton_append, decode]
    simp only [if_neg hlo, if_pos hmid, hn, Nat.add_sub_cancel_left]
  · simp [decode, tagged, readUint_bigEndian (k := 2) (show n < 256 ^ 2 by omega)]
  · simp [decode, tagged, readUint_bigEndian (k := 4) (show n < 256 ^ 4 by omega)]

end Round

/-! ## The round trip -/

mutual

/-- Whatever follows it, an encoded value is read back. -/
theorem decode_encode : ∀ (v : Value) {fuel : ℕ} (rest : Bytes), v.Fits → v.depth ≤ fuel →
    decode fuel (encode v ++ rest) = some (v, rest)
  | .nil, fuel + 1, rest, _, _ => by simp [encode, decode]
  | .bool b, fuel + 1, rest, _, _ => by cases b <;> simp [encode, decode]
  | .uint n, fuel + 1, rest, h, _ => by
    rw [encode]
    exact decode_uintBytes h
  | .bin b, fuel + 1, rest, h, _ => by
    rw [encode, List.append_assoc]
    exact decode_binHeader h
  | .array vs, fuel + 1, rest, h, hd => by
    rw [encode, List.append_assoc, decode_arrayHeader h.1,
      decodeMany_encodeAll vs rest h.2 (Nat.le_of_succ_le_succ hd), Option.map_some]
  | .nil, 0, _, _, hd | .bool _, 0, _, _, hd | .uint _, 0, _, _, hd | .bin _, 0, _, _, hd
  | .array _, 0, _, _, hd => by simp [Value.depth] at hd

theorem decodeMany_encodeAll : ∀ (vs : List Value) {fuel : ℕ} (rest : Bytes), AllFit vs →
    depthAll vs ≤ fuel →
    decodeMany (decode fuel) vs.length (encodeAll vs ++ rest) = some (vs, rest)
  | [], _, _, _, _ => rfl
  | v :: vs, fuel, rest, h, hd => by
    have hv := decode_encode v (encodeAll vs ++ rest) h.1 ((le_max_left _ _).trans hd)
    have hvs := decodeMany_encodeAll vs rest h.2 ((le_max_right _ _).trans hd)
    rw [encodeAll, List.append_assoc, List.length_cons, decodeMany, hv]
    simp only [Option.bind_eq_bind, Option.bind_some, hvs, Option.pure_def]

end

mutual

theorem depth_le_length : ∀ v : Value, v.depth ≤ (encode v).length
  | .nil => by simp [Value.depth, encode]
  | .bool b => by simp [Value.depth, encode]
  | .uint n => by
    rw [Value.depth, encode, uintBytes]
    split_ifs <;> simp [tagged]
  | .bin b => by
    rw [Value.depth, encode, binHeader]
    split_ifs <;> simp [tagged]
  | .array vs => by
    have h := depthAll_le_length vs
    rw [Value.depth, encode, arrayHeader]
    split_ifs <;> simp [tagged] <;> omega

theorem depthAll_le_length : ∀ vs : List Value, depthAll vs ≤ (encodeAll vs).length
  | [] => Nat.le_refl 0
  | v :: vs => by
    have hv := depth_le_length v
    have hvs := depthAll_le_length vs
    rw [depthAll, encodeAll, List.length_append]
    omega

end

theorem decodeAll_encode {v : Value} (h : v.Fits) : decodeAll (encode v) = some v := by
  have hread := decode_encode v [] h (depth_le_length v)
  rw [List.append_nil] at hread
  rw [decodeAll, hread]

/-! ## Parts of an array -/

theorem allFit_iff {vs : List Value} : AllFit vs ↔ ∀ v ∈ vs, v.Fits := by
  induction vs with
  | nil => simp [AllFit]
  | cons v vs ih => rw [AllFit, ih, List.forall_mem_cons]

theorem arrayHeader_length_mono {m n : ℕ} (h : m ≤ n) :
    (arrayHeader m).length ≤ (arrayHeader n).length := by
  unfold arrayHeader
  split_ifs <;> simp [tagged] <;> omega

theorem encodeAll_length_of_sublist {vs ws : List Value} (h : vs.Sublist ws) :
    (encodeAll vs).length ≤ (encodeAll ws).length := by
  induction h with
  | slnil => rfl
  | cons w _ ih =>
    rw [encodeAll, List.length_append]
    omega
  | cons_cons w _ ih =>
    rw [encodeAll, encodeAll, List.length_append, List.length_append]
    omega

/-- An array with elements left out fits as well, and is no longer. -/
theorem array_of_sublist {vs ws : List Value} (h : vs.Sublist ws) (hfits : (Value.array ws).Fits) :
    (Value.array vs).Fits ∧ (encode (.array vs)).length ≤ (encode (.array ws)).length := by
  refine ⟨⟨h.length_le.trans_lt hfits.1, ?_⟩, ?_⟩
  · exact allFit_iff.mpr fun v hv => allFit_iff.mp hfits.2 v (h.subset hv)
  · rw [encode, encode, List.length_append, List.length_append]
    exact Nat.add_le_add (arrayHeader_length_mono h.length_le) (encodeAll_length_of_sublist h)

/-! ## What is inside is shorter -/

/-- What is read off the front of bytes is shorter than they are. -/
structure Inside (b : Bytes) (v : Value) (rest : Bytes) : Prop where
  rest : rest.length < b.length
  bin : ∀ x, v = .bin x → x.length < b.length
  array : ∀ vs x, v = .array vs → .bin x ∈ vs → x.length < b.length

theorem length_of_readBytes {n : ℕ} {b x rest : Bytes} (h : readBytes n b = some (x, rest)) :
    x.length ≤ b.length ∧ rest.length ≤ b.length := by
  unfold readBytes at h
  split_ifs at h
  obtain ⟨rfl, rfl⟩ := Prod.mk.inj (Option.some.inj h)
  exact ⟨List.length_take_le' n b, (List.drop_sublist n b).length_le⟩

theorem length_of_readUint {k n : ℕ} {b rest : Bytes} (h : readUint k b = some (n, rest)) :
    rest.length ≤ b.length := by
  obtain ⟨⟨x, rest'⟩, hread, heq⟩ := Option.map_eq_some_iff.mp h
  obtain ⟨-, rfl⟩ := Prod.mk.inj heq
  exact (length_of_readBytes hread).2

theorem inside_of_decodeMany {decode : Bytes → Option (Value × Bytes)}
    (hdecode : ∀ b v rest, decode b = some (v, rest) → Inside b v rest) {n : ℕ} {b rest : Bytes}
    {vs : List Value} (h : decodeMany decode n b = some (vs, rest)) :
    rest.length ≤ b.length ∧ ∀ x, .bin x ∈ vs → x.length < b.length := by
  induction n generalizing b vs with
  | zero =>
    obtain ⟨rfl, rfl⟩ := Prod.mk.inj (Option.some.inj h)
    exact ⟨le_rfl, fun x hx => nomatch hx⟩
  | succ n ih =>
    obtain ⟨⟨v, b'⟩, hhead, htail⟩ := Option.bind_eq_some_iff.mp h
    obtain ⟨⟨vs', rest'⟩, hmany, heq⟩ := Option.bind_eq_some_iff.mp htail
    obtain ⟨rfl, rfl⟩ := Prod.mk.inj (Option.some.inj heq)
    have hinside := hdecode b v b' hhead
    obtain ⟨hrest, hbin⟩ := ih hmany
    refine ⟨hrest.trans hinside.rest.le, fun x hx => ?_⟩
    rcases List.mem_cons.mp hx with hx | hx
    · exact hinside.bin x hx.symm
    · exact (hbin x hx).trans hinside.rest

theorem inside_of_decode {fuel : ℕ} {b rest : Bytes} {v : Value}
    (h : decode fuel b = some (v, rest)) : Inside b v rest := by
  induction fuel generalizing b v rest with
  | zero => cases h
  | succ fuel ih =>
    cases b with
    | nil => cases h
    | cons tag b =>
      have hplain (v' : Value) (hbin : ∀ x, v' ≠ .bin x) (harray : ∀ vs, v' ≠ .array vs)
          {rest' : Bytes} (hrest : rest'.length ≤ b.length) (h : (v', rest') = (v, rest)) :
          Inside (tag :: b) v rest := by
        obtain ⟨rfl, rfl⟩ := Prod.mk.inj h
        exact ⟨Nat.lt_succ_of_le hrest, fun x hx => absurd hx (hbin x),
          fun vs _ hvs => absurd hvs (harray vs)⟩
      have huint {k : ℕ} (h : (readUint k b).map (fun r => (Value.uint r.1, r.2)) =
          some (v, rest)) : Inside (tag :: b) v rest := by
        obtain ⟨⟨n, rest'⟩, hread, heq⟩ := Option.map_eq_some_iff.mp h
        exact hplain (.uint n) nofun nofun (length_of_readUint hread) heq
      have hbin {k : ℕ} (h : (do
          let n ← readUint k b
          let r ← readBytes n.1 n.2
          pure (Value.bin r.1, r.2)) = some (v, rest)) : Inside (tag :: b) v rest := by
        obtain ⟨⟨n, b'⟩, hread, hrest⟩ := Option.bind_eq_some_iff.mp h
        obtain ⟨⟨x, rest'⟩, hbytes, heq⟩ := Option.bind_eq_some_iff.mp hrest
        obtain ⟨rfl, rfl⟩ := Prod.mk.inj (Option.some.inj heq)
        have hb' := length_of_readUint hread
        obtain ⟨hx, hrest'⟩ := length_of_readBytes hbytes
        refine ⟨Nat.lt_succ_of_le (hrest'.trans hb'), ?_, nofun⟩
        rintro _ ⟨⟩
        exact Nat.lt_succ_of_le (hx.trans hb')
      have helements {n : ℕ} {b' : Bytes} (hb' : b'.length ≤ b.length)
          (h : (decodeMany (decode fuel) n b').map (fun r => (Value.array r.1, r.2)) =
            some (v, rest)) : Inside (tag :: b) v rest := by
        obtain ⟨⟨vs, rest'⟩, hmany, heq⟩ := Option.map_eq_some_iff.mp h
        obtain ⟨rfl, rfl⟩ := Prod.mk.inj heq
        obtain ⟨hrest, hmem⟩ := inside_of_decodeMany (fun _ _ _ hd => ih hd) hmany
        refine ⟨Nat.lt_succ_of_le (hrest.trans hb'), fun _ hx => (nomatch hx), ?_⟩
        rintro _ x ⟨⟩ hx
        exact Nat.lt_succ_of_lt ((hmem x hx).trans_le hb')
      have harray {k : ℕ} (h : (do
          let n ← readUint k b
          (decodeMany (decode fuel) n.1 n.2).map fun r => (Value.array r.1, r.2)) =
            some (v, rest)) : Inside (tag :: b) v rest := by
        obtain ⟨⟨n, b'⟩, hread, hrest⟩ := Option.bind_eq_some_iff.mp h
        exact helements (length_of_readUint hread) hrest
      rw [decode] at h
      dsimp only at h
      rcases ite_eq_iff.mp h with ⟨-, h⟩ | ⟨-, h⟩
      · exact hplain (.uint tag.toNat) nofun nofun le_rfl (Option.some.inj h)
      rcases ite_eq_iff.mp h with ⟨-, h⟩ | ⟨-, h⟩
      · exact helements le_rfl h
      rcases ite_eq_iff.mp h with ⟨-, h⟩ | ⟨-, h⟩
      · exact hplain .nil nofun nofun le_rfl (Option.some.inj h)
      rcases ite_eq_iff.mp h with ⟨-, h⟩ | ⟨-, h⟩
      · exact hplain (.bool _) nofun nofun le_rfl (Option.some.inj h)
      rcases ite_eq_iff.mp h with ⟨-, h⟩ | ⟨-, h⟩
      · exact hbin h
      rcases ite_eq_iff.mp h with ⟨-, h⟩ | ⟨-, h⟩
      · exact hbin h
      rcases ite_eq_iff.mp h with ⟨-, h⟩ | ⟨-, h⟩
      · exact hbin h
      rcases ite_eq_iff.mp h with ⟨-, h⟩ | ⟨-, h⟩
      · exact huint h
      rcases ite_eq_iff.mp h with ⟨-, h⟩ | ⟨-, h⟩
      · exact huint h
      rcases ite_eq_iff.mp h with ⟨-, h⟩ | ⟨-, h⟩
      · exact huint h
      rcases ite_eq_iff.mp h with ⟨-, h⟩ | ⟨-, h⟩
      · exact huint h
      rcases ite_eq_iff.mp h with ⟨-, h⟩ | ⟨-, h⟩
      · exact harray h
      rcases ite_eq_iff.mp h with ⟨-, h⟩ | ⟨-, h⟩
      · exact harray h
      cases h

/-- A binary in an array is shorter than what the array is read from. -/
theorem shorter_of_decodeAll {b x : Bytes} {vs : List Value}
    (h : decodeAll b = some (.array vs)) (hx : .bin x ∈ vs) : x.length < b.length := by
  unfold decodeAll at h
  split at h
  · rename_i v hdecode
    exact (inside_of_decode hdecode).array vs x (Option.some.inj h) hx
  · cases h

end MessagePack

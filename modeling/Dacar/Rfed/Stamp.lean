import Dacar.Bytes
import Dacar.LeadingZeros

/-!
# Proof-of-work stamps

A stamp pays a cost when the hash of the workblock and the stamp begins with that many zero
bits.  The search draws stamps at random until one pays, up to a budget.
-/

namespace Dacar.Rfed

open LeadingZeros

/-! ## Zero bits -/

/-- So many turns of `while (byte)`. -/
def widthTurns : ℕ → UInt8 → ℕ → ℕ
  | 0, _, width => width
  | turns + 1, byte, width =>
    if byte = 0 then width else widthTurns turns (byte >>> 1) (width + 1)

/-- `byte_bit_width`; a byte is zero after eight shifts. -/
def byteBitWidth (byte : UInt8) : ℕ := widthTurns 8 byte 0

/-- The loop of `leading_zero_bits`, with the value so far. -/
def zeroBits : Bytes → ℕ → ℕ
  | [], value => value
  | byte :: data, value =>
    if byte = 0 then zeroBits data (value + 8) else value + (8 - byteBitWidth byte)

def leadingZeroBits (data : Bytes) : ℕ := zeroBits data 0

theorem byteBitWidth_eq (byte : UInt8) : byteBitWidth byte = byte.toNat.size := by
  have h : ∀ n < 256, byteBitWidth (UInt8.ofNat n) = n.size := by decide +kernel
  have hbyte := h byte.toNat byte.toNat_lt
  rwa [UInt8.ofNat_toNat] at hbyte

theorem zeroBits_eq (data : Bytes) (value : ℕ) : zeroBits data value = value + zeros data := by
  induction data generalizing value with
  | nil => rfl
  | cons byte data ih =>
    rw [zeroBits, zeros]
    split_ifs
    · rw [ih, Nat.add_assoc]
    · rw [byteBitWidth_eq]

theorem leadingZeroBits_eq (data : Bytes) : leadingZeroBits data = zeros data := by
  rw [leadingZeroBits, zeroBits_eq, Nat.zero_add]

/-! ## Stamps -/

def stampSize : ℕ := 32

/-- How often `generate_channel_stamp` tries. -/
def maxTrials : ℕ := 2 ^ 22

/-- The hashes that a workblock is made with. -/
structure StampHashes where
  sha256 : Bytes → Blob 32
  /-- Of a length, the key material and the salt. -/
  hkdf : ℕ → Bytes → Bytes → Bytes

structure StampContext where
  transientId : Blob 32
  workblock : Bytes

section Stamps

variable (H : StampHashes)

/-- One chunk for each round; the counter is cast to a byte. -/
def stampWorkblock (material : Bytes) : ℕ → Bytes
  | 0 => []
  | n + 1 => stampWorkblock material n ++
      H.hkdf 256 material (H.sha256 (material ++ [UInt8.ofNat n])).val

def channelStampWorkblock (channelHash : Hash) (innerBlob : Bytes) (expandRounds : ℕ) :
    StampContext :=
  let transientId := H.sha256 (channelHash.val ++ innerBlob)
  { transientId := transientId
    workblock := stampWorkblock H transientId.val expandRounds }

def stampValue (workblock stamp : Bytes) : ℕ := leadingZeroBits (H.sha256 (workblock ++ stamp)).val

def stampValid (stamp : Bytes) (targetCost : ℕ) (workblock : Bytes) : Bool :=
  decide (stampValue H workblock stamp ≥ targetCost)

/-- The loop of the search, with so many trials to come. -/
def searchStamp (random : ℕ → Blob stampSize) (stampCost : ℕ) (workblock : Bytes) :
    ℕ → ℕ → Except String (Blob stampSize)
  | 0, _ => .error "rfed stamp search exhausted its trial budget"
  | trials + 1, trial =>
    if stampValid H (random trial).val stampCost workblock then .ok (random trial)
    else searchStamp random stampCost workblock trials (trial + 1)

/-- `random` is what the generator gives for each trial. -/
def generateChannelStamp (random : ℕ → Blob stampSize) (channelHash : Hash) (innerBlob : Bytes)
    (stampCost expandRounds : ℕ) : Except String (Blob stampSize) :=
  searchStamp H random stampCost
    (channelStampWorkblock H channelHash innerBlob expandRounds).workblock maxTrials 0

def validateChannelStamp (channelHash : Hash) (innerBlob stamp : Bytes)
    (stampCost expandRounds : ℕ) : Bool :=
  if stamp.length < stampSize then false
  else
    stampValid H stamp stampCost
      (channelStampWorkblock H channelHash innerBlob expandRounds).workblock

/-! ## What a stamp pays -/

/-- The hash of the workblock and the stamp, as a number, is one of the `2 ^ (256 - cost)`
least. -/
def Pays (channelHash : Hash) (innerBlob : Bytes) (expandRounds : ℕ) (stamp : Bytes) (cost : ℕ) :
    Prop :=
  (value (H.sha256 ((channelStampWorkblock H channelHash innerBlob expandRounds).workblock ++
    stamp)).val + 1) * 2 ^ cost ≤ 2 ^ 256

variable {H}

theorem stampValid_iff {channelHash : Hash} {innerBlob : Bytes} {expandRounds cost : ℕ}
    {stamp : Bytes} :
    stampValid H stamp cost (channelStampWorkblock H channelHash innerBlob expandRounds).workblock =
        true ↔ Pays H channelHash innerBlob expandRounds stamp cost := by
  have hlen (b : Blob 32) : 256 ^ b.val.length = 2 ^ 256 := by
    rw [b.property]
    norm_num
  rw [stampValid, decide_eq_true_eq, stampValue, leadingZeroBits_eq, ge_iff_le, le_zeros_iff, hlen]
  rfl

/-- The search finds the first draw that is valid. -/
theorem searchStamp_eq_ok {random : ℕ → Blob stampSize} {cost : ℕ} {workblock : Bytes}
    (trials trial : ℕ) {stamp : Blob stampSize} :
    searchStamp H random cost workblock trials trial = .ok stamp ↔
      ∃ k < trials, random (trial + k) = stamp ∧
        stampValid H stamp.val cost workblock = true ∧
        ∀ j < k, ¬ stampValid H (random (trial + j)).val cost workblock = true := by
  induction trials generalizing trial with
  | zero => simp [searchStamp]
  | succ trials ih =>
    rw [searchStamp]
    split_ifs with hvalid
    · constructor
      · rintro ⟨⟩
        exact ⟨0, Nat.succ_pos trials, rfl, hvalid, fun j hj => absurd hj (Nat.not_lt_zero j)⟩
      · rintro ⟨k, -, rfl, -, hfirst⟩
        obtain rfl : k = 0 := by
          by_contra hk
          exact hfirst 0 (Nat.pos_of_ne_zero hk) hvalid
        rfl
    · rw [ih]
      constructor
      · rintro ⟨k, hk, hrandom, hv, hfirst⟩
        refine ⟨k + 1, Nat.succ_lt_succ hk, ?_, hv, ?_⟩
        · rw [← hrandom, Nat.add_right_comm, Nat.add_assoc]
        · rintro (_ | j) hj
          · exact hvalid
          · have hearlier := hfirst j (Nat.lt_of_succ_lt_succ hj)
            rwa [Nat.add_right_comm, Nat.add_assoc] at hearlier
      · rintro ⟨_ | k, hk, hrandom, hv, hfirst⟩
        · subst hrandom
          exact absurd hv hvalid
        · refine ⟨k, Nat.lt_of_succ_lt_succ hk, ?_, hv, fun j hj => ?_⟩
          · rw [← hrandom, Nat.add_right_comm, Nat.add_assoc]
          · have hlater := hfirst (j + 1) (Nat.succ_lt_succ hj)
            rwa [Nat.add_right_comm, Nat.add_assoc]

theorem searchStamp_eq_error {random : ℕ → Blob stampSize} {cost : ℕ} {workblock : Bytes}
    (trials trial : ℕ) {message : String}
    (h : searchStamp H random cost workblock trials trial = .error message) :
    message = "rfed stamp search exhausted its trial budget" := by
  induction trials generalizing trial with
  | zero => exact (Except.error.inj h).symm
  | succ trials ih =>
    rw [searchStamp] at h
    split_ifs at h
    exact ih _ h

theorem validateChannelStamp_iff {channelHash : Hash} {innerBlob : Bytes}
    {stampCost expandRounds : ℕ} {stamp : Bytes} :
    validateChannelStamp H channelHash innerBlob stamp stampCost expandRounds = true ↔
      32 ≤ stamp.length ∧ Pays H channelHash innerBlob expandRounds stamp stampCost := by
  unfold validateChannelStamp
  split_ifs with hshort
  · exact iff_of_false (fun h => by cases h) fun h => absurd hshort (Nat.not_lt.mpr h.1)
  · rw [stampValid_iff]
    exact ⟨fun h => ⟨Nat.not_lt.mp hshort, h⟩, And.right⟩

/-- Nothing pays more than there are bits in the hash. -/
theorem not_pays {channelHash : Hash} {innerBlob : Bytes} {expandRounds cost : ℕ} {stamp : Bytes}
    (h : 256 < cost) : ¬ Pays H channelHash innerBlob expandRounds stamp cost := by
  intro hpays
  have hvalid := stampValid_iff.mpr hpays
  rw [stampValid, decide_eq_true_eq, stampValue, leadingZeroBits_eq] at hvalid
  have hle (b : Blob 32) : zeros b.val ≤ 256 := (zeros_le b.val).trans (by rw [b.property])
  exact absurd (hvalid.trans (hle _)) (Nat.not_le.mpr h)

/-- What validates is what pays the cost.  The search finds the first draw that pays it, if that
is in the budget, and so never finds one for a cost of more than 256. -/
theorem stamp_contract (H : StampHashes) (random : ℕ → Blob stampSize) (channelHash : Hash)
    (innerBlob : Bytes) (cost rounds : ℕ) :
    (∀ stamp, validateChannelStamp H channelHash innerBlob stamp cost rounds = true ↔
      32 ≤ stamp.length ∧ Pays H channelHash innerBlob rounds stamp cost) ∧
    (∀ stamp, generateChannelStamp H random channelHash innerBlob cost rounds = .ok stamp ↔
      ∃ trial < maxTrials, random trial = stamp ∧
        Pays H channelHash innerBlob rounds stamp.val cost ∧
        ∀ earlier < trial, ¬ Pays H channelHash innerBlob rounds (random earlier).val cost) ∧
    (256 < cost → generateChannelStamp H random channelHash innerBlob cost rounds =
      .error "rfed stamp search exhausted its trial budget") := by
  have hfound : ∀ stamp,
      generateChannelStamp H random channelHash innerBlob cost rounds = .ok stamp ↔
        ∃ trial < maxTrials, random trial = stamp ∧
          Pays H channelHash innerBlob rounds stamp.val cost ∧
          ∀ earlier < trial, ¬ Pays H channelHash innerBlob rounds (random earlier).val cost := by
    intro stamp
    rw [generateChannelStamp, searchStamp_eq_ok]
    simp only [Nat.zero_add, stampValid_iff]
  refine ⟨fun stamp => validateChannelStamp_iff, hfound, fun hcost => ?_⟩
  cases hresult : generateChannelStamp H random channelHash innerBlob cost rounds with
  | ok stamp =>
    obtain ⟨trial, -, -, hpays, -⟩ := (hfound stamp).mp hresult
    exact absurd hpays (not_pays hcost)
  | error message => exact congrArg Except.error (searchStamp_eq_error _ _ hresult)

end Stamps

end Dacar.Rfed

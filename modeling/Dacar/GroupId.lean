import Dacar.Fallible
import Dacar.JsValue

/-!
# Group IDs

The ID of a threshold group is a truncated hash of its members in order and the threshold.
The three ports sort, check and concatenate on their own.
-/

namespace Dacar

open Fallible

/-! ## What is hashed -/

/-- Why members and a threshold are no group. -/
inductive GroupError (ν : Type)
  /-- Not `1 <= N <= M`. -/
  | threshold (n : ν) (m : ℕ)
  | memberSize (member : Bytes)
  /-- Fewer than two members. -/
  | tooFew
  /-- `int.to_bytes` has no room. -/
  | overflow

def hashSize : ℕ := 16

/-- A JavaScript array has fewer than `2 ** 32` elements. -/
abbrev JsArray (α : Type) := {l : List α // l.length < 2 ^ 32}

/-- The integer that the number is. -/
def JsNumber.toInteger : JsNumber → Option ℤ
  | .finite q => if q.den = 1 then some q.num else none
  | _ => none

namespace Javascript

/-- Past the end of the second a byte is `undefined`, and the difference `NaN`, which `sort` takes
for zero. -/
def compareHashes : Bytes → Bytes → ℤ
  | a :: as, b :: bs => if a ≠ b then (a.toNat : ℤ) - b.toNat else compareHashes as bs
  | _, _ => 0

/-- The threshold that is validated. -/
def validateMembers (members : List Bytes) (threshold : JsNumber) :
    Except (GroupError JsNumber) ℕ :=
  match threshold.toInteger with
  | none => .error (.threshold threshold members.length)
  | some n =>
    if ¬(n ≥ 1 ∧ n ≤ members.length) then .error (.threshold threshold members.length)
    else
      match members.find? fun m => m.length ≠ hashSize with
      | some m => .error (.memberSize m)
      | none => if members.length < 2 then .error .tooFew else .ok n.toNat

/-- `[...members].sort(compareHashes)` -/
def sortMembers (members : List Bytes) : List Bytes :=
  members.mergeSort fun a b => compareHashes a b ≤ 0

/-- `blob.set(bytes, offset)` -/
def setAt (blob : Bytes) (offset : ℕ) (bytes : Bytes) : Bytes :=
  blob.take offset ++ bytes ++ blob.drop (offset + bytes.length)

/-- The loop that sets the members, and where it leaves `o`. -/
def setMembers : List Bytes → Bytes → ℕ → Bytes × ℕ
  | [], blob, o => (blob, o)
  | m :: ms, blob, o => setMembers ms (setAt blob o m) (o + hashSize)

def fillBlob (normalized : List Bytes) (n : ℕ) : Bytes :=
  let nBytes := bigEndian 8 n
  let total := normalized.length * hashSize + 8
  let written := setMembers normalized (List.replicate total 0) 0
  setAt written.1 written.2 nBytes

/-- The `blob` of `groupId`. -/
def groupInput (members : JsArray Bytes) (threshold : JsNumber) :
    Except (GroupError JsNumber) Bytes :=
  let normalized := sortMembers members.val
  (validateMembers normalized threshold).map (fillBlob normalized)

end Javascript

namespace Python

def groupInput (members : List Bytes) (threshold : ℤ) : Except (GroupError ℤ) Bytes :=
  let hashes := members.mergeSort fun a b => a ≤ b
  if hashes.length < 2 then .error .tooFew
  else
    match hashes.find? fun m => m.length ≠ hashSize with
    | some m => .error (.memberSize m)
    | none =>
      if ¬(1 ≤ threshold ∧ threshold ≤ hashes.length) then
        .error (.threshold threshold hashes.length)
      else if threshold ≥ 2 ^ 64 then .error .overflow
      else .ok (hashes.flatten ++ bigEndian 8 threshold.toNat)

end Python

namespace Cpp

/-- `std::sort` with `a.compare(b) < 0`; equal members are the same bytes, so that their order
does not show. -/
def sortMembers (compare : Bytes → Bytes → ℤ) (members : List Bytes) : List Bytes :=
  members.mergeSort fun a b => !(compare b a < 0)

/-- The bytes of the threshold that the loop appends. -/
def thresholdBytes (n : ℕ) : Bytes :=
  [56, 48, 40, 32, 24, 16, 8, 0].map fun shift => UInt8.ofNat (n >>> shift &&& 0xff)

/-- The `blob` of `group_id`; the threshold is an `int`. -/
def groupInput (compare : Bytes → Bytes → ℤ) (members : List Bytes) (threshold : Int32) :
    Except (GroupError Int32) Bytes :=
  match members.find? fun m => m.length ≠ hashSize with
  | some m => .error (.memberSize m)
  | none =>
    let sorted := sortMembers compare members
    if sorted.length < 2 then .error .tooFew
    else if threshold.toInt < 1 ∨ threshold.toInt.toNat > sorted.length then
      .error (.threshold threshold sorted.length)
    else .ok (sorted.flatten ++ thresholdBytes threshold.toInt.toNat)

end Cpp

/-! ## The same in all ports -/

/-- `1 <= N <= M`, at least two members, and all of them hashes. -/
structure Group (members : List Bytes) (n : ℤ) : Prop where
  size : ∀ m ∈ members, m.length = hashSize
  two_le : 2 ≤ members.length
  one_le : 1 ≤ n
  le : n ≤ members.length

/-- The members in the order of their bytes, and the threshold in eight bytes. -/
def canonicalBlob (members : List Bytes) (n : ℤ) : Bytes :=
  (members.mergeSort fun a b => a ≤ b).flatten ++ bigEndian 8 n.toNat

theorem mergeSort_congr {α : Type} {r s : α → α → Bool} {l : List α}
    (h : ∀ a ∈ l, ∀ b ∈ l, r a b = s a b) : l.mergeSort r = l.mergeSort s := by
  have hmap := List.map_mergeSort (f := id) h
  rwa [List.map_id, List.map_id] at hmap

theorem sortedMembers_eq_iff {members members' : List Bytes} :
    (members.mergeSort fun a b => a ≤ b) = members'.mergeSort (fun a b => a ≤ b) ↔
      members.Perm members' := by
  constructor
  · intro h
    exact (List.mergeSort_perm members _).symm.trans (h ▸ List.mergeSort_perm members' _)
  · intro h
    have hsorted : ∀ l : List Bytes, (l.mergeSort fun a b => a ≤ b).Pairwise (· ≤ ·) := fun l => by
      have htrans : ∀ a b c : Bytes, decide (a ≤ b) = true → decide (b ≤ c) = true →
          decide (a ≤ c) = true := fun a b c hab hbc =>
        decide_eq_true (List.le_trans (of_decide_eq_true hab) (of_decide_eq_true hbc))
      have htotal : ∀ a b : Bytes, (decide (a ≤ b) || decide (b ≤ a)) = true := fun a b => by
        simpa using List.le_total a b
      have hpairwise := List.pairwise_mergeSort htrans htotal l
      simpa using hpairwise
    refine List.Perm.eq_of_pairwise (fun a b _ _ hab hba => List.le_antisymm hab hba) (hsorted _)
      (hsorted _) ?_
    exact (List.mergeSort_perm _ _).trans (h.trans (List.mergeSort_perm _ _).symm)

theorem flatten_injective {l l' : List Bytes} (hl : ∀ m ∈ l, m.length = hashSize)
    (hl' : ∀ m ∈ l', m.length = hashSize) (h : l.flatten = l'.flatten) : l = l' := by
  lift l to List (Blob hashSize) using hl
  lift l' to List (Blob hashSize) using hl'
  rw [← List.flatMap_def, ← List.flatMap_def] at h
  rw [Blob.flatMap_val_injective (by decide) h]

/-- The blob fixes the members and the threshold. -/
theorem canonicalBlob_eq_iff {members members' : List Bytes} {n n' : ℤ} (h : Group members n)
    (h' : Group members' n') (hn : n < 2 ^ 64) (hn' : n' < 2 ^ 64) :
    canonicalBlob members n = canonicalBlob members' n' ↔ members.Perm members' ∧ n = n' := by
  constructor
  · intro heq
    have hmembers := List.append_inj_left' heq (by simp)
    have hthreshold := List.append_inj_right' heq (by simp)
    have hone := h.one_le
    have hone' := h'.one_le
    refine ⟨sortedMembers_eq_iff.mp (flatten_injective ?_ ?_ hmembers), ?_⟩
    · exact fun m hm => h.size m (List.mem_mergeSort.mp hm)
    · exact fun m hm => h'.size m (List.mem_mergeSort.mp hm)
    · have := bigEndian_injective (by omega) (by omega) hthreshold
      omega
  · rintro ⟨hperm, rfl⟩
    rw [canonicalBlob, sortedMembers_eq_iff.mpr hperm, canonicalBlob]

theorem Group.perm {members members' : List Bytes} {n : ℤ} (h : Group members n)
    (hperm : members.Perm members') : Group members' n where
  size m hm := h.size m (hperm.mem_iff.mpr hm)
  two_le := hperm.length_eq ▸ h.two_le
  one_le := h.one_le
  le := hperm.length_eq ▸ h.le

theorem find?_size_eq_none {members : List Bytes} :
    (members.find? fun m => m.length ≠ hashSize) = none ↔ ∀ m ∈ members, m.length = hashSize := by
  simp [List.find?_eq_none]

/-! ## The ports -/

namespace Javascript

theorem compareHashes_le_iff {a b : Bytes} (h : a.length = b.length) :
    compareHashes a b ≤ 0 ↔ a ≤ b := by
  induction a generalizing b with
  | nil =>
    obtain rfl := List.eq_nil_of_length_eq_zero h.symm
    simp [compareHashes]
  | cons x xs ih =>
    obtain ⟨y, ys, rfl⟩ := List.exists_cons_of_length_eq_add_one h.symm
    rw [List.cons_le_cons_iff, compareHashes]
    split_ifs with hxy
    · have hlt : (x.toNat : ℤ) - y.toNat ≤ 0 ↔ x < y := by
        have hne : x.toNat ≠ y.toNat := fun heq => hxy (UInt8.toNat_inj.mp heq)
        rw [UInt8.lt_iff_toNat_lt]
        omega
      simp [hlt, hxy]
    · obtain rfl : x = y := not_not.mp hxy
      rw [ih (Nat.succ.inj h)]
      simp

theorem sortMembers_eq {members : List Bytes} (h : ∀ m ∈ members, m.length = hashSize) :
    sortMembers members = members.mergeSort fun a b => a ≤ b :=
  mergeSort_congr fun a ha b hb =>
    decide_eq_decide.mpr (compareHashes_le_iff ((h a ha).trans (h b hb).symm))

theorem toInteger_eq_some {t : JsNumber} {n : ℤ} : t.toInteger = some n ↔ t = .finite n := by
  cases t with
  | finite q =>
    rw [JsNumber.toInteger, JsNumber.finite.injEq]
    constructor
    · intro h
      split_ifs at h with hden
      rw [← Option.some.inj h, Rat.coe_int_num_of_den_eq_one hden]
    · rintro rfl
      simp
  | _ => simp [JsNumber.toInteger]

theorem validateMembers_of_group {members : List Bytes} {n : ℤ} (h : Group members n) :
    validateMembers members (.finite n) = .ok n.toNat := by
  have hn : JsNumber.toInteger (.finite n) = some n := toInteger_eq_some.mpr rfl
  rw [validateMembers, hn]
  dsimp only
  rw [if_neg (not_not.mpr ⟨h.one_le, h.le⟩), find?_size_eq_none.mpr h.size]
  dsimp only
  rw [if_neg (not_lt.mpr h.two_le)]

theorem setAt_append {before rest bytes : Bytes} {offset : ℕ} (ho : before.length = offset) :
    setAt (before ++ rest) offset bytes = before ++ bytes ++ rest.drop bytes.length := by
  subst ho
  rw [setAt, List.take_left, List.drop_append, List.drop_of_length_le (Nat.le_add_right _ _),
    List.nil_append, Nat.add_sub_cancel_left]

/-- The members stand one after the other, and behind them what was there. -/
theorem setMembers_eq {members : List Bytes} (h : ∀ m ∈ members, m.length = hashSize)
    {before rest : Bytes} {o : ℕ} (ho : before.length = o) :
    setMembers members (before ++ rest) o =
      (before ++ members.flatten ++ rest.drop (members.length * hashSize),
        o + members.length * hashSize) := by
  induction members generalizing before rest o with
  | nil => simp [setMembers]
  | cons m members ih =>
    obtain ⟨hm, hrest⟩ := List.forall_mem_cons.mp h
    rw [setMembers, setAt_append ho, ih hrest (by simp [ho, hm]), List.drop_drop, hm,
      List.flatten_cons, List.length_cons, Nat.succ_mul]
    simp only [List.append_assoc, Nat.add_assoc, Nat.add_comm hashSize]

theorem fillBlob_eq {members : List Bytes} (h : ∀ m ∈ members, m.length = hashSize) (n : ℕ) :
    fillBlob members n = members.flatten ++ bigEndian 8 n := by
  have hlength : members.flatten.length = members.length * hashSize := by
    rw [List.length_flatten, List.map_congr_left h, List.map_const', List.sum_replicate,
      smul_eq_mul]
  have hset : setMembers members (List.replicate (members.length * hashSize + 8) 0) 0 =
      (members.flatten ++ List.replicate 8 0, members.length * hashSize) := by
    have hwritten := @setMembers_eq members h [] (List.replicate (members.length * hashSize + 8) 0)
      0 rfl
    rwa [List.nil_append, List.nil_append, List.drop_replicate, Nat.add_sub_cancel_left,
      Nat.zero_add] at hwritten
  unfold fillBlob
  dsimp only
  rw [hset, setAt_append hlength, bigEndian_length, List.drop_replicate, Nat.sub_self,
    List.replicate_zero, List.append_nil]

theorem groupInput_eq_ok {members : JsArray Bytes} {t : JsNumber} {b : Bytes} :
    groupInput members t = .ok b ↔
      ∃ n : ℤ, t = .finite n ∧ Group members.val n ∧ b = canonicalBlob members.val n := by
  obtain ⟨members, -⟩ := members
  have hlength : (sortMembers members).length = members.length := List.length_mergeSort _
  have hsizes : ((sortMembers members).find? fun m => m.length ≠ hashSize) = none ↔
      ∀ m ∈ members, m.length = hashSize := by
    rw [find?_size_eq_none]
    simp only [sortMembers, List.mem_mergeSort]
  constructor
  · intro h
    unfold groupInput at h
    dsimp only at h
    rw [validateMembers, hlength] at h
    cases hn : t.toInteger with
    | none =>
      rw [hn] at h
      cases h
    | some n =>
      rw [hn] at h
      dsimp only at h
      by_cases hrange : n ≥ 1 ∧ n ≤ members.length
      · rw [if_neg (not_not.mpr hrange)] at h
        cases hfind : (sortMembers members).find? fun m => m.length ≠ hashSize with
        | some m =>
          rw [hfind] at h
          cases h
        | none =>
          rw [hfind] at h
          dsimp only at h
          split_ifs at h with hfew
          · cases h
          · have hsize := hsizes.mp hfind
            refine ⟨n, toInteger_eq_some.mp hn, ⟨hsize, not_lt.mp hfew, hrange.1, hrange.2⟩, ?_⟩
            have hsorted : ∀ m ∈ sortMembers members, m.length = hashSize := fun m hm =>
              hsize m (List.mem_mergeSort.mp hm)
            rw [canonicalBlob, ← sortMembers_eq hsize, ← fillBlob_eq hsorted]
            exact (Except.ok.inj h).symm
      · rw [if_pos hrange] at h
        cases h
  · rintro ⟨n, rfl, hgroup, rfl⟩
    have hsorted : Group (sortMembers members) n :=
      hgroup.perm (List.mergeSort_perm _ _).symm
    unfold groupInput
    dsimp only
    rw [validateMembers_of_group hsorted, canonicalBlob, ← sortMembers_eq hgroup.size,
      ← fillBlob_eq hsorted.size]
    rfl

end Javascript

namespace Python

theorem groupInput_eq_ok {members : List Bytes} {n : ℤ} {b : Bytes} :
    groupInput members n = .ok b ↔ Group members n ∧ n < 2 ^ 64 ∧ b = canonicalBlob members n := by
  have hsizes : ((members.mergeSort fun a b => a ≤ b).find? fun m => m.length ≠ hashSize) = none ↔
      ∀ m ∈ members, m.length = hashSize := by
    rw [find?_size_eq_none]
    simp only [List.mem_mergeSort]
  constructor
  · intro h
    unfold groupInput at h
    dsimp only at h
    rw [List.length_mergeSort] at h
    by_cases hfew : members.length < 2
    · rw [if_pos hfew] at h
      cases h
    rw [if_neg hfew] at h
    cases hfind : (members.mergeSort fun a b => a ≤ b).find? fun m => m.length ≠ hashSize with
    | some m =>
      rw [hfind] at h
      cases h
    | none =>
      rw [hfind] at h
      dsimp only at h
      split_ifs at h with hn hroom
      exact ⟨⟨hsizes.mp hfind, not_lt.mp hfew, hn.1, hn.2⟩, not_le.mp hroom,
        (Except.ok.inj h).symm⟩
  · rintro ⟨hgroup, hroom, rfl⟩
    unfold groupInput
    dsimp only
    rw [List.length_mergeSort, if_neg (not_lt.mpr hgroup.two_le), hsizes.mpr hgroup.size]
    dsimp only
    rw [if_neg (not_not.mpr ⟨hgroup.one_le, hgroup.le⟩), if_neg (not_le.mpr hroom), canonicalBlob]

end Python

namespace Cpp

variable {compare : Bytes → Bytes → ℤ}
  (hcompare : ∀ a b : Bytes, a.length = b.length → (compare a b < 0 ↔ a < b))
include hcompare

theorem sortMembers_eq {members : List Bytes} (h : ∀ m ∈ members, m.length = hashSize) :
    sortMembers compare members = members.mergeSort fun a b => a ≤ b :=
  mergeSort_congr fun a ha b hb => by
    rw [← decide_not, decide_eq_decide, hcompare b a ((h b hb).trans (h a ha).symm), List.not_lt]

omit hcompare in
/-- The shifts give the bytes of the threshold, the highest first. -/
theorem thresholdBytes_eq (n : ℕ) : thresholdBytes n = bigEndian 8 n := by
  have hbyte (shift : ℕ) : UInt8.ofNat (n >>> shift &&& 0xff) = UInt8.ofNat (n / 2 ^ shift) := by
    rw [Nat.shiftRight_eq_div_pow, show 0xff = 2 ^ 8 - 1 from rfl, Nat.and_two_pow_sub_one_eq_mod]
    exact UInt8.toNat_inj.mp (by simp)
  simp only [thresholdBytes, List.map_cons, List.map_nil, hbyte, bigEndian, Nat.div_div_eq_div_mul]
  norm_num

theorem groupInput_eq_ok {members : List Bytes} {t : Int32} {b : Bytes} :
    groupInput compare members t = .ok b ↔
      Group members t.toInt ∧ b = canonicalBlob members t.toInt := by
  have hlength : (sortMembers compare members).length = members.length := List.length_mergeSort _
  constructor
  · intro h
    unfold groupInput at h
    cases hfind : members.find? fun m => m.length ≠ hashSize with
    | some m =>
      rw [hfind] at h
      cases h
    | none =>
      rw [hfind] at h
      dsimp only at h
      rw [hlength] at h
      split_ifs at h with hfew hn
      have hsize := find?_size_eq_none.mp hfind
      refine ⟨⟨hsize, by omega, by omega, by omega⟩, ?_⟩
      rw [canonicalBlob, ← sortMembers_eq hcompare hsize, ← thresholdBytes_eq]
      exact (Except.ok.inj h).symm
  · rintro ⟨hgroup, rfl⟩
    have htwo := hgroup.two_le
    have hone := hgroup.one_le
    have hle := hgroup.le
    unfold groupInput
    rw [find?_size_eq_none.mpr hgroup.size]
    dsimp only
    rw [hlength, if_neg (by omega), if_neg (by omega), sortMembers_eq hcompare hgroup.size,
      canonicalBlob, thresholdBytes_eq]

end Cpp

/-! ## The IDs -/

section Ids

variable (sha256 : Bytes → Bytes)

namespace Javascript

def groupId (members : JsArray Bytes) (threshold : JsNumber) :
    Except (GroupError JsNumber) Bytes :=
  (groupInput members threshold).map fun blob => (sha256 blob).take hashSize

/-- The ID is kept once it is computed. -/
structure ThresholdGroup where
  members : JsArray Bytes
  threshold : JsNumber
  id : Option Bytes

def ThresholdGroup.make (members : JsArray Bytes) (threshold : JsNumber) :
    Except (GroupError JsNumber) ThresholdGroup :=
  (validateMembers members.val threshold).map fun _ =>
    ⟨⟨sortMembers members.val, (List.length_mergeSort _).trans_lt members.property⟩, threshold,
      none⟩

/-- `ThresholdGroup.groupId` -/
def ThresholdGroup.groupId (g : ThresholdGroup) :
    Except (GroupError JsNumber) Bytes × ThresholdGroup :=
  match g.id with
  | some id => (.ok id, g)
  | none =>
    match Javascript.groupId sha256 g.members g.threshold with
    | .ok id => (.ok id, { g with id := some id })
    | .error e => (.error e, g)

end Javascript

namespace Python

def groupId (members : List Bytes) (threshold : ℤ) : Except (GroupError ℤ) Bytes :=
  (groupInput members threshold).map fun blob => (sha256 blob).take hashSize

structure ThresholdGroup where
  members : List Bytes
  threshold : ℤ

def ThresholdGroup.make (members : List Bytes) (threshold : ℤ) :
    Except (GroupError ℤ) ThresholdGroup :=
  let normalized := members.mergeSort fun a b => a ≤ b
  (Python.groupId sha256 normalized threshold).map fun _ => ⟨normalized, threshold⟩

def ThresholdGroup.groupId (g : ThresholdGroup) : Except (GroupError ℤ) Bytes :=
  Python.groupId sha256 g.members g.threshold

end Python

namespace Cpp

variable (compare : Bytes → Bytes → ℤ)

def groupId (members : List Bytes) (threshold : Int32) : Except (GroupError Int32) Bytes :=
  (groupInput compare members threshold).map fun blob => (sha256 blob).take hashSize

structure ThresholdGroup where
  members : List Bytes
  threshold : Int32

def ThresholdGroup.make (members : List Bytes) (threshold : Int32) :
    Except (GroupError Int32) ThresholdGroup :=
  let sorted := sortMembers compare members
  (Cpp.groupId sha256 compare sorted threshold).map fun _ => ⟨sorted, threshold⟩

def ThresholdGroup.groupId (g : ThresholdGroup) : Except (GroupError Int32) Bytes :=
  Cpp.groupId sha256 compare g.members g.threshold

end Cpp

/-- What is hashed of accepted members and thresholds tells them apart up to the order of the
members, and so does the ID where the two hashes are no collision. -/
def Canonical {μ ν : Type} (list : μ → List Bytes)
    (input : μ → ν → Except (GroupError ν) Bytes) : Prop :=
  ∀ members members' n n' b b', input members n = .ok b → input members' n' = .ok b' →
    (b = b' ↔ (list members).Perm (list members') ∧ n = n') ∧
      (((sha256 b).take hashSize = (sha256 b').take hashSize → b = b') →
        (sha256 b).take hashSize = (sha256 b').take hashSize →
        (list members).Perm (list members') ∧ n = n')

/-- Every port gives this ID, the function and the object. -/
structure HasGroupId (compare : Bytes → Bytes → ℤ) (members : JsArray Bytes) (n : ℤ)
    (id : Bytes) : Prop where
  hashed : id = (sha256 (canonicalBlob members.val n)).take hashSize
  javascript : Javascript.groupId sha256 members (.finite n) = .ok id
  javascriptObject : ∃ g, Javascript.ThresholdGroup.make members (.finite n) = .ok g ∧
    ∀ calls, ((fun g => (Javascript.ThresholdGroup.groupId sha256 g).2)^[calls] g |>.groupId
      sha256).1 = .ok id
  python : Python.groupId sha256 members.val n = .ok id
  pythonObject : ∃ g, Python.ThresholdGroup.make sha256 members.val n = .ok g ∧
    g.groupId sha256 = .ok id
  cpp : ∀ t : Int32, t.toInt = n → Cpp.groupId sha256 compare members.val t = .ok id
  cppObject : ∀ t : Int32, t.toInt = n →
    ∃ g, Cpp.ThresholdGroup.make sha256 compare members.val t = .ok g ∧
      g.groupId sha256 compare = .ok id

variable {sha256}

/-- What the inputs are in terms of groups is enough for canonicity. -/
theorem canonical_of_group {μ ν : Type} {list : μ → List Bytes}
    {input : μ → ν → Except (GroupError ν) Bytes} (number : ν → ℤ → Prop)
    (hnumber : ∀ t t' n n', number t n → number t' n' → (t = t' ↔ n = n'))
    (hinput : ∀ members t b, input members t = .ok b → ∃ n : ℤ, number t n ∧ n < 2 ^ 64 ∧
      Group (list members) n ∧ b = canonicalBlob (list members) n) :
    Canonical sha256 list input := by
  intro members members' t t' b b' h h'
  obtain ⟨n, ht, hn, hgroup, rfl⟩ := hinput _ _ _ h
  obtain ⟨n', ht', hn', hgroup', rfl⟩ := hinput _ _ _ h'
  have hiff := canonicalBlob_eq_iff hgroup hgroup' hn hn'
  rw [← hnumber t t' n n' ht ht'] at hiff
  exact ⟨hiff, fun hfree hsame => hiff.mp (hfree hsame)⟩

/-- The object's members are sorted, and the ID is not there or the right one. -/
structure Javascript.ThresholdGroup.Keeps (sha256 : Bytes → Bytes) (id : Bytes)
    (g : Javascript.ThresholdGroup) : Prop where
  groupId : Javascript.groupId sha256 g.members g.threshold = .ok id
  cached : g.id = none ∨ g.id = some id

theorem Javascript.ThresholdGroup.Keeps.call {id : Bytes} {g : Javascript.ThresholdGroup}
    (h : g.Keeps sha256 id) :
    (g.groupId sha256).1 = .ok id ∧ (g.groupId sha256).2.Keeps sha256 id := by
  rw [Javascript.ThresholdGroup.groupId]
  rcases h.cached with hnone | hsome
  · rw [hnone]
    dsimp only
    rw [h.groupId]
    exact ⟨rfl, h.groupId, .inr rfl⟩
  · rw [hsome]
    exact ⟨rfl, h⟩

theorem Javascript.ThresholdGroup.Keeps.calls {id : Bytes} {g : Javascript.ThresholdGroup}
    (h : g.Keeps sha256 id) (calls : ℕ) :
    ((fun g => (Javascript.ThresholdGroup.groupId sha256 g).2)^[calls] g).Keeps sha256 id := by
  induction calls generalizing g with
  | zero => exact h
  | succ calls ih => exact ih h.call.2

theorem canonicalBlob_perm {members members' : List Bytes} (h : members.Perm members') (n : ℤ) :
    canonicalBlob members n = canonicalBlob members' n := by
  rw [canonicalBlob, sortedMembers_eq_iff.mpr h, canonicalBlob]

theorem hasGroupId {compare : Bytes → Bytes → ℤ}
    (hcompare : ∀ a b : Bytes, a.length = b.length → (compare a b < 0 ↔ a < b))
    {members : JsArray Bytes} {n : ℤ} (h : Group members.val n) :
    HasGroupId sha256 compare members n ((sha256 (canonicalBlob members.val n)).take hashSize) := by
  have hroom : n < 2 ^ 64 := by
    have hle := h.le
    have hlength := members.property
    omega
  have hjs : ∀ members' : JsArray Bytes, members.val.Perm members'.val →
      Javascript.groupId sha256 members' (.finite n) =
        .ok ((sha256 (canonicalBlob members.val n)).take hashSize) := fun members' hperm => by
    rw [Javascript.groupId, Javascript.groupInput_eq_ok.mpr ⟨n, rfl, h.perm hperm, rfl⟩,
      canonicalBlob_perm hperm]
    rfl
  have hpython : ∀ members', members.val.Perm members' → Python.groupId sha256 members' n =
      .ok ((sha256 (canonicalBlob members.val n)).take hashSize) := fun members' hperm => by
    rw [Python.groupId, Python.groupInput_eq_ok.mpr ⟨h.perm hperm, hroom, rfl⟩,
      canonicalBlob_perm hperm]
    rfl
  have hcpp : ∀ members', members.val.Perm members' → ∀ t : Int32, t.toInt = n →
      Cpp.groupId sha256 compare members' t =
        .ok ((sha256 (canonicalBlob members.val n)).take hashSize) := fun members' hperm t ht => by
    subst ht
    rw [Cpp.groupId, (Cpp.groupInput_eq_ok hcompare).mpr ⟨h.perm hperm, rfl⟩,
      canonicalBlob_perm hperm]
    rfl
  have hsorted : ∀ le : Bytes → Bytes → Bool, members.val.Perm (members.val.mergeSort le) :=
    fun le => (List.mergeSort_perm _ _).symm
  constructor
  · rfl
  · exact hjs members (.refl _)
  · refine ⟨_, map_eq_ok.mpr ⟨_, Javascript.validateMembers_of_group h, rfl⟩, fun calls => ?_⟩
    exact ((⟨hjs _ (hsorted _), .inl rfl⟩ : Javascript.ThresholdGroup.Keeps sha256 _ _).calls
      calls).call.1
  · exact hpython _ (.refl _)
  · exact ⟨_, map_eq_ok.mpr ⟨_, hpython _ (hsorted _), rfl⟩, hpython _ (hsorted _)⟩
  · exact hcpp _ (.refl _)
  · intro t ht
    exact ⟨_, map_eq_ok.mpr ⟨_, hcpp _ (hsorted _) t ht, rfl⟩, hcpp _ (hsorted _) t ht⟩

/-- The Group ID is that of the members in any order and the threshold, in all ports. -/
theorem group_id_canonical (sha256 : Bytes → Bytes) {compare : Bytes → Bytes → ℤ}
    (hcompare : ∀ a b : Bytes, a.length = b.length → (compare a b < 0 ↔ a < b)) :
    Canonical sha256 (fun members : JsArray Bytes => members.val) Javascript.groupInput ∧
      Canonical sha256 id Python.groupInput ∧ Canonical sha256 id (Cpp.groupInput compare) ∧
      ∀ (members : JsArray Bytes) (n : ℤ) (id : Bytes),
        (Javascript.groupId sha256 members (.finite n) = .ok id ∨
          Python.groupId sha256 members.val n = .ok id ∨
          ∃ t : Int32, t.toInt = n ∧ Cpp.groupId sha256 compare members.val t = .ok id) →
        ∀ members' : JsArray Bytes, members'.val.Perm members.val →
          HasGroupId sha256 compare members' n id := by
  refine ⟨?_, ?_, ?_, ?_⟩
  · refine canonical_of_group (fun t n => t = .finite n) ?_ ?_
    · rintro t t' n n' rfl rfl
      simp
    · intro members t b h
      obtain ⟨n, ht, hgroup, hb⟩ := Javascript.groupInput_eq_ok.mp h
      have hle := hgroup.le
      have hlength := members.property
      exact ⟨n, ht, by omega, hgroup, hb⟩
  · refine canonical_of_group (fun t n => t = n) ?_ ?_
    · rintro t t' n n' rfl rfl
      rfl
    · intro members t b h
      obtain ⟨hgroup, hroom, hb⟩ := Python.groupInput_eq_ok.mp h
      exact ⟨t, rfl, hroom, hgroup, hb⟩
  · refine canonical_of_group (fun t n => t.toInt = n) ?_ ?_
    · rintro t t' n n' rfl rfl
      exact Int32.toInt_inj.symm
    · intro members t b h
      obtain ⟨hgroup, hb⟩ := (Cpp.groupInput_eq_ok hcompare).mp h
      exact ⟨t.toInt, rfl, by have := t.toInt_lt; omega, hgroup, hb⟩
  · intro members n id h members' hperm
    obtain ⟨hgroup, rfl⟩ : Group members.val n ∧
        (sha256 (canonicalBlob members.val n)).take hashSize = id := by
      rcases h with h | h | ⟨t, rfl, h⟩
      · obtain ⟨b, hb, rfl⟩ := map_eq_ok.mp h
        obtain ⟨m, hm, hgroup, rfl⟩ := Javascript.groupInput_eq_ok.mp hb
        obtain rfl : n = m := by simpa using hm
        exact ⟨hgroup, rfl⟩
      · obtain ⟨b, hb, rfl⟩ := map_eq_ok.mp h
        obtain ⟨hgroup, -, rfl⟩ := Python.groupInput_eq_ok.mp hb
        exact ⟨hgroup, rfl⟩
      · obtain ⟨b, hb, rfl⟩ := map_eq_ok.mp h
        obtain ⟨hgroup, rfl⟩ := (Cpp.groupInput_eq_ok hcompare).mp hb
        exact ⟨hgroup, rfl⟩
    rw [← canonicalBlob_perm hperm]
    exact hasGroupId hcompare (hgroup.perm hperm.symm)

/-- The order of `memcmp`. -/
def compareBytes (a b : Bytes) : ℤ := if a < b then -1 else if b < a then 1 else 0

theorem compareBytes_lt_iff (a b : Bytes) : compareBytes a b < 0 ↔ a < b := by
  unfold compareBytes
  split_ifs <;> simp_all

def twoMembers : List Bytes := [List.replicate 16 2, List.replicate 16 1]

theorem group_id_canonical_two :
    HasGroupId id compareBytes ⟨twoMembers.reverse, by decide⟩ 1
      ((canonicalBlob twoMembers 1).take hashSize) :=
  have hgroup : Group twoMembers 1 := ⟨by decide, by decide, by decide, by decide⟩
  (group_id_canonical id fun a b _ => compareBytes_lt_iff a b).2.2.2 ⟨twoMembers, by decide⟩ 1 _
    (.inr (.inl (map_eq_ok.mpr ⟨_, Python.groupInput_eq_ok.mpr ⟨hgroup, by decide, rfl⟩, rfl⟩)))
    ⟨twoMembers.reverse, by decide⟩ (List.reverse_perm _)

end Ids

end Dacar

import Dacar.StateVector

/-!
# The C++ state

The C++ port keeps its entries in a vector and a separate index from tuple hash to
position.  `Indexed` is what ties the two together; `toStateVector` reads such a pair
as the insertion-ordered map of the other ports, and every operation of the port is
the operation of theirs under that reading.
-/

namespace Dacar.Cpp

/-- `has_add` and `has_remove` tell "no timestamp" from a timestamp of zero. -/
structure Entry where
  tuple : Tuple
  hasAdd : Bool := false
  addTs : ℕ := 0
  hasRemove : Bool := false
  removeTs : ℕ := 0

namespace Entry

def active (e : Entry) : Bool := e.hasAdd && (!e.hasRemove || decide (e.addTs > e.removeTs))

/-- The entries `prune` drops. -/
def expired (cutoff : ℕ) (e : Entry) : Bool :=
  if e.active then false
  else if !e.hasAdd || !e.hasRemove then false
  else decide (physical e.addTs < cutoff) && decide (physical e.removeTs < cutoff)

def toEntry (e : Entry) : Dacar.Entry where
  tuple := e.tuple
  addTs := if e.hasAdd then some e.addTs else none
  removeTs := if e.hasRemove then some e.removeTs else none

def maxU64 (a b : ℕ) : ℕ := if a > b then a else b

/-- The write of `apply`. -/
def record (op : Operation) (e : Entry) : Entry :=
  match op.action with
  | .grant =>
    { e with addTs := if e.hasAdd then maxU64 e.addTs op.hlc else op.hlc, hasAdd := true }
  | .revoke =>
    { e with
      removeTs := if e.hasRemove then maxU64 e.removeTs op.hlc else op.hlc
      hasRemove := true }

/-- The writes of `merge`. -/
def join (other : Entry) (e : Entry) : Entry :=
  let e :=
    if other.hasAdd then
      { e with
        addTs := if e.hasAdd then maxU64 e.addTs other.addTs else other.addTs
        hasAdd := true }
    else e
  if other.hasRemove then
    { e with
      removeTs := if e.hasRemove then maxU64 e.removeTs other.removeTs else other.removeTs
      hasRemove := true }
  else e

theorem active_eq (e : Entry) : e.active = e.toEntry.isActive := by
  cases ha : e.hasAdd <;> cases hr : e.hasRemove <;>
    simp [active, Dacar.Entry.isActive, toEntry, ha, hr]

theorem expired_eq {cutoff : ℕ} {cutoff' : ℤ} (h : ∀ p : ℕ, p < cutoff ↔ (p : ℤ) < cutoff')
    (e : Entry) : e.toEntry.expired cutoff' = e.expired cutoff := by
  unfold Dacar.Entry.expired expired
  rw [active_eq]
  cases e.toEntry.isActive <;> cases ha : e.hasAdd <;> cases hr : e.hasRemove <;>
    simp [toEntry, ha, hr, h]

@[simp] theorem record_tuple (op : Operation) (e : Entry) : (record op e).tuple = e.tuple := by
  cases h : op.action <;> simp [record, h]

@[simp] theorem join_tuple (other e : Entry) : (join other e).tuple = e.tuple := by
  cases ha : other.hasAdd <;> cases hr : other.hasRemove <;> simp [join, ha, hr]

theorem record_some (op : Operation) (e : Entry) :
    (record op e).toEntry = Dacar.Entry.record op (some e.toEntry) := by
  cases h : op.action <;> cases ha : e.hasAdd <;> cases hr : e.hasRemove <;>
    simp [record, Dacar.Entry.record, toEntry, maxTs, maxU64, h, ha, hr]

theorem record_none (op : Operation) :
    (record op { tuple := op.tuple }).toEntry = Dacar.Entry.record op none := by
  cases h : op.action <;> simp [record, Dacar.Entry.record, toEntry, maxTs, h]

theorem join_some (other e : Entry) :
    (join other e).toEntry = Dacar.Entry.join other.toEntry (some e.toEntry) := by
  cases ha : other.hasAdd <;> cases hr : other.hasRemove <;> cases ha' : e.hasAdd <;>
    cases hr' : e.hasRemove <;>
    simp [join, Dacar.Entry.join, toEntry, maxBoth, maxU64, ha, hr, ha', hr'] <;> grind

theorem join_none (other : Entry) :
    (join other { tuple := other.tuple }).toEntry = Dacar.Entry.join other.toEntry none := by
  cases ha : other.hasAdd <;> cases hr : other.hasRemove <;>
    simp [join, Dacar.Entry.join, toEntry, maxBoth, ha, hr]

end Entry

variable {κ : Type*} [DecidableEq κ]

/-- The index maps the hash of the entry at position `i` to `i`, and nothing else. -/
def Indexed (hash : Tuple → κ) (entries : List Entry) (index : κ → Option ℕ) : Prop :=
  ∀ k i, index k = some i ↔ ∃ e, entries[i]? = some e ∧ hash e.tuple = k

structure StateVector (hash : Tuple → κ) where
  entries : List Entry
  index : κ → Option ℕ
  deletionHorizonDays : ℕ
  indexed : Indexed hash entries index

section Indexed

variable {hash : Tuple → κ} {entries : List Entry} {index : κ → Option ℕ}

omit [DecidableEq κ] in
theorem Indexed.nodup (h : Indexed hash entries index) :
    (entries.map fun e => hash e.tuple).Nodup := by
  rw [List.Nodup, List.pairwise_iff_getElem]
  intro i j hi hj hij he
  simp only [List.length_map] at hi hj
  simp only [List.getElem_map] at he
  have h₁ := (h _ i).mpr ⟨entries[i], List.getElem?_eq_getElem hi, rfl⟩
  have h₂ := (h _ j).mpr ⟨entries[j], List.getElem?_eq_getElem hj, he.symm⟩
  rw [h₁] at h₂
  exact absurd (Option.some.inj h₂) hij.ne

omit [DecidableEq κ] in
theorem Indexed.not_mem (h : Indexed hash entries index) {k : κ} (hk : index k = none) :
    k ∉ entries.map fun e => hash e.tuple := by
  intro hm
  obtain ⟨e, he, rfl⟩ := List.mem_map.mp hm
  obtain ⟨i, hi⟩ := List.mem_iff_getElem?.mp he
  simp [(h _ i).mpr ⟨e, hi, rfl⟩] at hk

omit [DecidableEq κ] in
/-- Replacing an entry by one of the same tuple keeps the index right. -/
theorem Indexed.set (h : Indexed hash entries index) {i : ℕ} {e e' : Entry}
    (hi : entries[i]? = some e) (ht : e'.tuple = e.tuple) :
    Indexed hash (entries.set i e') index := by
  intro k j
  rw [h k j]
  by_cases hj : j = i
  · subst hj
    have hlt : j < entries.length := (List.getElem?_eq_some_iff.mp hi).1
    rw [List.getElem?_set_self hlt, hi]
    simp [ht]
  · simp [List.getElem?_set_ne (Ne.symm hj)]

/-- Appending an entry for a hash that is not there and indexing it. -/
theorem Indexed.push (h : Indexed hash entries index) {e : Entry}
    (hk : index (hash e.tuple) = none) :
    Indexed hash (entries ++ [e]) (Function.update index (hash e.tuple) (some entries.length)) := by
  intro k j
  by_cases hke : k = hash e.tuple
  · subst hke
    rw [Function.update_self, Option.some.injEq]
    constructor
    · rintro rfl
      exact ⟨e, by simp, rfl⟩
    · rintro ⟨e', he', ht⟩
      by_contra hj
      rcases lt_or_gt_of_ne hj with hlt | hgt
      · rw [List.getElem?_eq_none (by simp; omega)] at he'
        cases he'
      · rw [List.getElem?_append_left hgt] at he'
        have := (h _ j).mpr ⟨e', he', ht⟩
        simp [hk] at this
  · -- the other hashes keep their positions, all before the new one
    rw [Function.update_of_ne hke, h k j]
    constructor
    · rintro ⟨e', he', ht⟩
      have hlt : j < entries.length := (List.getElem?_eq_some_iff.mp he').1
      exact ⟨e', by rw [List.getElem?_append_left hlt, he'], ht⟩
    · rintro ⟨e', he', ht⟩
      rcases lt_trichotomy j entries.length with hlt | rfl | hgt
      · rw [List.getElem?_append_left hlt] at he'
        exact ⟨e', he', ht⟩
      · simp only [List.getElem?_concat_length, Option.some.injEq] at he'
        exact absurd (he' ▸ ht.symm) hke
      · rw [List.getElem?_eq_none (by simp; omega)] at he'
        cases he'

end Indexed

/-- `_index[_entries[i].tuple.hash()] = i` for every position, from an empty index. -/
def reindex (hash : Tuple → κ) (entries : List Entry) : κ → Option ℕ :=
  entries.zipIdx.foldl (fun index p => Function.update index (hash p.1.tuple) (some p.2))
    fun _ => none

theorem reindex_concat (hash : Tuple → κ) (entries : List Entry) (e : Entry) :
    reindex hash (entries ++ [e]) =
      Function.update (reindex hash entries) (hash e.tuple) (some entries.length) := by
  simp [reindex, List.zipIdx_append]

theorem indexed_reindex {hash : Tuple → κ} {entries : List Entry}
    (hn : (entries.map fun e => hash e.tuple).Nodup) :
    Indexed hash entries (reindex hash entries) := by
  induction entries using List.reverseRecOn with
  | nil => intro k i; simp [reindex]
  | append_singleton entries e ih =>
    rw [List.map_append, List.nodup_append] at hn
    have h := ih hn.1
    rw [reindex_concat]
    refine h.push ?_
    cases hi : reindex hash entries (hash e.tuple) with
    | none => rfl
    | some i =>
      obtain ⟨e', he', ht⟩ := (h _ i).mp hi
      have hm : hash e.tuple ∈ entries.map fun e => hash e.tuple :=
        List.mem_map.mpr ⟨e', List.mem_of_getElem? he', ht⟩
      exact absurd rfl (hn.2.2 _ hm _ (by simp))

namespace StateVector

variable {hash : Tuple → κ}

def empty (deletionHorizonDays : ℕ) : StateVector hash :=
  ⟨[], fun _ => none, deletionHorizonDays, fun k i => by simp⟩

/-- `days` is an `int` of at least 1, so the product stays below 2^64. -/
def deletionHorizonMs (s : StateVector hash) : ℕ := s.deletionHorizonDays * msPerDay

/-- `entry_for(tuple)`, then mutate the entry it refers to. -/
def withEntry (s : StateVector hash) (t : Tuple) (f : Entry → Entry)
    (hf : ∀ e, (f e).tuple = e.tuple) : StateVector hash :=
  match hi : s.index (hash t) with
  | some i =>
    have hlt : i < s.entries.length := by
      obtain ⟨e, he, _⟩ := (s.indexed _ i).mp hi
      exact (List.getElem?_eq_some_iff.mp he).1
    { s with
      entries := s.entries.set i (f s.entries[i])
      indexed := s.indexed.set (List.getElem?_eq_getElem hlt) (hf _) }
  | none =>
    { s with
      entries := s.entries ++ [f { tuple := t }]
      index := Function.update s.index (hash t) (some s.entries.length)
      indexed := by
        have ht : (f { tuple := t }).tuple = t := hf _
        simpa only [ht] using s.indexed.push (e := f { tuple := t }) (by rw [ht]; exact hi) }

/-- A negative `nowMs` reads the wall clock instead. -/
def clockReading (wall : ℕ) (nowMs : ℤ) : ℕ := if nowMs < 0 then wall else nowMs.toNat

/-- Unsigned, so the subtraction stops at zero. -/
def cutoff (s : StateVector hash) (now : ℕ) : ℕ :=
  if now > s.deletionHorizonMs then now - s.deletionHorizonMs else 0

def apply (s : StateVector hash) (op : Operation) (wall : ℕ) (nowMs maxFutureMs : ℤ) :
    Bool × StateVector hash :=
  let now := clockReading wall nowMs
  if maxFutureMs ≥ 0 ∧ physical op.hlc > now + maxFutureMs.toNat then (false, s)
  else if physical op.hlc < s.cutoff now then (false, s)
  else (true, s.withEntry op.tuple (Entry.record op) (Entry.record_tuple op))

def merge (s other : StateVector hash) : StateVector hash :=
  other.entries.foldl (fun s e => s.withEntry e.tuple (Entry.join e) (Entry.join_tuple e)) s

/-- `kept.push_back(std::move(entry))` copies: `Tuple` declares its destructor, so it has
no move constructor, and the entries stay whole when nothing is pruned. -/
def prune (s : StateVector hash) (wall : ℕ) (nowMs : ℤ) : ℕ × StateVector hash :=
  let cutoff := s.cutoff (clockReading wall nowMs)
  let pruned := s.entries.countP (Entry.expired cutoff)
  let kept := s.entries.filter fun e => !e.expired cutoff
  if pruned = 0 then (0, s)
  else
    (pruned,
      { s with
        entries := kept
        index := reindex hash kept
        indexed := indexed_reindex
          (s.indexed.nodup.sublist (List.filter_sublist.map fun e : Entry => hash e.tuple)) })

def isActive (s : StateVector hash) (k : κ) : Bool :=
  (s.index k).any fun i => (s.entries[i]?).any Entry.active

def activeTuples (s : StateVector hash) : List Tuple :=
  (s.entries.filter Entry.active).map Entry.tuple

/-! ## The map a state stands for -/

def toStateVector (s : StateVector hash) : Dacar.StateVector hash where
  entries :=
    { entries := s.entries.map fun e => (hash e.tuple, e.toEntry)
      nodup := by
        rw [List.map_map]
        exact s.indexed.nodup }
  deletionHorizonDays := s.deletionHorizonDays
  keyed := by
    intro k e he
    obtain ⟨e', _, h⟩ := List.mem_map.mp he
    cases h
    rfl

omit [DecidableEq κ] in
@[simp] theorem toStateVector_horizon (s : StateVector hash) :
    s.toStateVector.deletionHorizonMs = s.deletionHorizonMs := by
  simp [Dacar.StateVector.deletionHorizonMs, deletionHorizonMs, toStateVector]

omit [DecidableEq κ] in
theorem entries_toStateVector (s : StateVector hash) :
    s.toStateVector.entries.entries = s.entries.map fun e => (hash e.tuple, e.toEntry) := rfl

omit [DecidableEq κ] in
theorem keys_toStateVector (s : StateVector hash) :
    s.toStateVector.entries.entries.map Prod.fst = s.entries.map fun e => hash e.tuple := by
  simp [toStateVector]

/-- Mutating the entry of a tuple is writing the map at its key. -/
theorem withEntry_entries (s : StateVector hash) (t : Tuple) {f : Entry → Entry}
    (hf : ∀ e, (f e).tuple = e.tuple) {g : Option Dacar.Entry → Dacar.Entry}
    (hsome : ∀ e, (f e).toEntry = g (some e.toEntry))
    (hnone : (f { tuple := t }).toEntry = g none) :
    (s.withEntry t f hf).toStateVector.entries = s.toStateVector.entries.upsert (hash t) g := by
  apply OrderedMap.ext
  change _ = OrderedMap.upsertEntries (hash t) g s.toStateVector.entries.entries
  unfold withEntry
  split
  · next i hi =>
    -- the entry is there and is rewritten in its place
    obtain ⟨e, he, ht⟩ := (s.indexed _ i).mp hi
    obtain ⟨hlt, rfl⟩ := List.getElem?_eq_some_iff.mp he
    have hget : s.toStateVector.entries.entries[i]? =
        some (hash t, (s.entries[i]).toEntry) := by
      simp [toStateVector, hlt, ht]
    rw [OrderedMap.upsertEntries_of_getElem? s.toStateVector.entries.nodup hget]
    simp only [toStateVector, List.map_set, hf, hsome, ht]
  · next hi =>
    -- a new entry goes to the end
    have hnot : hash t ∉ s.toStateVector.entries.entries.map Prod.fst := by
      rw [keys_toStateVector]
      exact s.indexed.not_mem hi
    rw [OrderedMap.upsertEntries_of_not_mem hnot]
    simp [toStateVector, hf, hnone]

@[simp] theorem withEntry_days (s : StateVector hash) (t : Tuple) {f : Entry → Entry}
    (hf : ∀ e, (f e).tuple = e.tuple) :
    (s.withEntry t f hf).deletionHorizonDays = s.deletionHorizonDays := by
  unfold withEntry
  split <;> rfl

theorem toStateVector_record (s : StateVector hash) (op : Operation) :
    (s.withEntry op.tuple (Entry.record op) (Entry.record_tuple op)).toStateVector =
      s.toStateVector.record op :=
  Dacar.StateVector.ext_entries
    (withEntry_entries s op.tuple (Entry.record_tuple op) (Entry.record_some op)
      (Entry.record_none op))
    (withEntry_days s op.tuple (Entry.record_tuple op))

/-- A negative skew bound switches the check off. -/
def skewBound (maxFutureMs : ℤ) : Option ℤ := if maxFutureMs < 0 then none else some maxFutureMs

omit [DecidableEq κ] in
/-- Against a timestamp, the saturated cutoff decides what the signed one does. -/
theorem lt_cutoff_iff (s : StateVector hash) (p now : ℕ) :
    p < s.cutoff now ↔ (p : ℤ) < now - s.toStateVector.deletionHorizonMs := by
  rw [toStateVector_horizon, cutoff]
  split_ifs <;> omega

theorem skewBound_any (maxFutureMs : ℤ) (p now : ℕ) :
    ((skewBound maxFutureMs).any fun f => decide ((p : ℤ) > now + f)) =
      decide (maxFutureMs ≥ 0 ∧ p > now + maxFutureMs.toNat) := by
  unfold skewBound
  split_ifs with h
  · have hneg : ¬ maxFutureMs ≥ 0 := by omega
    simp [hneg]
  · simp only [Option.any_some, decide_eq_decide]
    omega

theorem toStateVector_apply (s : StateVector hash) (op : Operation) (wall : ℕ)
    (nowMs maxFutureMs : ℤ) :
    s.toStateVector.apply op (clockReading wall nowMs) (skewBound maxFutureMs) =
      ((s.apply op wall nowMs maxFutureMs).1,
        (s.apply op wall nowMs maxFutureMs).2.toStateVector) := by
  unfold Dacar.StateVector.apply apply
  simp only [skewBound_any, ← lt_cutoff_iff, decide_eq_true_eq]
  split_ifs
  · rfl
  · rfl
  · rw [toStateVector_record]

theorem apply_fst_eq (s : StateVector hash) (op : Operation) (wall : ℕ) (nowMs maxFutureMs : ℤ) :
    (s.apply op wall nowMs maxFutureMs).1 =
      (s.toStateVector.apply op (clockReading wall nowMs) (skewBound maxFutureMs)).1 :=
  (congrArg Prod.fst (toStateVector_apply s op wall nowMs maxFutureMs)).symm

theorem toStateVector_apply_snd (s : StateVector hash) (op : Operation) (wall : ℕ)
    (nowMs maxFutureMs : ℤ) :
    (s.apply op wall nowMs maxFutureMs).2.toStateVector =
      (s.toStateVector.apply op (clockReading wall nowMs) (skewBound maxFutureMs)).2 :=
  (congrArg Prod.snd (toStateVector_apply s op wall nowMs maxFutureMs)).symm

theorem toStateVector_merge (s other : StateVector hash) :
    (s.merge other).toStateVector = s.toStateVector.merge other.toStateVector := by
  -- entry by entry, writing the vector is writing the map
  have hfold : ∀ (es : List Entry) (s : StateVector hash),
      (es.foldl (fun s e => s.withEntry e.tuple (Entry.join e) (Entry.join_tuple e))
        s).toStateVector.entries =
        joinAll s.toStateVector.entries (es.map fun e => (hash e.tuple, e.toEntry)) ∧
      (es.foldl (fun s e => s.withEntry e.tuple (Entry.join e) (Entry.join_tuple e))
        s).deletionHorizonDays = s.deletionHorizonDays := by
    intro es
    induction es with
    | nil => exact fun s => ⟨rfl, rfl⟩
    | cons e es ih =>
      intro s
      have h := ih (s.withEntry e.tuple (Entry.join e) (Entry.join_tuple e))
      rw [withEntry_days, withEntry_entries s e.tuple (Entry.join_tuple e) (Entry.join_some e)
        (Entry.join_none e)] at h
      exact h
  obtain ⟨he, hd⟩ := hfold other.entries s
  exact Dacar.StateVector.ext_entries he hd

omit [DecidableEq κ] in
theorem toStateVector_isActiveEntries (s : StateVector hash) :
    (s.toStateVector.entries.values.filter Dacar.Entry.isActive) =
      (s.entries.filter Entry.active).map Entry.toEntry := by
  rw [OrderedMap.values, toStateVector, List.map_map, List.filter_map]
  congr 1
  exact List.filter_congr fun e _ => (Entry.active_eq e).symm

omit [DecidableEq κ] in
theorem toStateVector_activeTuples (s : StateVector hash) :
    s.toStateVector.activeTuples = s.activeTuples := by
  rw [Dacar.StateVector.activeTuples, toStateVector_isActiveEntries, List.map_map]
  rfl

theorem toStateVector_isActive (s : StateVector hash) (k : κ) :
    s.toStateVector.isActive k = s.isActive k := by
  rw [Dacar.StateVector.isActive, isActive]
  cases hi : s.index k with
  | some i =>
    obtain ⟨e, he, rfl⟩ := (s.indexed k i).mp hi
    have hmem : (hash e.tuple, e.toEntry) ∈ s.toStateVector.entries.entries :=
      List.mem_map.mpr ⟨e, List.mem_of_getElem? he, rfl⟩
    rw [(OrderedMap.mem_entries_iff _).mp hmem]
    simp [he, Entry.active_eq]
  | none =>
    cases hg : s.toStateVector.entries.get? k with
    | none => rfl
    | some e =>
      have hk := List.mem_map_of_mem (f := Prod.fst) ((OrderedMap.mem_entries_iff _).mpr hg)
      rw [keys_toStateVector] at hk
      exact absurd hk (s.indexed.not_mem hi)

theorem toStateVector_prune (s : StateVector hash) (wall : ℕ) (nowMs : ℤ) :
    s.toStateVector.prune (clockReading wall nowMs) =
      ((s.prune wall nowMs).1, (s.prune wall nowMs).2.toStateVector) := by
  have hexp : ∀ e : Entry,
      e.toEntry.expired (clockReading wall nowMs - s.toStateVector.deletionHorizonMs) =
        e.expired (s.cutoff (clockReading wall nowMs)) :=
    Entry.expired_eq fun p => s.lt_cutoff_iff p _
  have hcount : (s.toStateVector.prune (clockReading wall nowMs)).1 =
      s.entries.countP (Entry.expired (s.cutoff (clockReading wall nowMs))) := by
    rw [Dacar.StateVector.prune, entries_toStateVector, List.countP_map]
    exact List.countP_congr fun e _ => by rw [Function.comp_apply, hexp]
  have hkept : (s.toStateVector.prune (clockReading wall nowMs)).2.entries.entries =
      (s.entries.filter fun e => !e.expired (s.cutoff (clockReading wall nowMs))).map
        fun e => (hash e.tuple, e.toEntry) := by
    change List.filter _ (s.entries.map _) = _
    rw [List.filter_map]
    exact congrArg (List.map _) (List.filter_congr fun e _ => by rw [Function.comp_apply, hexp])
  -- with nothing to prune the port keeps the old vector, which is the filtered one
  by_cases h0 : s.entries.countP (Entry.expired (s.cutoff (clockReading wall nowMs))) = 0
  · have hp : s.prune wall nowMs = (0, s) := if_pos h0
    rw [hp]
    refine Prod.ext (hcount.trans h0) (Dacar.StateVector.ext_entries (OrderedMap.ext ?_) rfl)
    refine hkept.trans (congrArg (List.map _) (List.filter_eq_self.mpr fun e he => ?_))
    simpa using List.countP_eq_zero.mp h0 e he
  · have hp : s.prune wall nowMs = (_, _) := if_neg h0
    rw [hp]
    exact Prod.ext hcount (Dacar.StateVector.ext_entries (OrderedMap.ext hkept) rfl)

end StateVector

end Dacar.Cpp

import Dacar.Operation
import Dacar.OrderedMap

/-!
# The authorization state

An LWW-Element-Set: every known tuple has an optional Add and an optional Remove
timestamp, and is active when the Add is strictly the later one.  The map key of a
tuple is its hex pre-image in JavaScript and the SHA-256 of the pre-image in Python
and C++, so the key function is a parameter of the state.
-/

namespace Dacar

def msPerDay : ℕ := 24 * 60 * 60 * 1000
def defaultMaxFutureMs : ℤ := msPerDay
def defaultDeletionHorizonDays : ℕ := 180

structure Entry where
  tuple : Tuple
  addTs : Option ℕ
  removeTs : Option ℕ
  deriving DecidableEq

def maxTs (existing : Option ℕ) (incoming : ℕ) : ℕ :=
  match existing with
  | none => incoming
  | some e => if e > incoming then e else incoming

def maxBoth (a b : Option ℕ) : Option ℕ :=
  match a, b with
  | none, b => b
  | a, none => a
  | some a, some b => if a > b then some a else some b

namespace Entry

/-- Ties resolve to removed. -/
def isActive (e : Entry) : Bool :=
  match e.addTs, e.removeTs with
  | none, _ => false
  | some _, none => true
  | some a, some r => decide (a > r)

/-- What `prune` deletes: inactive, with both timestamps older than the cutoff. -/
def expired (cutoff : ℤ) (e : Entry) : Bool :=
  !e.isActive &&
    match e.addTs, e.removeTs with
    | some a, some r => decide ((physical a : ℤ) < cutoff) && decide ((physical r : ℤ) < cutoff)
    | _, _ => false

/-- Record an operation in the entry of its tuple, made now if there is none. -/
def record (op : Operation) (old : Option Entry) : Entry :=
  let e := old.getD ⟨op.tuple, none, none⟩
  match op.action with
  | .grant => { e with addTs := some (maxTs e.addTs op.hlc) }
  | .revoke => { e with removeTs := some (maxTs e.removeTs op.hlc) }

/-- Join another replica's entry into ours. -/
def join (other : Entry) (old : Option Entry) : Entry :=
  let e := old.getD ⟨other.tuple, none, none⟩
  { e with addTs := maxBoth e.addTs other.addTs, removeTs := maxBoth e.removeTs other.removeTs }

theorem record_tuple (op : Operation) (old : Option Entry) :
    (record op old).tuple = (old.map Entry.tuple).getD op.tuple := by
  cases old <;> cases h : op.action <;> simp [record, h]

theorem join_tuple (other : Entry) (old : Option Entry) :
    (join other old).tuple = (old.map Entry.tuple).getD other.tuple := by
  cases old <;> rfl

end Entry

variable {κ : Type*} [DecidableEq κ]

/-- Every entry is filed under the key of its own tuple. -/
def Keyed (key : Tuple → κ) (m : OrderedMap κ Entry) : Prop :=
  ∀ k e, (k, e) ∈ m.entries → key e.tuple = k

section Keyed

variable {key : Tuple → κ} {m : OrderedMap κ Entry}

omit [DecidableEq κ] in
theorem Keyed.empty : Keyed key .empty := fun _ _ h => absurd h List.not_mem_nil

omit [DecidableEq κ] in
theorem Keyed.filter (h : Keyed key m) (p : κ × Entry → Bool) : Keyed key (m.filter p) :=
  fun k e he => h k e (List.mem_of_mem_filter he)

theorem Keyed.upsert (h : Keyed key m) {t : Tuple} {f : Option Entry → Entry}
    (hf : ∀ old, (f old).tuple = (old.map Entry.tuple).getD t) :
    Keyed key (m.upsert (key t) f) := by
  intro k e he
  rcases OrderedMap.mem_upsert_entries.mp he with ⟨rfl, rfl⟩ | ⟨-, he⟩
  · rw [hf]
    cases hg : m.get? (key t) with
    | none => rfl
    | some e => exact h _ e (m.mem_entries_iff.mpr hg)
  · exact h k e he

/-- Writing every entry of a keyed list, in order. -/
def joinAll (m : OrderedMap κ Entry) (es : List (κ × Entry)) : OrderedMap κ Entry :=
  es.foldl (fun m p => m.upsert p.1 (Entry.join p.2)) m

theorem Keyed.joinAll (h : Keyed key m) {es : List (κ × Entry)}
    (hes : ∀ p ∈ es, key p.2.tuple = p.1) : Keyed key (joinAll m es) := by
  induction es generalizing m with
  | nil => exact h
  | cons p es ih =>
    have hp : Keyed key (m.upsert p.1 (Entry.join p.2)) :=
      hes p List.mem_cons_self ▸ h.upsert (Entry.join_tuple p.2)
    exact ih hp fun q hq => hes q (List.mem_cons_of_mem p hq)

end Keyed

structure StateVector (key : Tuple → κ) where
  entries : OrderedMap κ Entry
  deletionHorizonDays : ℕ
  keyed : Keyed key entries

namespace StateVector

variable {key : Tuple → κ}

omit [DecidableEq κ] in
theorem ext_entries {s t : StateVector key} (he : s.entries = t.entries)
    (hd : s.deletionHorizonDays = t.deletionHorizonDays) : s = t := by
  cases s
  cases t
  simp_all

def empty (deletionHorizonDays : ℕ) : StateVector key := ⟨.empty, deletionHorizonDays, .empty⟩

def deletionHorizonMs (s : StateVector key) : ℤ := s.deletionHorizonDays * msPerDay

/-- The write of `apply`, past its two checks. -/
def record (s : StateVector key) (op : Operation) : StateVector key where
  entries := s.entries.upsert (key op.tuple) (Entry.record op)
  deletionHorizonDays := s.deletionHorizonDays
  keyed := s.keyed.upsert (Entry.record_tuple op)

/-- Apply one operation at clock reading `now`; no skew check when `maxFutureMs` is `none`. -/
def apply (s : StateVector key) (op : Operation) (now : ℤ) (maxFutureMs : Option ℤ) :
    Bool × StateVector key :=
  let physicalMs : ℤ := physical op.hlc
  -- a physical time on either boundary is accepted
  if maxFutureMs.any fun f => decide (physicalMs > now + f) then (false, s)
  else if physicalMs < now - s.deletionHorizonMs then (false, s)
  else (true, s.record op)

/-- Take the later timestamp of each kind for every tuple; nothing is checked. -/
def merge (s other : StateVector key) : StateVector key where
  entries := joinAll s.entries other.entries.entries
  deletionHorizonDays := s.deletionHorizonDays
  keyed := s.keyed.joinAll fun p hp => other.keyed p.1 p.2 hp

/-- Tombstone pruning at clock reading `now`, with the number of tuples pruned. -/
def prune (s : StateVector key) (now : ℤ) : ℕ × StateVector key :=
  let cutoff := now - s.deletionHorizonMs
  (s.entries.entries.countP fun p => p.2.expired cutoff,
    { s with
      entries := s.entries.filter fun p => !p.2.expired cutoff
      keyed := s.keyed.filter _ })

def isActive (s : StateVector key) (k : κ) : Bool := (s.entries.get? k).any Entry.isActive

/-- Active tuples, in insertion order. -/
def activeTuples (s : StateVector key) : List Tuple :=
  (s.entries.values.filter Entry.isActive).map Entry.tuple

section Intake

variable (s : StateVector key) (op : Operation) (now : ℤ) (maxFutureMs : Option ℤ)

/-- The two checks of `apply`: neither too far in the future nor past the horizon. -/
def Admits : Prop :=
  (∀ f ∈ maxFutureMs, (physical op.hlc : ℤ) ≤ now + f) ∧
    now - s.deletionHorizonMs ≤ physical op.hlc

instance : Decidable (s.Admits op now maxFutureMs) :=
  inferInstanceAs (Decidable (_ ∧ _))

theorem apply_eq :
    s.apply op now maxFutureMs =
      if s.Admits op now maxFutureMs then (true, s.record op) else (false, s) := by
  have hfuture : (maxFutureMs.any fun f => decide ((physical op.hlc : ℤ) > now + f)) = true ↔
      ¬ ∀ f ∈ maxFutureMs, (physical op.hlc : ℤ) ≤ now + f := by
    cases maxFutureMs <;> simp
  unfold apply
  by_cases hf : (maxFutureMs.any fun f => decide ((physical op.hlc : ℤ) > now + f)) = true
  · rw [if_pos hf, if_neg fun ha => hfuture.mp hf ha.1]
  · by_cases h : (physical op.hlc : ℤ) < now - s.deletionHorizonMs
    · rw [if_neg hf, if_pos h, if_neg fun ha => Int.not_le.mpr h ha.2]
    · rw [if_neg hf, if_neg h, if_pos ⟨not_not.mp (mt hfuture.mpr hf), Int.not_lt.mp h⟩]

theorem apply_fst :
    (s.apply op now maxFutureMs).1 = decide (s.Admits op now maxFutureMs) := by
  rw [apply_eq]
  split_ifs with h <;> simp [h]

theorem apply_horizon :
    (s.apply op now maxFutureMs).2.deletionHorizonDays = s.deletionHorizonDays := by
  rw [apply_eq]
  split_ifs <;> rfl

end Intake

theorem mem_activeTuples (s : StateVector key) {t : Tuple} :
    t ∈ s.activeTuples ↔ ∃ k e, s.entries.get? k = some e ∧ e.isActive = true ∧ e.tuple = t := by
  simp only [activeTuples, List.mem_map, List.mem_filter, OrderedMap.mem_values_iff]
  constructor
  · rintro ⟨e, ⟨⟨k, hk⟩, ha⟩, rfl⟩
    exact ⟨k, e, hk, ha, rfl⟩
  · rintro ⟨k, e, hk, ha, rfl⟩
    exact ⟨e, ⟨⟨k, hk⟩, ha⟩, rfl⟩

theorem get?_record (s : StateVector key) (op : Operation) (k : κ) :
    (s.record op).entries.get? k =
      if k = key op.tuple then some (Entry.record op (s.entries.get? (key op.tuple)))
      else s.entries.get? k :=
  OrderedMap.get?_upsert _ _ _ _

theorem get?_prune (s : StateVector key) (now : ℤ) (k : κ) :
    (s.prune now).2.entries.get? k =
      (s.entries.get? k).filter fun e => !e.expired (now - s.deletionHorizonMs) :=
  OrderedMap.get?_filter _ _ _

end StateVector

/-! ## Timestamps -/

variable {key : Tuple → κ}

/-- The Add timestamp for grants, the Remove timestamp for revokes. -/
def Entry.timestamp (e : Entry) : Action → Option ℕ
  | .grant => e.addTs
  | .revoke => e.removeTs

def StateVector.timestamp (s : StateVector key) (action : Action) (t : Tuple) : Option ℕ :=
  (s.entries.get? (key t)).bind fun e => e.timestamp action

theorem maxTs_cases (existing : Option ℕ) (incoming : ℕ) :
    existing = some (maxTs existing incoming) ∨ maxTs existing incoming = incoming := by
  cases existing with
  | none => exact .inr rfl
  | some e =>
    simp only [maxTs]
    split_ifs
    · exact .inl rfl
    · exact .inr rfl

theorem le_maxTs (t : Option ℕ) (x : ℕ) : x ≤ maxTs t x := by
  cases t with
  | none => exact le_rfl
  | some a =>
    simp only [maxTs]
    split_ifs with h
    · exact h.le
    · exact le_rfl

theorem Entry.timestamp_record (op : Operation) (old : Option Entry) (action : Action) :
    (Entry.record op old).timestamp action =
      if op.action = action then some (maxTs (old.bind fun e => e.timestamp action) op.hlc)
      else old.bind fun e => e.timestamp action := by
  cases old <;> cases h : op.action <;> cases action <;> simp [Entry.record, Entry.timestamp, h]

theorem Entry.isActive_iff (e : Entry) :
    e.isActive = true ↔ ∃ a ∈ e.addTs, ∀ r ∈ e.removeTs, r < a := by
  cases ha : e.addTs <;> cases hr : e.removeTs <;> simp [Entry.isActive, ha, hr]

/-- Only an inactive entry with both timestamps expires, and only when both are old. -/
theorem Entry.expired_iff {cutoff : ℤ} {e : Entry} : e.expired cutoff = true ↔
    e.isActive = false ∧ ∀ action, ∃ ts ∈ e.timestamp action, (physical ts : ℤ) < cutoff := by
  rw [expired, Bool.and_eq_true, Bool.not_eq_true']
  refine and_congr_right fun _ => ?_
  constructor
  · intro hold
    cases ha : e.addTs with
    | none => simp [ha] at hold
    | some a =>
      cases hr : e.removeTs with
      | none => simp [ha, hr] at hold
      | some r =>
        simp only [ha, hr, Bool.and_eq_true, decide_eq_true_eq] at hold
        rintro (_ | _)
        · exact ⟨r, hr, hold.2⟩
        · exact ⟨a, ha, hold.1⟩
  · intro hold
    obtain ⟨a, ha, haold⟩ := hold .grant
    obtain ⟨r, hr, hrold⟩ := hold .revoke
    have ha' : e.addTs = some a := ha
    have hr' : e.removeTs = some r := hr
    simp only [ha', hr', haold, hrold, decide_true, Bool.and_true]

namespace StateVector

theorem timestamp_record_eq (s : StateVector key) (op : Operation) (action : Action) (t : Tuple) :
    (s.record op).timestamp action t =
      if key t = key op.tuple ∧ op.action = action then
        some (maxTs (s.timestamp action t) op.hlc)
      else s.timestamp action t := by
  rw [timestamp, get?_record]
  by_cases hk : key t = key op.tuple
  · rw [if_pos hk, Option.bind_some, Entry.timestamp_record, ← hk]
    simp only [hk, true_and, timestamp]
  · rw [if_neg hk, if_neg fun h => hk h.1]
    rfl

/-- A timestamp that was not there before is the operation's own. -/
theorem timestamp_record {s : StateVector key} {op : Operation} {action : Action} {t : Tuple}
    {ts : ℕ} (h : (s.record op).timestamp action t = some ts) :
    s.timestamp action t = some ts ∨ key op.tuple = key t ∧ op.action = action ∧ op.hlc = ts := by
  rw [timestamp_record_eq] at h
  split_ifs at h with hop
  · have hts := Option.some.inj h
    rw [← hts]
    exact (maxTs_cases _ op.hlc).imp_right fun hnew => ⟨hop.1.symm, hop.2, hnew.symm⟩
  · exact .inl h

/-- A timestamp only ever gives way to a later one. -/
theorem le_timestamp_record {s : StateVector key} {action : Action} {t : Tuple} {ts : ℕ}
    (h : s.timestamp action t = some ts) (op : Operation) :
    ∃ ts', (s.record op).timestamp action t = some ts' ∧ ts ≤ ts' := by
  rw [timestamp_record_eq, h]
  split_ifs
  · refine ⟨_, rfl, ?_⟩
    rw [maxTs]
    split_ifs with hlt
    · exact le_rfl
    · exact not_lt.mp hlt
  · exact ⟨ts, rfl, le_rfl⟩

theorem isActive_iff (s : StateVector key) (t : Tuple) :
    s.isActive (key t) = true ↔
      ∃ a, s.timestamp .grant t = some a ∧ ∀ r, s.timestamp .revoke t = some r → r < a := by
  rw [isActive, timestamp, timestamp]
  cases s.entries.get? (key t) with
  | none => simp
  | some e => exact e.isActive_iff

/-- An operation that is later than all there is decides whether its tuple is active. -/
theorem isActive_record {s : StateVector key} {op : Operation}
    (h : ∀ action ts, s.timestamp action op.tuple = some ts → ts < op.hlc) :
    (s.record op).isActive (key op.tuple) = true ↔ op.action = .grant := by
  have hmax (action) : maxTs (s.timestamp action op.tuple) op.hlc = op.hlc := by
    cases hts : s.timestamp action op.tuple with
    | none => rfl
    | some ts => exact if_neg (not_lt.mpr (h action ts hts).le)
  rw [isActive_iff, timestamp_record_eq, timestamp_record_eq, hmax, hmax]
  cases ha : op.action with
  | grant =>
    refine iff_of_true ⟨op.hlc, by simp, fun r hr => h .revoke r (by simpa using hr)⟩ rfl
  | revoke =>
    refine iff_of_false ?_ (by decide)
    rintro ⟨a, hgrant, hrevoke⟩
    have hlt := hrevoke op.hlc (by simp)
    exact absurd (h .grant a (by simpa using hgrant)) (not_lt.mpr hlt.le)

end StateVector

end Dacar

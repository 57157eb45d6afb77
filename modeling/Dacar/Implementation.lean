import Dacar.Cpp.Engine
import Dacar.Snapshot

/-!
# The three ports side by side

What a port makes of a state: how one comes about, what it holds and answers, and its bytes.
Behind a state of any of them is one insertion-ordered map, in C++ through its index.
-/

namespace Dacar

open Cpp.StateVector (clockReading skewBound)

/-- `Engine::evaluate` -/
def Cpp.Engine.evaluate (hmac16 : Hmac16) (config : Config) (opts : Dacar.Engine.Options)
    (active : List Tuple) (objectId relation : String) (grantee : Hash) : Bool :=
  evaluateHashes hmac16 config opts active grantee (config.hashers.map fun hasher => {
    hasher := hasher
    objectHashes := (hasher.hashObject hmac16 objectId).hashes.map Subtype.val
    allowRelationHash := hasher.hashRelation hmac16 relation
    denyRelationHash := hasher.hashRelation hmac16 ("-" ++ relation) })

variable {κ : Type} [DecidableEq κ]

/-! ## States of the three ports -/

inductive Implementation
  | javascript
  | python
  | cpp
  deriving DecidableEq

/-- What is done to a state once it is there; a negative `nowMs` or `maxFutureMs` of the C++
port is an omitted argument of the others. -/
inductive StateStep
  | apply (op : Operation) (wall : ℕ) (nowMs maxFutureMs : ℤ)
  | prune (wall : ℕ) (nowMs : ℤ)

inductive StateAnswer
  | applied (accepted : Bool)
  | pruned (count : ℕ)

namespace StateVector

variable {key : Tuple → κ}

inductive Reachable : StateVector key → Prop
  | empty (deletionHorizonDays : ℕ) : Reachable (.empty deletionHorizonDays)
  | apply {s : StateVector key} (h : Reachable s) (op : Operation) (now : ℤ)
      (maxFutureMs : Option ℤ) : Reachable (s.apply op now maxFutureMs).2
  | merge {s other : StateVector key} (h : Reachable s) (hother : Reachable other) :
      Reachable (s.merge other)
  | prune {s : StateVector key} (h : Reachable s) (now : ℤ) : Reachable (s.prune now).2

def step (s : StateVector key) : StateStep → StateAnswer × StateVector key
  | .apply op wall nowMs maxFutureMs =>
    let r := s.apply op (clockReading wall nowMs) (skewBound maxFutureMs)
    (.applied r.1, r.2)
  | .prune wall nowMs =>
    let r := s.prune (clockReading wall nowMs)
    (.pruned r.1, r.2)

end StateVector

namespace Cpp.RawState

variable {hash : Tuple → κ}

inductive Reachable : RawState hash → Prop
  | empty (deletionHorizonDays : ℕ) : Reachable (.empty deletionHorizonDays)
  | apply {s : RawState hash} (h : Reachable s) (op : Operation) (wall : ℕ)
      (nowMs maxFutureMs : ℤ) : Reachable (s.apply op wall nowMs maxFutureMs).2
  | merge {s other : RawState hash} (h : Reachable s) (hother : Reachable other) :
      Reachable (s.merge other)
  | prune {s : RawState hash} (h : Reachable s) (wall : ℕ) (nowMs : ℤ) :
      Reachable (s.prune wall nowMs).2

def step (s : RawState hash) : StateStep → StateAnswer × RawState hash
  | .apply op wall nowMs maxFutureMs =>
    let r := s.apply op wall nowMs maxFutureMs
    (.applied r.1, r.2)
  | .prune wall nowMs =>
    let r := s.prune wall nowMs
    (.pruned r.1, r.2)

end Cpp.RawState

namespace Cpp.Entry

/-- A timestamp that is not there is left at zero. -/
def Normal (e : Cpp.Entry) : Prop :=
  (e.hasAdd = false → e.addTs = 0) ∧ (e.hasRemove = false → e.removeTs = 0)

theorem normal_new (t : Tuple) : ({ tuple := t } : Cpp.Entry).Normal :=
  ⟨fun _ => rfl, fun _ => rfl⟩

theorem normal_ofEntry (e : Dacar.Entry) : (ofEntry e).Normal := by
  obtain ⟨tuple, addTs, removeTs⟩ := e
  cases addTs <;> cases removeTs <;> simp [Normal, ofEntry]

theorem Normal.record {e : Cpp.Entry} (h : e.Normal) (op : Operation) :
    (Cpp.Entry.record op e).Normal := by
  cases ha : op.action <;> simp_all [Normal, Cpp.Entry.record]

theorem Normal.join {e : Cpp.Entry} (h : e.Normal) (other : Cpp.Entry) :
    (Cpp.Entry.join other e).Normal := by
  cases ha : other.hasAdd <;> cases hr : other.hasRemove <;>
    simp_all [Normal, Cpp.Entry.join]

theorem Normal.ofEntry_toEntry {e : Cpp.Entry} (h : e.Normal) : .ofEntry e.toEntry = e := by
  obtain ⟨tuple, hasAdd, addTs, hasRemove, removeTs⟩ := e
  obtain ⟨hadd, hremove⟩ := h
  cases hasAdd <;> cases hasRemove <;> simp_all [ofEntry, toEntry]

end Cpp.Entry

namespace Implementation

/-- JavaScript files by the hex pre-image, the others by its SHA-256. -/
abbrev Key (κ : Type) : Implementation → Type
  | .javascript => Bytes
  | .python => κ
  | .cpp => κ

instance : (p : Implementation) → DecidableEq (p.Key κ)
  | .javascript => inferInstanceAs (DecidableEq Bytes)
  | .python => inferInstanceAs (DecidableEq κ)
  | .cpp => inferInstanceAs (DecidableEq κ)

def filesByHash : Implementation → Bool
  | .javascript => false
  | .python => true
  | .cpp => true

variable (hash : Tuple → κ)

def key : (p : Implementation) → Tuple → p.Key κ
  | .javascript => Tuple.key
  | .python => hash
  | .cpp => hash

abbrev State : Implementation → Type
  | .javascript => StateVector Tuple.key
  | .python => StateVector hash
  | .cpp => Cpp.RawState hash

/-- The JavaScript constructor takes no horizon below one day. -/
def TakesHorizon : Implementation → ℕ → Prop
  | .javascript, days => 1 ≤ days
  | .python, _ => True
  | .cpp, _ => True

/-- Every tuple with its optional timestamps, in order. -/
def rows : (p : Implementation) → p.State hash → List Entry
  | .javascript, s => StateVector.entries s |>.values
  | .python, s => StateVector.entries s |>.values
  | .cpp, s => (Cpp.RawState.entries s).map Cpp.Entry.toEntry

def horizon : (p : Implementation) → p.State hash → ℕ
  | .javascript, s => StateVector.deletionHorizonDays s
  | .python, s => StateVector.deletionHorizonDays s
  | .cpp, s => Cpp.RawState.deletionHorizonDays s

/-- Made by the constructor, `apply`, `merge` and `prune`. -/
def Reachable : (p : Implementation) → p.State hash → Prop
  | .javascript, s => 1 ≤ StateVector.deletionHorizonDays s ∧ StateVector.Reachable s
  | .python, s => StateVector.Reachable s
  | .cpp, s => Cpp.RawState.Reachable s

/-- In C++, timestamps that are not there are zero; there is nothing to say of the others. -/
def Normal : (p : Implementation) → p.State hash → Prop
  | .javascript, _ => True
  | .python, _ => True
  | .cpp, s => ∀ e ∈ Cpp.RawState.entries s, e.Normal

def isActive : (p : Implementation) → p.State hash → Tuple → Bool
  | .javascript, s, t => StateVector.isActive s t.key
  | .python, s, t => StateVector.isActive s (hash t)
  | .cpp, s, t => Cpp.RawState.isActive s (hash t)

def activeTuples : (p : Implementation) → p.State hash → List Tuple
  | .javascript, s => StateVector.activeTuples s
  | .python, s => StateVector.activeTuples s
  | .cpp, s => Cpp.RawState.activeTuples s

/-- The verdict of the port's engine over the state. -/
def evaluate (hmac16 : Hmac16) (config : Config) (opts : Engine.Options) :
    (p : Implementation) → p.State hash → String → String → Hash → Bool
  | .javascript, s, objectId, relation, grantee =>
    Engine.evaluate hmac16 (⟨config, s, opts⟩ : Engine Tuple.key) objectId relation grantee
  | .python, s, objectId, relation, grantee =>
    Engine.evaluate hmac16 (⟨config, s, opts⟩ : Engine hash) objectId relation grantee
  | .cpp, s, objectId, relation, grantee =>
    Cpp.Engine.evaluate hmac16 config opts (Cpp.RawState.activeTuples s) objectId relation grantee

def step : (p : Implementation) → p.State hash → StateStep → StateAnswer × p.State hash
  | .javascript, s, a => StateVector.step s a
  | .python, s, a => StateVector.step s a
  | .cpp, s, a => Cpp.RawState.step s a

/-- One step after the other, with all the answers. -/
def run (p : Implementation) : p.State hash → List StateStep → List StateAnswer × p.State hash
  | s, [] => ([], s)
  | s, a :: as =>
    let r := p.step hash s a
    let rest := run p r.2 as
    (r.1 :: rest.1, rest.2)

variable (L : MsgPackLibraries)

def toPayload : (p : Implementation) → p.State hash → Bytes
  | .javascript, s => L.encode (StateVector.toPayload s)
  | .python, s => L.packb (Python.StateVector.toPayload s)
  | .cpp, s => L.packer (Cpp.RawState.toPayload s)

/-- `fromPayload` makes this state of the bytes. -/
def Reloads : (p : Implementation) → Bytes → ℕ → p.State hash → Prop
  | .javascript, data, days, s =>
    StateVector.fromPayload L.decode data days = .ok (StateVector.restored s)
  | .python, data, days, s =>
    ∃ v, L.unpackb data = .ok v ∧ Python.StateVector.fromPayload hash v days = .ok s
  | .cpp, data, days, s =>
    ∃ v, L.unpacker data = some v ∧ Cpp.RawState.fromPayload hash v days = .ok s

end Implementation

/-! ## Reachable states fit a snapshot -/

def Entry.Bounded (e : Entry) : Prop := ∀ action, ∀ t ∈ e.timestamp action, t ≤ maxHlc

theorem Entry.Bounded.record {old : Option Entry} (h : ∀ e ∈ old, e.Bounded) (op : Operation) :
    (Entry.record op old).Bounded := by
  intro action t ht
  rw [Entry.timestamp_record] at ht
  have hold : ∀ t ∈ old.bind fun e => e.timestamp action, t ≤ maxHlc := by
    intro t ht
    obtain ⟨e, he, het⟩ := Option.bind_eq_some_iff.mp ht
    exact h e he action t het
  split_ifs at ht with hop
  · obtain rfl := Option.some.inj ht
    rcases maxTs_cases (old.bind fun e => e.timestamp action) op.hlc with hmax | hmax
    · exact hold _ hmax
    · exact hmax.le.trans op.hlc_le
  · exact hold t ht

theorem maxBoth_le {a b : Option ℕ} {n : ℕ} (ha : ∀ t ∈ a, t ≤ n) (hb : ∀ t ∈ b, t ≤ n) :
    ∀ t ∈ maxBoth a b, t ≤ n := by
  cases a with
  | none => exact hb
  | some a =>
    cases b with
    | none => exact ha
    | some b =>
      rw [maxBoth]
      split_ifs
      · exact ha
      · exact hb

theorem Entry.Bounded.join {other : Entry} {old : Option Entry} (hother : other.Bounded)
    (h : ∀ e ∈ old, e.Bounded) : (Entry.join other old).Bounded := by
  have hold : (old.getD ⟨other.tuple, none, none⟩).Bounded := by
    cases old with
    | none =>
      rintro (_ | _) t ht
      · cases ht
      · cases ht
    | some e => exact h e rfl
  rintro (_ | _) t ht
  · exact maxBoth_le (hold .revoke) (hother .revoke) t ht
  · exact maxBoth_le (hold .grant) (hother .grant) t ht

section Bounds

variable {key : Tuple → κ}

theorem bounded_upsert {m : OrderedMap κ Entry} {k : κ} {f : Option Entry → Entry}
    (h : ∀ e ∈ m.values, e.Bounded) (hf : (f (m.get? k)).Bounded) :
    ∀ e ∈ (m.upsert k f).values, e.Bounded := by
  intro e he
  obtain ⟨⟨k', e'⟩, hp, rfl⟩ := List.mem_map.mp he
  rcases OrderedMap.mem_upsert_entries.mp hp with ⟨-, rfl⟩ | ⟨-, hmem⟩
  · exact hf
  · exact h e' (List.mem_map_of_mem hmem)

theorem bounded_get? {m : OrderedMap κ Entry} (h : ∀ e ∈ m.values, e.Bounded) (k : κ) :
    ∀ e ∈ m.get? k, e.Bounded :=
  fun e he => h e (m.mem_values_iff.mpr ⟨k, he⟩)

theorem bounded_joinAll {m : OrderedMap κ Entry} {es : List (κ × Entry)}
    (h : ∀ e ∈ m.values, e.Bounded) (hes : ∀ p ∈ es, p.2.Bounded) :
    ∀ e ∈ (joinAll m es).values, e.Bounded := by
  induction es generalizing m with
  | nil => exact h
  | cons p es ih =>
    refine ih (bounded_upsert h ?_) fun q hq => hes q (List.mem_cons_of_mem p hq)
    exact (hes p List.mem_cons_self).join (bounded_get? h p.1)

theorem StateVector.Reachable.bounded {s : StateVector key} (h : s.Reachable) :
    ∀ e ∈ s.entries.values, e.Bounded := by
  induction h with
  | empty => exact fun e he => absurd he List.not_mem_nil
  | @apply s hs op now maxFutureMs ih =>
    rw [StateVector.apply_eq]
    split_ifs
    · exact bounded_upsert ih (Entry.Bounded.record (bounded_get? ih _) op)
    · exact ih
  | merge _ _ ih ihother =>
    exact bounded_joinAll ih fun p hp => ihother p.2 (List.mem_map_of_mem hp)
  | prune _ now ih =>
    intro e he
    obtain ⟨p, hp, rfl⟩ := List.mem_map.mp he
    exact ih p.2 (List.mem_map_of_mem (List.mem_of_mem_filter hp))

/-- Entries with bounded timestamps are the rows of a well-formed snapshot. -/
theorem exists_rows {es : List Entry} (h : ∀ e ∈ es, e.Bounded) :
    ∃ rows : List SnapshotRow, rows.map SnapshotRow.entry = es := by
  induction es with
  | nil => exact ⟨[], rfl⟩
  | cons e es ih =>
    obtain ⟨rows, hrows⟩ := ih fun e' he => h e' (List.mem_cons_of_mem e he)
    have he := h e List.mem_cons_self
    exact ⟨⟨e, he .grant, he .revoke⟩ :: rows, by rw [List.map_cons, hrows]⟩

end Bounds

/-! ## The C++ state is one of the others -/

section Cpp

variable {hash : Tuple → κ}

theorem normal_withEntry {s : Cpp.RawState hash} (h : ∀ e ∈ s.entries, e.Normal) (t : Tuple)
    {f : Cpp.Entry → Cpp.Entry} (hf : ∀ e, e.Normal → (f e).Normal) :
    ∀ e ∈ (s.withEntry t f).entries, e.Normal := by
  intro e he
  unfold Cpp.RawState.withEntry at he
  split at he
  · rcases List.mem_or_eq_of_mem_set he with he | rfl
    · exact h e he
    · exact hf _ (h _ (List.getElem_mem _))
  · rcases List.mem_append.mp he with he | he
    · exact h e he
    · rw [List.mem_singleton.mp he]
      exact hf _ (Cpp.Entry.normal_new t)

theorem raw_apply_fst (c : Cpp.StateVector hash) (op : Operation) (wall : ℕ)
    (nowMs maxFutureMs : ℤ) :
    (c.raw.apply op wall nowMs maxFutureMs).1 = (c.apply op wall nowMs maxFutureMs).1 := by
  unfold Cpp.StateVector.apply Cpp.RawState.apply
  dsimp only
  change Prod.fst (if _ then (false, c.raw) else if physical op.hlc < c.cutoff _ then _ else _) = _
  split_ifs <;> rfl

theorem raw_prune_fst (c : Cpp.StateVector hash) (wall : ℕ) (nowMs : ℤ) :
    (c.raw.prune wall nowMs).1 = (c.prune wall nowMs).1 := by
  by_cases h0 : c.entries.countP (Cpp.Entry.expired (c.cutoff (clockReading wall nowMs))) = 0
  · have hs : c.prune wall nowMs = (0, c) := if_pos h0
    have hr : c.raw.prune wall nowMs = (0, c.raw) := if_pos h0
    rw [hs, hr]
  · have hs : c.prune wall nowMs = (_, _) := if_neg h0
    have hr : c.raw.prune wall nowMs = (_, _) := if_neg h0
    rw [hs, hr]
    rfl

/-- Index and vector fit, and the map they stand for is reachable itself. -/
theorem Cpp.RawState.Reachable.exists_map {s : Cpp.RawState hash} (h : s.Reachable) :
    ∃ c : Cpp.StateVector hash, c.raw = s ∧ c.toStateVector.Reachable := by
  induction h with
  | empty days => exact ⟨.empty days, rfl, .empty days⟩
  | apply _ op wall nowMs maxFutureMs ih =>
    obtain ⟨c, rfl, hc⟩ := ih
    refine ⟨(c.apply op wall nowMs maxFutureMs).2, Cpp.raw_apply c op wall nowMs maxFutureMs, ?_⟩
    rw [Cpp.StateVector.toStateVector_apply_snd]
    exact hc.apply op _ _
  | merge _ _ ih ihother =>
    obtain ⟨c, rfl, hc⟩ := ih
    obtain ⟨o, rfl, ho⟩ := ihother
    refine ⟨c.merge o, Cpp.raw_merge c o, ?_⟩
    rw [Cpp.StateVector.toStateVector_merge]
    exact hc.merge ho
  | prune _ wall nowMs ih =>
    obtain ⟨c, rfl, hc⟩ := ih
    refine ⟨(c.prune wall nowMs).2, Cpp.raw_prune c wall nowMs, ?_⟩
    have hprune := congrArg Prod.snd (c.toStateVector_prune wall nowMs)
    rw [← show _ = (c.prune wall nowMs).2.toStateVector from hprune]
    exact hc.prune _

theorem Cpp.RawState.Reachable.normal {s : Cpp.RawState hash} (h : s.Reachable) :
    ∀ e ∈ s.entries, e.Normal := by
  induction h with
  | empty => exact fun e he => absurd he List.not_mem_nil
  | @apply s hs op wall nowMs maxFutureMs ih =>
    unfold Cpp.RawState.apply
    dsimp only
    split_ifs
    · exact ih
    · exact ih
    · exact normal_withEntry ih op.tuple fun e he => he.record op
  | @merge s other hs ho ih ihother =>
    have hfold (es : List Cpp.Entry) (s : Cpp.RawState hash) (h : ∀ e ∈ s.entries, e.Normal) :
        ∀ e ∈ (es.foldl (fun s e => s.withEntry e.tuple (Cpp.Entry.join e)) s).entries,
          e.Normal := by
      induction es generalizing s with
      | nil => exact h
      | cons e es ih => exact ih _ (normal_withEntry h e.tuple fun e' he => he.join e)
    exact hfold other.entries s ih
  | @prune s hs wall nowMs ih =>
    unfold Cpp.RawState.prune
    dsimp only
    split_ifs
    · exact ih
    · exact fun e he => ih e (List.mem_of_mem_filter he)

end Cpp

/-! ## The map behind a state -/

namespace Implementation

section Maps

variable {hash : Tuple → κ}

/-- The map that the state of a port is, or in C++ stands for. -/
def Represents : (p : Implementation) → p.State hash → StateVector (p.key hash) → Prop
  | .javascript, s, m => s = m
  | .python, s, m => s = m
  | .cpp, s, m => ∃ c : Cpp.StateVector hash, c.raw = s ∧ c.toStateVector = m

variable {p : Implementation} {s : p.State hash} {m : StateVector (p.key hash)}

theorem exists_map (h : p.Reachable hash s) :
    ∃ m : StateVector (p.key hash), p.Represents s m ∧ m.Reachable := by
  cases p with
  | javascript => exact ⟨s, rfl, h.2⟩
  | python => exact ⟨s, rfl, h⟩
  | cpp =>
    obtain ⟨c, hc, hm⟩ := Cpp.RawState.Reachable.exists_map h
    exact ⟨c.toStateVector, ⟨c, hc, rfl⟩, hm⟩

omit [DecidableEq κ] in
theorem Represents.rows (h : p.Represents s m) : p.rows hash s = m.entries.values := by
  cases p with
  | javascript => exact congrArg (fun s : StateVector Tuple.key => s.entries.values) h
  | python => exact congrArg (fun s : StateVector hash => s.entries.values) h
  | cpp =>
    obtain ⟨c, rfl, rfl⟩ := h
    rw [OrderedMap.values, c.entries_toStateVector, List.map_map]
    rfl

omit [DecidableEq κ] in
theorem Represents.horizon (h : p.Represents s m) :
    p.horizon hash s = m.deletionHorizonDays := by
  cases p with
  | javascript => exact congrArg (fun s : StateVector Tuple.key => s.deletionHorizonDays) h
  | python => exact congrArg (fun s : StateVector hash => s.deletionHorizonDays) h
  | cpp =>
    obtain ⟨c, rfl, rfl⟩ := h
    rfl

theorem Represents.isActive (h : p.Represents s m) (t : Tuple) :
    p.isActive hash s t = m.isActive (p.key hash t) := by
  cases p with
  | javascript => exact congrArg (fun s : StateVector Tuple.key => s.isActive t.key) h
  | python => exact congrArg (fun s : StateVector hash => s.isActive (hash t)) h
  | cpp =>
    obtain ⟨c, rfl, rfl⟩ := h
    exact (c.toStateVector_isActive (hash t)).symm

omit [DecidableEq κ] in
theorem Represents.activeTuples (h : p.Represents s m) :
    p.activeTuples hash s = m.activeTuples := by
  cases p with
  | javascript => exact congrArg (fun s : StateVector Tuple.key => s.activeTuples) h
  | python => exact congrArg (fun s : StateVector hash => s.activeTuples) h
  | cpp =>
    obtain ⟨c, rfl, rfl⟩ := h
    exact c.toStateVector_activeTuples.symm

theorem Represents.step (h : p.Represents s m) (a : StateStep) :
    (p.step hash s a).1 = (m.step a).1 ∧ p.Represents (p.step hash s a).2 (m.step a).2 := by
  cases p with
  | javascript => exact h ▸ ⟨rfl, rfl⟩
  | python => exact h ▸ ⟨rfl, rfl⟩
  | cpp =>
    obtain ⟨c, rfl, rfl⟩ := h
    cases a with
    | apply op wall nowMs maxFutureMs =>
      have happly := c.toStateVector_apply op wall nowMs maxFutureMs
      refine ⟨congrArg StateAnswer.applied ?_, (c.apply op wall nowMs maxFutureMs).2, ?_, ?_⟩
      · exact (raw_apply_fst c op wall nowMs maxFutureMs).trans (congrArg Prod.fst happly).symm
      · exact Cpp.raw_apply c op wall nowMs maxFutureMs
      · exact (congrArg Prod.snd happly).symm
    | prune wall nowMs =>
      have hprune := c.toStateVector_prune wall nowMs
      refine ⟨congrArg StateAnswer.pruned ?_, (c.prune wall nowMs).2,
        Cpp.raw_prune c wall nowMs, ?_⟩
      · exact (raw_prune_fst c wall nowMs).trans (congrArg Prod.fst hprune).symm
      · exact (congrArg Prod.snd hprune).symm

/-- The verdict is a function of the active tuples, and in all three ports the same one. -/
theorem evaluate_eq (hmac16 : Hmac16) (config : Config) (opts : Engine.Options)
    (p : Implementation) (s : p.State hash) (objectId relation : String) (grantee : Hash) :
    p.evaluate hash hmac16 config opts s objectId relation grantee =
      decide ((Engine.evaluation config opts true (p.activeTuples hash s) grantee
        (config.hashers.map (Engine.hypothesis hmac16 objectId relation))).1 = .allow) := by
  cases p with
  | javascript => rfl
  | python => rfl
  | cpp =>
    have heval := @Cpp.Engine.evaluateHashes_ofHashes hmac16 config opts
      (Cpp.RawState.activeTuples s) grantee
      (config.hashers.map (Engine.hypothesis hmac16 objectId relation)) (by
        intro h hh
        obtain ⟨hasher, -, rfl⟩ := List.mem_map.mp hh
        exact ⟨rfl, rfl⟩)
    rw [List.map_map] at heval
    exact heval

end Maps

end Implementation

end Dacar

import Dacar.Cpp.Snapshot

/-!
# Histories of a state in both ports

A history restores snapshots, applies Operations, merges and prunes.  Both ports go through
it with the same inputs; they end in the same state, step for step, exactly when no snapshot
names a tuple twice.
-/

namespace Dacar

variable {κ : Type} [DecidableEq κ] {hash : Tuple → κ}

namespace Cpp

/-! ## States whose index is right -/

/-- The two containers of a state, without the proof that they fit. -/
def StateVector.raw (s : StateVector hash) : RawState hash where
  entries := s.entries
  index := s.index
  deletionHorizonDays := s.deletionHorizonDays
  inBounds := by
    intro k i hi
    obtain ⟨e, he, -⟩ := (s.indexed k i).mp hi
    exact (List.getElem?_eq_some_iff.mp he).1

theorem raw_withEntry (s : StateVector hash) (t : Tuple) {f : Entry → Entry}
    (hf : ∀ e, (f e).tuple = e.tuple) :
    (s.withEntry t f hf).raw = s.raw.withEntry t f := by
  unfold StateVector.withEntry RawState.withEntry
  split
  · next i hi =>
    split
    · next j hj =>
      obtain rfl : i = j := Option.some.inj (hi.symm.trans hj)
      rfl
    · next hj => cases hi.symm.trans hj
  · next hi =>
    split
    · next j hj => cases hi.symm.trans hj
    · rfl

theorem raw_apply (s : StateVector hash) (op : Operation) (wall : ℕ) (nowMs maxFutureMs : ℤ) :
    (s.apply op wall nowMs maxFutureMs).2.raw = (s.raw.apply op wall nowMs maxFutureMs).2 := by
  unfold StateVector.apply RawState.apply
  simp only [← raw_withEntry s op.tuple (Entry.record_tuple op)]
  change _ = Prod.snd (if _ then (false, s.raw) else if physical op.hlc < s.cutoff _ then _ else _)
  split_ifs <;> rfl

theorem raw_merge (s other : StateVector hash) : (s.merge other).raw = s.raw.merge other.raw := by
  have hfold (es : List Entry) (s : StateVector hash) :
      (es.foldl (fun s e => s.withEntry e.tuple (Entry.join e) (Entry.join_tuple e)) s).raw =
        es.foldl (fun s e => s.withEntry e.tuple (Entry.join e)) s.raw := by
    induction es generalizing s with
    | nil => rfl
    | cons e es ih => rw [List.foldl_cons, List.foldl_cons, ih, raw_withEntry]
  exact hfold other.entries s

theorem raw_prune (s : StateVector hash) (wall : ℕ) (nowMs : ℤ) :
    (s.prune wall nowMs).2.raw = (s.raw.prune wall nowMs).2 := by
  by_cases h0 :
      s.entries.countP (Entry.expired (s.cutoff (StateVector.clockReading wall nowMs))) = 0
  · have hs : s.prune wall nowMs = (0, s) := if_pos h0
    have hr : s.raw.prune wall nowMs = (0, s.raw) := if_pos h0
    rw [hs, hr]
  · have hs : s.prune wall nowMs = (_, _) := if_neg h0
    have hr : s.raw.prune wall nowMs = (_, _) := if_neg h0
    rw [hs, hr]
    rfl

end Cpp

/-- How a state came about. -/
inductive History
  | snapshot (rows : List SnapshotRow) (deletionHorizonDays : ℕ)
  | apply (state : History) (op : Operation) (wall : ℕ) (nowMs maxFutureMs : ℤ)
  | merge (state other : History)
  | prune (state : History) (wall : ℕ) (nowMs : ℤ)

namespace History

def cpp (hash : Tuple → κ) : History → Except String (Cpp.RawState hash)
  | .snapshot rows deletionHorizonDays =>
    Cpp.RawState.fromPayload hash (snapshotPayload rows) deletionHorizonDays
  | .apply state op wall nowMs maxFutureMs => do
    let s ← state.cpp hash
    pure (s.apply op wall nowMs maxFutureMs).2
  | .merge state other => do
    let s ← state.cpp hash
    let o ← other.cpp hash
    pure (s.merge o)
  | .prune state wall nowMs => do
    let s ← state.cpp hash
    pure (s.prune wall nowMs).2

/-- A negative `nowMs` or `maxFutureMs` of the C++ port is an omitted argument here. -/
def python (hash : Tuple → κ) : History → Except Python.ValueError (StateVector hash)
  | .snapshot rows deletionHorizonDays =>
    Python.StateVector.fromPayload hash (snapshotPayload rows) deletionHorizonDays
  | .apply state op wall nowMs maxFutureMs => do
    let s ← state.python hash
    pure (s.apply op (Cpp.StateVector.clockReading wall nowMs)
      (Cpp.StateVector.skewBound maxFutureMs)).2
  | .merge state other => do
    let s ← state.python hash
    let o ← other.python hash
    pure (s.merge o)
  | .prune state wall nowMs => do
    let s ← state.python hash
    pure (s.prune (Cpp.StateVector.clockReading wall nowMs)).2

/-- The states a history passes through: its own and those it was made from. -/
def stages : History → List History
  | .snapshot rows deletionHorizonDays => [.snapshot rows deletionHorizonDays]
  | .apply state op wall nowMs maxFutureMs =>
    .apply state op wall nowMs maxFutureMs :: state.stages
  | .merge state other => .merge state other :: (state.stages ++ other.stages)
  | .prune state wall nowMs => .prune state wall nowMs :: state.stages

/-- The snapshots that were restored. -/
def snapshots : History → List (List SnapshotRow)
  | .snapshot rows _ => [rows]
  | .apply state _ _ _ _ => state.snapshots
  | .merge state other => state.snapshots ++ other.snapshots
  | .prune state _ _ => state.snapshots

end History

/-- No two rows of the snapshot have the same tuple hash. -/
def DistinctRows (hash : Tuple → κ) (rows : List SnapshotRow) : Prop :=
  (rows.map fun r => hash r.entry.tuple).Nodup

/-- The C++ index and vector are in bijection and hold what the Python dictionary holds, in
its order; so every query has one answer. -/
structure Simulates (c : Cpp.RawState hash) (p : StateVector hash) : Prop where
  indexed : Cpp.Indexed hash c.entries c.index
  rows : p.entries.entries = c.entries.map fun e => (hash e.tuple, e.toEntry)
  horizon : p.deletionHorizonDays = c.deletionHorizonDays
  isActive : ∀ k, p.isActive k = c.isActive k
  activeTuples : p.activeTuples = c.activeTuples
  toPayload : Python.StateVector.toPayload p = c.toPayload

/-- Both ports reach the stage, and the one simulates the other there. -/
def History.Simulated (hash : Tuple → κ) (stage : History) : Prop :=
  ∃ c p, stage.cpp hash = .ok c ∧ stage.python hash = .ok p ∧ Simulates c p

namespace Cpp

/-- A state whose index is right simulates the map it stands for. -/
theorem StateVector.simulates_raw (s : StateVector hash) : Simulates s.raw s.toStateVector where
  indexed := s.indexed
  rows := s.entries_toStateVector
  horizon := rfl
  isActive := s.toStateVector_isActive
  activeTuples := s.toStateVector_activeTuples
  toPayload := by
    simp only [Python.StateVector.toPayload, RawState.toPayload, OrderedMap.values,
      s.entries_toStateVector, List.map_map]
    rfl

end Cpp

section Restore

/-! ## Restoring a snapshot -/

theorem pushAll_entries (rows : List Entry) (s : Cpp.RawState hash) :
    (s.pushAll rows).entries = s.entries ++ rows.map Cpp.Entry.ofEntry := by
  induction rows generalizing s with
  | nil => simp [Cpp.RawState.pushAll]
  | cons e rows ih =>
    rw [Cpp.RawState.pushAll, List.foldl_cons, ← Cpp.RawState.pushAll, ih]
    simp [Cpp.RawState.push]

theorem pushAll_empty (rows : List Entry) (days : ℕ) :
    (Cpp.RawState.empty days).pushAll rows =
      (⟨rows.map Cpp.Entry.ofEntry, Cpp.reindex hash (rows.map Cpp.Entry.ofEntry), days,
        Cpp.inBounds_reindex hash _⟩ : Cpp.RawState hash) := by
  induction rows using List.reverseRecOn with
  | nil => rfl
  | append_singleton rows e ih =>
    rw [Cpp.RawState.pushAll, List.foldl_append, List.foldl_cons, List.foldl_nil,
      ← Cpp.RawState.pushAll, ih]
    apply Cpp.RawState.ext
    · simp [Cpp.RawState.push]
    · rw [List.map_append, List.map_cons, List.map_nil]
      exact (Cpp.reindex_concat hash _ _).symm
    · rfl

theorem assignAll_entries (rows : List Entry) (s : StateVector hash)
    (hn : (s.entries.entries.map Prod.fst ++ rows.map fun e => hash e.tuple).Nodup) :
    (Python.StateVector.assignAll s rows).entries.entries =
      s.entries.entries ++ rows.map fun e => (hash e.tuple, e) := by
  induction rows generalizing s with
  | nil => simp [Python.StateVector.assignAll]
  | cons e rows ih =>
    have hnew : hash e.tuple ∉ s.entries.entries.map Prod.fst := by
      rw [List.nodup_append] at hn
      exact fun hm => hn.2.2 _ hm _ (List.mem_map_of_mem List.mem_cons_self) rfl
    have hassign : (Python.StateVector.assign s e).entries.entries =
        s.entries.entries ++ [(hash e.tuple, e)] :=
      OrderedMap.upsertEntries_of_not_mem hnew _
    rw [Python.StateVector.assignAll, List.foldl_cons, ← Python.StateVector.assignAll, ih, hassign]
    · simp
    · rw [hassign]
      simpa using hn

@[simp] theorem assignAll_days (rows : List Entry) (s : StateVector hash) :
    (Python.StateVector.assignAll s rows).deletionHorizonDays = s.deletionHorizonDays := by
  induction rows generalizing s with
  | nil => rfl
  | cons e rows ih =>
    rw [Python.StateVector.assignAll, List.foldl_cons, ← Python.StateVector.assignAll, ih]
    rfl

/-- Without repeated tuples, both ports restore one state. -/
theorem restore_distinct {rows : List SnapshotRow} (hn : DistinctRows hash rows) (days : ℕ) :
    ∃ s : Cpp.StateVector hash,
      Cpp.RawState.fromPayload hash (snapshotPayload rows) days = .ok s.raw ∧
      Python.StateVector.fromPayload hash (snapshotPayload rows) days = .ok s.toStateVector := by
  have hkeys : ((rows.map SnapshotRow.entry).map fun e => hash e.tuple).Nodup := by
    rw [List.map_map]
    exact hn
  refine ⟨⟨(rows.map SnapshotRow.entry).map Cpp.Entry.ofEntry, _, days, Cpp.indexed_reindex
    (by rw [List.map_map]; exact hkeys)⟩, ?_, ?_⟩
  · rw [cpp_fromPayload]
    exact congrArg _ (pushAll_empty _ days)
  · rw [python_fromPayload]
    refine congrArg _ (StateVector.ext_entries (OrderedMap.ext ?_) (assignAll_days _ _))
    rw [assignAll_entries _ _ (by simpa [StateVector.empty, OrderedMap.empty] using hkeys)]
    simp [Cpp.StateVector.toStateVector, StateVector.empty, OrderedMap.empty,
      Function.comp_def, Cpp.Entry.tuple_ofEntry]

/-- With a repeated tuple the C++ index misses one of its positions. -/
theorem not_indexed_of_repeated {rows : List SnapshotRow} (hn : ¬ DistinctRows hash rows)
    {days : ℕ} {c : Cpp.RawState hash}
    (hc : Cpp.RawState.fromPayload hash (snapshotPayload rows) days = .ok c) :
    ¬ Cpp.Indexed hash c.entries c.index := by
  rw [cpp_fromPayload] at hc
  obtain rfl := Except.ok.inj hc
  intro hi
  have hkeys := hi.nodup
  rw [pushAll_entries, Cpp.RawState.empty, List.nil_append, List.map_map, List.map_map] at hkeys
  exact hn hkeys

end Restore

namespace History

/-- With distinct rows everywhere, both ports are at the two readings of one state. -/
theorem exists_state {state : History} (hd : ∀ rows ∈ state.snapshots, DistinctRows hash rows) :
    ∃ s : Cpp.StateVector hash,
      state.cpp hash = .ok s.raw ∧ state.python hash = .ok s.toStateVector := by
  induction state with
  | snapshot rows days => exact restore_distinct (hd rows (List.mem_singleton_self rows)) days
  | apply state op wall nowMs maxFutureMs ih =>
    obtain ⟨s, hc, hp⟩ := ih hd
    refine ⟨(s.apply op wall nowMs maxFutureMs).2, ?_, ?_⟩
    · rw [cpp, hc, Cpp.raw_apply]
      rfl
    · rw [python, hp, Cpp.StateVector.toStateVector_apply_snd]
      rfl
  | merge state other ih₁ ih₂ =>
    obtain ⟨s, hc, hp⟩ := ih₁ fun rows h => hd rows (List.mem_append_left _ h)
    obtain ⟨o, hc', hp'⟩ := ih₂ fun rows h => hd rows (List.mem_append_right _ h)
    refine ⟨s.merge o, ?_, ?_⟩
    · rw [cpp, hc, hc', Cpp.raw_merge]
      rfl
    · rw [python, hp, hp', Cpp.StateVector.toStateVector_merge]
      rfl
  | prune state wall nowMs ih =>
    obtain ⟨s, hc, hp⟩ := ih hd
    refine ⟨(s.prune wall nowMs).2, ?_, ?_⟩
    · rw [cpp, hc, Cpp.raw_prune]
      rfl
    · rw [python, hp]
      exact congrArg (fun r => Except.ok r.2) (s.toStateVector_prune wall nowMs)

theorem snapshots_of_stage {state stage : History} (h : stage ∈ state.stages) :
    ∀ rows ∈ stage.snapshots, rows ∈ state.snapshots := by
  induction state with
  | snapshot rows days =>
    obtain rfl := List.mem_singleton.mp h
    exact fun _ => id
  | apply state op wall nowMs maxFutureMs ih =>
    rcases List.mem_cons.mp h with rfl | h
    · exact fun _ => id
    · exact ih h
  | merge state other ih₁ ih₂ =>
    rcases List.mem_cons.mp h with rfl | h
    · exact fun _ => id
    · rcases List.mem_append.mp h with h | h
      · exact fun rows hr => List.mem_append_left _ (ih₁ h rows hr)
      · exact fun rows hr => List.mem_append_right _ (ih₂ h rows hr)
  | prune state wall nowMs ih =>
    rcases List.mem_cons.mp h with rfl | h
    · exact fun _ => id
    · exact ih h

/-- The stage at which a snapshot was restored. -/
theorem stage_of_snapshot {state : History} {rows : List SnapshotRow}
    (h : rows ∈ state.snapshots) : ∃ days, .snapshot rows days ∈ state.stages := by
  induction state with
  | snapshot rows' days =>
    obtain rfl := List.mem_singleton.mp h
    exact ⟨days, List.mem_singleton_self _⟩
  | apply state op wall nowMs maxFutureMs ih =>
    obtain ⟨days, hs⟩ := ih h
    exact ⟨days, List.mem_cons_of_mem _ hs⟩
  | merge state other ih₁ ih₂ =>
    rcases List.mem_append.mp h with h | h
    · obtain ⟨days, hs⟩ := ih₁ h
      exact ⟨days, List.mem_cons_of_mem _ (List.mem_append_left _ hs)⟩
    · obtain ⟨days, hs⟩ := ih₂ h
      exact ⟨days, List.mem_cons_of_mem _ (List.mem_append_right _ hs)⟩
  | prune state wall nowMs ih =>
    obtain ⟨days, hs⟩ := ih h
    exact ⟨days, List.mem_cons_of_mem _ hs⟩

/-- The C++ state simulates the Python one all along a history exactly when every snapshot
restored in it has one row a tuple. -/
theorem simulated_iff (hash : Tuple → κ) (state : History) :
    (∀ stage ∈ state.stages, stage.Simulated hash) ↔
      ∀ rows ∈ state.snapshots, DistinctRows hash rows := by
  constructor
  · intro h rows hr
    obtain ⟨days, hs⟩ := stage_of_snapshot hr
    obtain ⟨c, p, hc, -, hsim⟩ := h _ hs
    by_contra hn
    exact not_indexed_of_repeated hn hc hsim.indexed
  · intro hd stage hs
    obtain ⟨s, hc, hp⟩ := exists_state fun rows hr => hd rows (snapshots_of_stage hs rows hr)
    exact ⟨_, _, hc, hp, s.simulates_raw⟩

end History

/-! ## A snapshot with two rows for one tuple -/

def repeatedTuple : Tuple where
  relationHash := Blob.fill 16 1
  objectHashes := []
  wildcard := false
  grantee := Blob.fill 16 2
  issuer := Blob.fill 16 3
  segments_le := Nat.zero_le _

/-- Granted at 5 in one row, revoked at 6 in the next. -/
def repeatedRows : List SnapshotRow := [
  ⟨⟨repeatedTuple, some 5, none⟩, by simp [maxHlc], nofun⟩,
  ⟨⟨repeatedTuple, none, some 6⟩, nofun, by simp [maxHlc]⟩]

/-- The C++ port lists the tuple as active, the Python port does not. -/
theorem repeated_rows_diverge : ¬ (History.snapshot repeatedRows 180).Simulated Tuple.preimage := by
  intro ⟨c, p, hc, hp, hsim⟩
  rw [History.cpp, cpp_fromPayload] at hc
  rw [History.python, python_fromPayload] at hp
  obtain rfl := Except.ok.inj hc
  obtain rfl := Except.ok.inj hp
  have hactive := hsim.activeTuples
  revert hactive
  decide

end Dacar

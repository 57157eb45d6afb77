import Dacar.Implementation

/-!
# A snapshot restores the state it was taken of

A snapshot that one port wrote is read by any port.  What comes back holds the same entries
in the same order, and from there on the two states cannot be told apart.
-/

namespace Dacar

open Cpp.StateVector (clockReading skewBound)

variable {κ : Type} [DecidableEq κ]

/-! ## Maps with the same entries under different keys -/

/-- The two keys tell the same tuples apart. -/
def AlikeOn {α β : Type} (T : Set Tuple) (k₁ : Tuple → α) (k₂ : Tuple → β) : Prop :=
  ∀ t ∈ T, ∀ u ∈ T, k₁ t = k₁ u ↔ k₂ t = k₂ u

section Alike

variable {α β : Type} [DecidableEq α] [DecidableEq β] {T : Set Tuple} {k₁ : Tuple → α}
  {k₂ : Tuple → β}

/-- The entries of a keyed list, found by either key. -/
theorem upsertEntries_alike (ha : AlikeOn T k₁ k₂) {es : List Entry}
    (hes : ∀ e ∈ es, e.tuple ∈ T) {t : Tuple} (ht : t ∈ T) (f : Option Entry → Entry) :
    (OrderedMap.upsertEntries (k₂ t) f (es.map fun e => (k₂ e.tuple, e))).map Prod.snd =
      (OrderedMap.upsertEntries (k₁ t) f (es.map fun e => (k₁ e.tuple, e))).map Prod.snd := by
  induction es with
  | nil => rfl
  | cons e es ih =>
    have hiff := ha e.tuple (hes e List.mem_cons_self) t ht
    rw [List.map_cons, List.map_cons, OrderedMap.upsertEntries, OrderedMap.upsertEntries]
    by_cases he : k₁ e.tuple = k₁ t
    · rw [if_pos he, if_pos (hiff.mp he)]
      simp [Function.comp_def]
    · rw [if_neg he, if_neg (mt hiff.mpr he), List.map_cons, List.map_cons,
        ih fun e' he' => hes e' (List.mem_cons_of_mem e he')]

theorem lookup_alike (ha : AlikeOn T k₁ k₂) {es : List Entry} (hes : ∀ e ∈ es, e.tuple ∈ T)
    {t : Tuple} (ht : t ∈ T) :
    (es.map fun e => (k₂ e.tuple, e)).lookup (k₂ t) =
      (es.map fun e => (k₁ e.tuple, e)).lookup (k₁ t) := by
  induction es with
  | nil => rfl
  | cons e es ih =>
    have hiff := ha t ht e.tuple (hes e List.mem_cons_self)
    rw [List.map_cons, List.map_cons]
    by_cases he : k₁ t = k₁ e.tuple
    · rw [he, hiff.mp he, List.lookup_cons_self, List.lookup_cons_self]
    · rw [OrderedMap.lookup_cons_of_ne he, OrderedMap.lookup_cons_of_ne (mt hiff.mpr he),
        ih fun e' he' => hes e' (List.mem_cons_of_mem e he')]

omit [DecidableEq α] in
/-- A keyed map is its values, each under its own key. -/
theorem StateVector.entries_eq (m : StateVector k₁) :
    m.entries.entries = m.entries.values.map fun e => (k₁ e.tuple, e) := by
  rw [OrderedMap.values, List.map_map]
  conv_lhs => rw [← List.map_id m.entries.entries]
  apply List.map_congr_left
  rintro ⟨k, e⟩ hp
  exact Prod.ext (m.keyed k e hp).symm rfl

/-- Both hold the same entries in the same order, all about tuples of `T`. -/
structure SameRows (T : Set Tuple) (m₁ : StateVector k₁) (m₂ : StateVector k₂) : Prop where
  values : m₂.entries.values = m₁.entries.values
  horizon : m₂.deletionHorizonDays = m₁.deletionHorizonDays
  inside : ∀ e ∈ m₁.entries.values, e.tuple ∈ T

variable {m₁ : StateVector k₁} {m₂ : StateVector k₂}

theorem SameRows.isActive (h : SameRows T m₁ m₂) (ha : AlikeOn T k₁ k₂) {t : Tuple}
    (ht : t ∈ T) : m₂.isActive (k₂ t) = m₁.isActive (k₁ t) := by
  unfold StateVector.isActive OrderedMap.get?
  rw [m₂.entries_eq, m₁.entries_eq, h.values, lookup_alike ha h.inside ht]

omit [DecidableEq α] [DecidableEq β] in
theorem SameRows.activeTuples (h : SameRows T m₁ m₂) : m₂.activeTuples = m₁.activeTuples := by
  rw [StateVector.activeTuples, StateVector.activeTuples, h.values]

omit [DecidableEq α] [DecidableEq β] in
theorem SameRows.horizonMs (h : SameRows T m₁ m₂) :
    m₂.deletionHorizonMs = m₁.deletionHorizonMs := by
  rw [StateVector.deletionHorizonMs, StateVector.deletionHorizonMs, h.horizon]

theorem SameRows.record (h : SameRows T m₁ m₂) (ha : AlikeOn T k₁ k₂) {op : Operation}
    (hop : op.tuple ∈ T) : SameRows T (m₁.record op) (m₂.record op) where
  values := by
    change (OrderedMap.upsertEntries (k₂ op.tuple) _ m₂.entries.entries).map Prod.snd =
      (OrderedMap.upsertEntries (k₁ op.tuple) _ m₁.entries.entries).map Prod.snd
    rw [m₂.entries_eq, m₁.entries_eq, h.values]
    exact upsertEntries_alike ha h.inside hop _
  horizon := h.horizon
  inside := by
    intro e he
    obtain ⟨⟨k, e'⟩, hp, rfl⟩ := List.mem_map.mp he
    rcases OrderedMap.mem_upsert_entries.mp hp with ⟨-, rfl⟩ | ⟨-, hmem⟩
    · rw [Entry.record_tuple]
      cases hold : m₁.entries.get? (k₁ op.tuple) with
      | none => exact hop
      | some e => exact h.inside e (m₁.entries.mem_values_iff.mpr ⟨_, hold⟩)
    · exact h.inside e' (List.mem_map_of_mem hmem)

theorem SameRows.apply (h : SameRows T m₁ m₂) (ha : AlikeOn T k₁ k₂) {op : Operation}
    (hop : op.tuple ∈ T) (now : ℤ) (maxFutureMs : Option ℤ) :
    (m₂.apply op now maxFutureMs).1 = (m₁.apply op now maxFutureMs).1 ∧
      SameRows T (m₁.apply op now maxFutureMs).2 (m₂.apply op now maxFutureMs).2 := by
  have hadmits : m₂.Admits op now maxFutureMs ↔ m₁.Admits op now maxFutureMs := by
    rw [StateVector.Admits, StateVector.Admits, h.horizonMs]
  rw [StateVector.apply_eq, StateVector.apply_eq]
  by_cases hadm : m₁.Admits op now maxFutureMs
  · rw [if_pos hadm, if_pos (hadmits.mpr hadm)]
    exact ⟨rfl, h.record ha hop⟩
  · rw [if_neg hadm, if_neg (mt hadmits.mp hadm)]
    exact ⟨rfl, h⟩

omit [DecidableEq α] [DecidableEq β] in
theorem SameRows.prune (h : SameRows T m₁ m₂) (now : ℤ) :
    (m₂.prune now).1 = (m₁.prune now).1 ∧ SameRows T (m₁.prune now).2 (m₂.prune now).2 := by
  have hcount {γ : Type} (cutoff : ℤ) (l : List (γ × Entry)) :
      l.countP (fun p => p.2.expired cutoff) = (l.map Prod.snd).countP (Entry.expired cutoff) := by
    rw [List.countP_map]
    rfl
  have hkept {γ : Type} (cutoff : ℤ) (l : List (γ × Entry)) :
      (l.filter fun p => !p.2.expired cutoff).map Prod.snd =
        (l.map Prod.snd).filter fun e => !e.expired cutoff := by
    rw [List.filter_map]
    rfl
  have hvalues : m₂.entries.entries.map Prod.snd = m₁.entries.entries.map Prod.snd := h.values
  refine ⟨?_, ?_, h.horizon, ?_⟩
  · change m₂.entries.entries.countP _ = m₁.entries.entries.countP _
    rw [hcount, hcount, hvalues, h.horizonMs]
  · change ((m₂.entries.entries.filter _).map Prod.snd) =
      ((m₁.entries.entries.filter _).map Prod.snd)
    rw [hkept, hkept, hvalues, h.horizonMs]
  · intro e he
    obtain ⟨p, hp, rfl⟩ := List.mem_map.mp he
    exact h.inside p.2 (List.mem_map_of_mem (List.mem_of_mem_filter hp))

/-- The step is about a tuple of `T`, if about any. -/
def StateStep.Within (T : Set Tuple) : StateStep → Prop
  | .apply op _ _ _ => op.tuple ∈ T
  | .prune _ _ => True

theorem SameRows.step (h : SameRows T m₁ m₂) (ha : AlikeOn T k₁ k₂) {a : StateStep}
    (hT : a.Within T) :
    (m₂.step a).1 = (m₁.step a).1 ∧ SameRows T (m₁.step a).2 (m₂.step a).2 := by
  cases a with
  | apply op wall nowMs maxFutureMs =>
    obtain ⟨hanswer, hrows⟩ := h.apply ha hT (clockReading wall nowMs) (skewBound maxFutureMs)
    exact ⟨congrArg StateAnswer.applied hanswer, hrows⟩
  | prune wall nowMs =>
    obtain ⟨hanswer, hrows⟩ := h.prune (clockReading wall nowMs)
    exact ⟨congrArg StateAnswer.pruned hanswer, hrows⟩

end Alike

/-! ## Snapshots across the ports -/

namespace Implementation

variable {hash : Tuple → κ} {w r : Implementation}

omit [DecidableEq κ] in
theorem alikeOn_keys {T : Set Tuple} (h : w.filesByHash ≠ r.filesByHash → Set.InjOn hash T) :
    AlikeOn T (w.key hash) (r.key hash) := by
  have hinj (hi : Set.InjOn hash T) : AlikeOn T Tuple.key hash := fun t ht u hu =>
    ⟨fun hk => congrArg hash (Tuple.key_injective hk), fun hk => congrArg Tuple.key (hi ht hu hk)⟩
  have hinj' (hi : Set.InjOn hash T) : AlikeOn T hash Tuple.key := fun t ht u hu =>
    (hinj hi t ht u hu).symm
  cases w with
  | javascript =>
    cases r with
    | javascript => exact fun _ _ _ _ => Iff.rfl
    | python => exact hinj (h (by decide))
    | cpp => exact hinj (h (by decide))
  | python =>
    cases r with
    | javascript => exact hinj' (h (by decide))
    | python => exact fun _ _ _ _ => Iff.rfl
    | cpp => exact fun _ _ _ _ => Iff.rfl
  | cpp =>
    cases r with
    | javascript => exact hinj' (h (by decide))
    | python => exact fun _ _ _ _ => Iff.rfl
    | cpp => exact fun _ _ _ _ => Iff.rfl

theorem normal {p : Implementation} {s : p.State hash} (h : p.Reachable hash s) :
    p.Normal hash s := by
  cases p with
  | javascript => trivial
  | python => trivial
  | cpp => exact Cpp.RawState.Reachable.normal h

/-- A port takes the horizon that one of its own states has. -/
theorem takesHorizon {p : Implementation} {s : p.State hash}
    {m : StateVector (p.key hash)} (h : p.Reachable hash s) (hm : p.Represents s m) :
    p.TakesHorizon m.deletionHorizonDays := by
  cases p with
  | javascript =>
    obtain rfl : s = m := hm
    exact h.1
  | python => trivial
  | cpp => trivial

variable (L : MsgPackLibraries)

/-- Each port writes the value of its entries. -/
theorem writes_toPayload {p : Implementation} {s : p.State hash}
    {m : StateVector (p.key hash)} (h : p.Represents s m) :
    L.Writes (p.toPayload hash L s) (snapshotOf (p.rows hash s)) := by
  cases p with
  | javascript => exact .inl ⟨_, StateVector.toPayload_stands s, rfl⟩
  | python => exact .inr ⟨_, python_toPayload_stands s, .inl rfl⟩
  | cpp =>
    obtain ⟨c, rfl, -⟩ := h
    have hpayload := c.simulates_raw.toPayload
    refine .inr ⟨_, ?_, .inr rfl⟩
    rw [← hpayload, show cpp.rows hash c.raw = c.toStateVector.entries.values from
      Represents.rows (p := .cpp) ⟨c, rfl, rfl⟩]
    exact python_toPayload_stands c.toStateVector

variable {L}

/-- The state that holds these entries. -/
def stateOf (es : List Entry) (hn : (es.map fun e => e.tuple.key).Nodup) (days : ℕ) :
    StateVector Tuple.key where
  entries := ⟨es.map fun e => (e.tuple.key, e), by rwa [List.map_map]⟩
  deletionHorizonDays := days
  keyed := fun k e he => by
    obtain ⟨e', -, h⟩ := List.mem_map.mp he
    obtain ⟨rfl, rfl⟩ := Prod.mk.inj h
    rfl

section Reloads

variable {data : Bytes} {rows : List SnapshotRow}
  (hread : L.Reads data (snapshotOf (rows.map SnapshotRow.entry)))
include hread

theorem javascript_reloads (hash : Tuple → κ)
    (hn : ((rows.map SnapshotRow.entry).map fun e => e.tuple.key).Nodup) {days : ℕ}
    (hdays : 1 ≤ days) :
    ∃ s : StateVector Tuple.key, javascript.Reloads hash L data days s ∧
      s.entries.values = rows.map SnapshotRow.entry ∧ s.deletionHorizonDays = days := by
  obtain ⟨⟨v, hv, hdecode⟩, -⟩ := hread
  cases hv with
  | array hvs =>
    obtain ⟨s', hs', hd, hentries⟩ := js_readRows hvs ⟨.empty, days⟩ hn
    have hrestored : (stateOf _ hn days).restored = s' := by
      obtain ⟨entries, days'⟩ := s'
      obtain rfl : days' = days := hd
      refine congrArg (fun es => RestoredState.mk es days') (OrderedMap.ext ?_)
      rw [hentries]
      simp [stateOf, OrderedMap.empty, Function.comp_def]
    refine ⟨stateOf _ hn days, ?_, ?_, rfl⟩
    · change StateVector.fromPayload L.decode data days = .ok (stateOf _ hn days).restored
      rw [hrestored, StateVector.fromPayload, hdecode]
      dsimp only
      rw [if_pos hdays, hs']
    · simp [stateOf, OrderedMap.values, Function.comp_def]

theorem python_reloads (hn : ((rows.map SnapshotRow.entry).map fun e => hash e.tuple).Nodup)
    (days : ℕ) :
    ∃ s : StateVector hash, python.Reloads hash L data days s ∧
      s.entries.values = rows.map SnapshotRow.entry ∧ s.deletionHorizonDays = days := by
  obtain ⟨-, ⟨v, hv, hunpack⟩, -⟩ := hread
  cases hv with
  | array hvs =>
    refine ⟨Python.StateVector.assignAll (.empty days) (rows.map SnapshotRow.entry),
      ⟨_, hunpack, python_readRows_of_stands hvs _⟩, ?_, assignAll_days _ _⟩
    rw [OrderedMap.values, assignAll_entries _ _ (by
      simpa [StateVector.empty, OrderedMap.empty] using hn)]
    simp [StateVector.empty, OrderedMap.empty, Function.comp_def]

theorem cpp_reloads (hn : ((rows.map SnapshotRow.entry).map fun e => hash e.tuple).Nodup)
    (days : ℕ) :
    ∃ c : Cpp.StateVector hash, cpp.Reloads hash L data days c.raw ∧
      cpp.Normal hash c.raw ∧ c.toStateVector.entries.values = rows.map SnapshotRow.entry ∧
      c.toStateVector.deletionHorizonDays = days := by
  obtain ⟨-, -, v, hv, hunpack⟩ := hread
  cases hv with
  | array hvs =>
    let c : Cpp.StateVector hash :=
      ⟨(rows.map SnapshotRow.entry).map Cpp.Entry.ofEntry, _, days, Cpp.indexed_reindex
        (by rw [List.map_map]; exact hn)⟩
    refine ⟨c, ⟨_, hunpack, ?_⟩, ?_, ?_, rfl⟩
    · exact (cpp_readRows_of_stands hvs _).trans (congrArg _ (pushAll_empty _ days))
    · intro e he
      obtain ⟨e', -, rfl⟩ := List.mem_map.mp he
      exact Cpp.Entry.normal_ofEntry e'
    · rw [OrderedMap.values, c.entries_toStateVector]
      simp [c, Function.comp_def]

end Reloads

/-- Each port makes the same map of the bytes of a snapshot. -/
theorem reloads_of_reads {p : Implementation} {data : Bytes} {rows : List SnapshotRow}
    {days : ℕ} (hread : L.Reads data (snapshotOf (rows.map SnapshotRow.entry)))
    (hn : ((rows.map SnapshotRow.entry).map fun e => p.key hash e.tuple).Nodup)
    (hdays : p.TakesHorizon days) :
    ∃ (s : p.State hash) (m : StateVector (p.key hash)),
      p.Reloads hash L data days s ∧ p.Represents s m ∧ p.Normal hash s ∧
        m.entries.values = rows.map SnapshotRow.entry ∧ m.deletionHorizonDays = days := by
  cases p with
  | javascript =>
    obtain ⟨s, hload, hvalues, hd⟩ := javascript_reloads hread hash hn hdays
    exact ⟨s, s, hload, rfl, trivial, hvalues, hd⟩
  | python =>
    obtain ⟨s, hload, hvalues, hd⟩ := python_reloads hread hn days
    exact ⟨s, s, hload, rfl, trivial, hvalues, hd⟩
  | cpp =>
    obtain ⟨c, hload, hnormal, hvalues, hd⟩ := cpp_reloads hread hn days
    exact ⟨c.raw, c.toStateVector, hload, ⟨c, rfl, rfl⟩, hnormal, hvalues, hd⟩

omit [DecidableEq κ] in
/-- A state is its map: in C++ the index follows from the vector. -/
theorem Represents.unique {p : Implementation} {s s' : p.State hash}
    {m m' : StateVector (p.key hash)} (h : p.Represents s m) (h' : p.Represents s' m')
    (hs : p.Normal hash s) (hs' : p.Normal hash s')
    (hvalues : m'.entries.values = m.entries.values)
    (hdays : m'.deletionHorizonDays = m.deletionHorizonDays) : s' = s := by
  have hm : m' = m := by
    refine StateVector.ext_entries (OrderedMap.ext ?_) hdays
    rw [m'.entries_eq, m.entries_eq, hvalues]
  cases p with
  | javascript => exact h'.trans (hm.trans h.symm)
  | python => exact h'.trans (hm.trans h.symm)
  | cpp =>
    obtain ⟨c, rfl, rfl⟩ := h
    obtain ⟨c', rfl, rfl⟩ := h'
    have hmap (c : Cpp.StateVector hash) (hc : ∀ e ∈ c.entries, e.Normal) :
        c.toStateVector.entries.values.map Cpp.Entry.ofEntry = c.entries := by
      rw [OrderedMap.values, c.entries_toStateVector, List.map_map, List.map_map]
      exact (List.map_congr_left fun e he => (hc e he).ofEntry_toEntry).trans (List.map_id _)
    have hentries : c'.entries = c.entries := by
      rw [← hmap c hs, ← hmap c' hs', hvalues]
    refine Cpp.RawState.ext hentries (funext fun k => Option.ext fun i => ?_) hdays
    exact (c'.indexed k i).trans (hentries ▸ (c.indexed k i).symm)

/-- No question about tuples of `T` tells the two states apart. -/
structure Agree (T : Set Tuple) (s : w.State hash) (s' : r.State hash) : Prop where
  rows : r.rows hash s' = w.rows hash s
  horizon : r.horizon hash s' = w.horizon hash s
  isActive : ∀ t ∈ T, r.isActive hash s' t = w.isActive hash s t
  activeTuples : r.activeTuples hash s' = w.activeTuples hash s
  evaluate : ∀ hmac16 config opts objectId relation grantee,
    r.evaluate hash hmac16 config opts s' objectId relation grantee =
      w.evaluate hash hmac16 config opts s objectId relation grantee

section Runs

variable {T : Set Tuple} {s : w.State hash} {s' : r.State hash} {m : StateVector (w.key hash)}
  {m' : StateVector (r.key hash)}

theorem agree_of_sameRows (ha : AlikeOn T (w.key hash) (r.key hash)) (h : w.Represents s m)
    (h' : r.Represents s' m') (hrows : SameRows T m m') : Agree T s s' where
  rows := by rw [h'.rows, h.rows, hrows.values]
  horizon := by rw [h'.horizon, h.horizon, hrows.horizon]
  isActive := fun t ht => by rw [h'.isActive, h.isActive, hrows.isActive ha ht]
  activeTuples := by rw [h'.activeTuples, h.activeTuples, hrows.activeTuples]
  evaluate := by
    intro hmac16 config opts objectId relation grantee
    rw [evaluate_eq, evaluate_eq, h'.activeTuples, h.activeTuples, hrows.activeTuples]

/-- Whatever is done to both, they give the same answers and stay alike. -/
theorem run_agree (ha : AlikeOn T (w.key hash) (r.key hash)) (h : w.Represents s m)
    (h' : r.Represents s' m') (hrows : SameRows T m m') {as : List StateStep}
    (hT : ∀ a ∈ as, a.Within T) :
    (r.run hash s' as).1 = (w.run hash s as).1 ∧
      Agree T (w.run hash s as).2 (r.run hash s' as).2 := by
  induction as generalizing s s' m m' with
  | nil => exact ⟨rfl, agree_of_sameRows ha h h' hrows⟩
  | cons a as ih =>
    obtain ⟨hanswer, hnext⟩ := h.step a
    obtain ⟨hanswer', hnext'⟩ := h'.step a
    obtain ⟨hsame, hrows'⟩ := hrows.step ha (hT a List.mem_cons_self)
    obtain ⟨hrest, hagree⟩ := ih hnext hnext' hrows' fun b hb => hT b (List.mem_cons_of_mem a hb)
    refine ⟨?_, hagree⟩
    rw [run, run, hanswer, hanswer', hsame, hrest]

end Runs

end Implementation

/-- The libraries have one encoding for the value. -/
def MsgPackLibraries.Canonical (L : MsgPackLibraries) (m : MessagePack.Value) : Prop :=
  ∀ b b', L.Writes b m → L.Writes b' m → b = b'

namespace Implementation

variable {hash : Tuple → κ} {w r : Implementation}

/-- Reading a snapshot back gives the very state it was taken of.  In another port it gives a
state that answers alike now and after any further steps, and whose own snapshot takes the
writer back to where it was; its bytes are the same ones if the libraries agree on them. -/
theorem snapshot_fidelity (L : MsgPackLibraries) {s : w.State hash} {T : Set Tuple}
    (hs : w.Reachable hash s) (hlib : L.RoundTrips (snapshotOf (w.rows hash s)))
    (hdays : r.TakesHorizon (w.horizon hash s)) (hT : ∀ e ∈ w.rows hash s, e.tuple ∈ T)
    (hhash : w.filesByHash ≠ r.filesByHash → Set.InjOn hash T) :
    w.Reloads hash L (w.toPayload hash L s) (w.horizon hash s) s ∧
      ∃ s' : r.State hash, r.Reloads hash L (w.toPayload hash L s) (w.horizon hash s) s' ∧
        (∀ as : List StateStep, (∀ a ∈ as, a.Within T) →
          (r.run hash s' as).1 = (w.run hash s as).1 ∧
            Agree T (w.run hash s as).2 (r.run hash s' as).2) ∧
        w.Reloads hash L (r.toPayload hash L s') (w.horizon hash s) s ∧
        (L.Canonical (snapshotOf (w.rows hash s)) →
          r.toPayload hash L s' = w.toPayload hash L s) := by
  obtain ⟨m, hm, hreach⟩ := exists_map hs
  have ha : AlikeOn T (w.key hash) (r.key hash) := alikeOn_keys hhash
  have hvalues := hm.rows
  rw [hvalues] at hlib hT ⊢
  rw [hm.horizon] at hdays ⊢
  obtain ⟨rows, hrows⟩ := exists_rows hreach.bounded
  have hwrites : L.Writes (w.toPayload hash L s) (snapshotOf m.entries.values) :=
    hvalues ▸ writes_toPayload L hm
  -- the writer's keys are distinct, and so are the reader's for the same tuples
  have hkeys : (m.entries.values.map fun e => w.key hash e.tuple).Nodup := by
    have hn := m.entries.nodup
    rw [m.entries_eq, List.map_map] at hn
    exact hn
  have hkeys' : (m.entries.values.map fun e => r.key hash e.tuple).Nodup := by
    refine List.Nodup.map_on ?_ (List.Nodup.of_map _ hkeys)
    intro e he e' he' hk
    refine List.inj_on_of_nodup_map hkeys he he' ?_
    exact (ha e.tuple (hT e he) e'.tuple (hT e' he')).mpr hk
  -- whatever bytes hold the value, the writer gets its own state out of them
  have hself (data : Bytes) (hdata : L.Writes data (snapshotOf m.entries.values)) :
      w.Reloads hash L data m.deletionHorizonDays s := by
    have hread := hlib data hdata
    rw [← hrows] at hread hkeys
    obtain ⟨s₀, m₀, hload, hm₀, hnormal, hvalues₀, hdays₀⟩ := reloads_of_reads hread hkeys
      (takesHorizon hs hm)
    obtain rfl : s₀ = s := hm.unique hm₀ (normal hs) hnormal (hvalues₀.trans hrows) hdays₀
    exact hload
  have hread := hlib _ hwrites
  rw [← hrows] at hread hkeys'
  obtain ⟨s', m', hload, hm', -, hvalues', hdays'⟩ := reloads_of_reads hread hkeys' hdays
  have hsame : SameRows T m m' := ⟨hvalues'.trans hrows, hdays', hT⟩
  have hwrites' : L.Writes (r.toPayload hash L s') (snapshotOf m.entries.values) := by
    have h := writes_toPayload L hm'
    rwa [hm'.rows, hsame.values] at h
  exact ⟨hself _ hwrites, s', hload, fun as hin => run_agree ha hm hm' hsame hin,
    hself _ hwrites', fun hcanonical => hcanonical _ _ hwrites' hwrites⟩

end Implementation

/-! ## A snapshot written in JavaScript and read in C++ -/

theorem allFit_map {α : Type} {f : α → MessagePack.Value} {as : List α}
    (h : ∀ a ∈ as, (f a).Fits) : MessagePack.AllFit (as.map f) := by
  induction as with
  | nil => trivial
  | cons a as ih =>
    exact ⟨h a List.mem_cons_self, ih fun b hb => h b (List.mem_cons_of_mem a hb)⟩

theorem fits_timestampOf {ts : Option ℕ} (h : ∀ t ∈ ts, t ≤ maxHlc) : (timestampOf ts).Fits := by
  cases ts with
  | none => trivial
  | some t => exact Nat.lt_of_le_pred (by decide) (h t rfl)

/-- Every snapshot of fewer than `2 ^ 32` entries fits the format. -/
theorem fits_snapshotOf {es : List Entry} (h : ∀ e ∈ es, e.Bounded) (hl : es.length < 2 ^ 32) :
    (snapshotOf es).Fits := by
  have hhash (b : Hash) : (MessagePack.Value.bin b.val).Fits :=
    b.property.trans_lt (by decide)
  refine ⟨by rwa [List.length_map], allFit_map fun e he => ⟨by simp, hhash _, ⟨?_, ?_⟩, trivial,
    hhash _, hhash _, fits_timestampOf (h e he .grant), fits_timestampOf (h e he .revoke),
    trivial⟩⟩
  · rw [List.length_map]
    exact e.tuple.segments_le.trans_lt (by decide)
  · exact allFit_map fun b _ => hhash b

def snapshotGrant : Operation where
  tuple := repeatedTuple
  action := .grant
  hlc := 1700000000000 * 65536
  signatures := []
  hlc_le := Nat.le_of_ble_eq_true rfl

/-- A state with one grant in it. -/
def grantedState : StateVector Tuple.key :=
  ((StateVector.empty 180).apply snapshotGrant 1700000000000 (some defaultMaxFutureMs)).2

theorem grantedState_reachable : grantedState.Reachable :=
  (StateVector.Reachable.empty 180).apply ..

theorem snapshot_fidelity_grantedState :
    ∃ s' : Implementation.cpp.State Tuple.preimage,
      Implementation.cpp.Reloads Tuple.preimage .ofFormat
        (Implementation.javascript.toPayload Tuple.preimage .ofFormat grantedState) 180 s' ∧
      Implementation.cpp.isActive Tuple.preimage s' repeatedTuple = true := by
  obtain ⟨-, s', hload, hrun, -⟩ := @Implementation.snapshot_fidelity _ _ Tuple.preimage
    .javascript .cpp .ofFormat grantedState Set.univ ⟨by decide, grantedState_reachable⟩
    (MsgPackLibraries.ofFormat_roundTrips
      (fits_snapshotOf grantedState_reachable.bounded (by decide)))
    trivial (fun _ _ => trivial) (fun _ => Tuple.preimage_injective.injOn)
  have hagree := (hrun [] fun _ h => absurd h List.not_mem_nil).2
  exact ⟨s', hload, (hagree.isActive repeatedTuple trivial).trans (by decide)⟩

end Dacar

import Dacar.Pruning

/-!
# What pruning leaves of the tombstones

Every timestamp in a state came with an operation that the run accepted, so the inactive
entries with a timestamp inside the horizon are no more than the tuples of the operations
dated inside it.  Besides them pruning leaves only what holds no pair of timestamps: the
Removes that no Add was recorded with.
-/

namespace Dacar

section Accepted

variable {S S' τ μ τ' μ' : Type*}

/-- The operations that a run accepts, in order. -/
def acceptedOps (apply : S → Operation → τ → μ → Bool × S) (prune : S → τ → ℕ × S) :
    S → List (Tick τ μ) → List Operation
  | _, [] => []
  | s, .offer now op m :: ticks =>
    let r := apply s op now m
    let rest := acceptedOps apply prune r.2 ticks
    if r.1 then op :: rest else rest
  | s, .prune now :: ticks => acceptedOps apply prune (prune s now).2 ticks

/-- Runs of two implementations accept the same when their steps agree. -/
theorem acceptedOps_map {apply : S → Operation → τ → μ → Bool × S} {prune : S → τ → ℕ × S}
    {apply' : S' → Operation → τ' → μ' → Bool × S'} {prune' : S' → τ' → ℕ × S'}
    (abs : S → S') (f : τ → τ') (g : μ → μ')
    (happ : ∀ s op now m, apply' (abs s) op (f now) (g m) =
      ((apply s op now m).1, abs (apply s op now m).2))
    (hprune : ∀ s now, prune' (abs s) (f now) = ((prune s now).1, abs (prune s now).2))
    (s : S) (ticks : List (Tick τ μ)) :
    acceptedOps apply' prune' (abs s) (ticks.map (Tick.map f g)) =
      acceptedOps apply prune s ticks := by
  induction ticks generalizing s with
  | nil => rfl
  | cons t ticks ih =>
    cases t with
    | offer now op m =>
      simp only [List.map_cons, Tick.map, acceptedOps, happ, ih]
    | prune now =>
      simp only [List.map_cons, Tick.map, acceptedOps, hprune, ih]

end Accepted

namespace Entry

/-- Some timestamp is inside the horizon. -/
def fresh (cutoff : ℤ) (e : Entry) : Bool :=
  e.addTs.any (fun a => decide (cutoff ≤ physical a)) ||
    e.removeTs.any fun r => decide (cutoff ≤ physical r)

variable {cutoff : ℤ} {e : Entry}

theorem fresh_iff :
    e.fresh cutoff = true ↔ ∃ action, ∃ ts ∈ e.timestamp action, cutoff ≤ physical ts := by
  simp only [fresh, Bool.or_eq_true, Option.any_eq_true, decide_eq_true_eq]
  constructor
  · rintro (⟨a, ha, hle⟩ | ⟨r, hr, hle⟩)
    · exact ⟨.grant, a, ha, hle⟩
    · exact ⟨.revoke, r, hr, hle⟩
  · rintro ⟨_ | _, ts, hts, hle⟩
    · exact .inr ⟨ts, hts, hle⟩
    · exact .inl ⟨ts, hts, hle⟩

theorem not_fresh_iff :
    e.fresh cutoff = false ↔ ∀ action, ∀ ts ∈ e.timestamp action, (physical ts : ℤ) < cutoff := by
  rw [← Bool.not_eq_true, fresh_iff]
  simp only [not_exists, not_and, not_le]

end Entry

variable {κ : Type*} [DecidableEq κ] {key : Tuple → κ}

/-- The entries that are not active, each under its key. -/
def StateVector.tombstones (s : StateVector key) : List (κ × Entry) :=
  s.entries.entries.filter fun p => !p.2.isActive

/-- The tuples of the operations that are dated inside the horizon. -/
def freshTuples (cutoff : ℤ) (ops : List Operation) : Finset Tuple :=
  ((ops.filter fun op => decide (cutoff ≤ physical op.hlc)).map Operation.tuple).toFinset

theorem mem_freshTuples {cutoff : ℤ} {ops : List Operation} {t : Tuple} :
    t ∈ freshTuples cutoff ops ↔ ∃ op ∈ ops, cutoff ≤ physical op.hlc ∧ op.tuple = t := by
  simp [freshTuples, and_assoc]

namespace StateVector

/-! ## Where the timestamps come from -/

/-- Every entry has a timestamp, and every timestamp came with one of the operations. -/
structure Sourced (ops : List Operation) (s : StateVector key) : Prop where
  dated : ∀ k, ∀ e ∈ s.entries.get? k, ∃ action, e.timestamp action ≠ none
  source : ∀ k, ∀ e ∈ s.entries.get? k, ∀ action, ∀ ts ∈ e.timestamp action,
    ∃ op ∈ ops, key op.tuple = k ∧ op.action = action ∧ op.hlc = ts

section Sourced

variable {ops : List Operation} {s : StateVector key}

theorem sourced_empty (days : ℕ) : Sourced [] (.empty days : StateVector key) where
  dated k e he := absurd he (by simp [empty])
  source k e he := absurd he (by simp [empty])

theorem Sourced.record (h : Sourced ops s) (op : Operation) :
    Sourced (ops ++ [op]) (s.record op) where
  dated := by
    intro k e he
    rw [get?_record] at he
    split_ifs at he with hk
    · refine ⟨op.action, ?_⟩
      rw [← Option.some.inj he, Entry.timestamp_record, if_pos rfl]
      simp
    · exact h.dated k e he
  source := by
    intro k e he action ts hts
    rw [get?_record] at he
    split_ifs at he with hk
    · subst hk
      rw [← Option.some.inj he] at hts
      have hts' : (s.record op).timestamp action op.tuple = some ts := by
        rw [timestamp, get?_record, if_pos rfl]
        exact hts
      rcases timestamp_record hts' with hold | ⟨-, ha, hhlc⟩
      · obtain ⟨e', he', hts''⟩ := Option.bind_eq_some_iff.mp hold
        obtain ⟨op', hmem, hop'⟩ := h.source _ e' he' action ts hts''
        exact ⟨op', List.mem_append_left _ hmem, hop'⟩
      · exact ⟨op, by simp, rfl, ha, hhlc⟩
    · obtain ⟨op', hmem, hop'⟩ := h.source k e he action ts hts
      exact ⟨op', List.mem_append_left _ hmem, hop'⟩

theorem get?_of_prune {now : ℤ} {k : κ} {e : Entry} (he : (s.prune now).2.entries.get? k = some e) :
    s.entries.get? k = some e ∧ e.expired (now - s.deletionHorizonMs) = false := by
  rw [get?_prune, Option.filter_eq_some_iff] at he
  simpa using he

theorem Sourced.prune (h : Sourced ops s) (now : ℤ) : Sourced ops (s.prune now).2 where
  dated k e he := h.dated k e (get?_of_prune he).1
  source k e he := h.source k e (get?_of_prune he).1

/-- Through a whole run, with the operations it accepts. -/
theorem sourced_runTicks (h : Sourced ops s) (ticks : List (Tick ℤ (Option ℤ))) :
    Sourced (ops ++ acceptedOps apply prune s ticks) (runTicks apply prune s ticks).2 := by
  induction ticks generalizing ops s with
  | nil => exact (List.append_nil ops).symm ▸ h
  | cons t ticks ih =>
    cases t with
    | prune now => exact ih (h.prune now)
    | offer now op m =>
      simp only [Dacar.runTicks, acceptedOps]
      rw [apply_eq]
      by_cases hs : s.Admits op now m
      · rw [if_pos hs, if_pos rfl]
        have hrest := ih (h.record op)
        rwa [List.append_assoc] at hrest
      · rw [if_neg hs, if_neg Bool.false_ne_true]
        exact ih h

end Sourced

theorem runTicks_horizon (s : StateVector key) (ticks : List (Tick ℤ (Option ℤ))) :
    (runTicks apply prune s ticks).2.deletionHorizonMs = s.deletionHorizonMs := by
  induction ticks generalizing s with
  | nil => rfl
  | cons t ticks ih =>
    cases t with
    | prune now => exact ih _
    | offer now op m =>
      refine (ih _).trans ?_
      rw [deletionHorizonMs, apply_horizon, deletionHorizonMs]

/-! ## What is left -/

/-- How pruning `s` to `s'` bounds its tombstones, when `ops` are the operations accepted. -/
structure Bounded (cutoff : ℤ) (ops : List Operation) (s s' : StateVector key) : Prop where
  /-- Whatever is active, has a timestamp inside the horizon or lacks one is kept. -/
  kept : ∀ k, ∀ e ∈ s.entries.get? k,
    (e.isActive = true ∨ (∃ action, ∃ ts ∈ e.timestamp action, cutoff ≤ physical ts) ∨
      ∃ action, e.timestamp action = none) → s'.entries.get? k = some e
  /-- Nothing else is, and no entry is changed. -/
  old : ∀ k, ∀ e ∈ s'.entries.get? k, s.entries.get? k = some e
  /-- An inactive entry with nothing inside the horizon is a Remove without an Add. -/
  lone : ∀ k, ∀ e ∈ s'.entries.get? k, e.isActive = false →
    (∀ action, ∀ ts ∈ e.timestamp action, (physical ts : ℤ) < cutoff) →
      e.addTs = none ∧
        ∃ op ∈ ops, key op.tuple = k ∧ op.action = .revoke ∧ e.removeTs = some op.hlc
  count : s'.tombstones.length ≤ (freshTuples cutoff ops).card +
    s'.tombstones.countP fun p => p.2.addTs.isNone && !p.2.fresh cutoff

section Bounded

variable {ops : List Operation} {s : StateVector key} {cutoff : ℤ}

theorem mem_tombstones {k : κ} {e : Entry} :
    (k, e) ∈ s.tombstones ↔ s.entries.get? k = some e ∧ e.isActive = false := by
  rw [tombstones, List.mem_filter, OrderedMap.mem_entries_iff, Bool.not_eq_true']

/-- The inactive entries with a timestamp inside the horizon, counted by their tuples. -/
theorem Sourced.countP_fresh_le (h : Sourced ops s) :
    (s.tombstones.countP fun p => p.2.fresh cutoff) ≤ (freshTuples cutoff ops).card := by
  let kept := s.tombstones.filter fun p => p.2.fresh cutoff
  have hnodup : (kept.map Prod.fst).Nodup :=
    s.entries.nodup.sublist ((List.filter_sublist.trans List.filter_sublist).map Prod.fst)
  have hsub : (kept.map Prod.fst).toFinset ⊆ (freshTuples cutoff ops).image key := by
    intro k hk
    obtain ⟨⟨_, e⟩, hmem, rfl⟩ := List.mem_map.mp (List.mem_toFinset.mp hk)
    obtain ⟨htomb, hfresh⟩ := List.mem_filter.mp hmem
    obtain ⟨action, ts, hts, hle⟩ := Entry.fresh_iff.mp hfresh
    obtain ⟨op, hop, hkey, -, hhlc⟩ := h.source _ e (mem_tombstones.mp htomb).1 action ts hts
    exact Finset.mem_image.mpr ⟨op.tuple, mem_freshTuples.mpr ⟨op, hop, hhlc ▸ hle, rfl⟩, hkey⟩
  calc s.tombstones.countP (fun p => p.2.fresh cutoff)
      = (kept.map Prod.fst).length := by rw [List.countP_eq_length_filter, List.length_map]
    _ = (kept.map Prod.fst).toFinset.card := (List.toFinset_card_of_nodup hnodup).symm
    _ ≤ ((freshTuples cutoff ops).image key).card := Finset.card_le_card hsub
    _ ≤ (freshTuples cutoff ops).card := Finset.card_image_le

/-- A tombstone that pruning leaves with nothing inside the horizon has no Add. -/
theorem Sourced.lone (h : Sourced ops s) {now : ℤ} {k : κ} {e : Entry}
    (he : (s.prune now).2.entries.get? k = some e) (hact : e.isActive = false)
    (hold : e.fresh (now - s.deletionHorizonMs) = false) :
    e.addTs = none ∧
      ∃ op ∈ ops, key op.tuple = k ∧ op.action = .revoke ∧ e.removeTs = some op.hlc := by
  obtain ⟨he', hexp⟩ := get?_of_prune he
  -- an Add alone would make it active, and with a Remove beside it, it had been pruned
  have hadd : e.addTs = none := by
    cases ha : e.addTs with
    | none => rfl
    | some a =>
      cases hr : e.removeTs with
      | none => simp [Entry.isActive, ha, hr] at hact
      | some r =>
        have hexp' : e.expired (now - s.deletionHorizonMs) = true := by
          refine Entry.expired_iff.mpr ⟨hact, ?_⟩
          rintro (_ | _)
          · exact ⟨r, hr, Entry.not_fresh_iff.mp hold .revoke r hr⟩
          · exact ⟨a, ha, Entry.not_fresh_iff.mp hold .grant a ha⟩
        exact absurd hexp' (by simp [hexp])
  refine ⟨hadd, ?_⟩
  obtain ⟨action, hdated⟩ := h.dated k e he'
  obtain ⟨ts, hts⟩ := Option.ne_none_iff_exists'.mp hdated
  obtain ⟨op, hop, hkey, haction, rfl⟩ := h.source k e he' action ts hts
  cases action with
  | grant => exact absurd (hadd.symm.trans hts) (by simp)
  | revoke => exact ⟨op, hop, hkey, haction, hts⟩

theorem Sourced.bounded (h : Sourced ops s) (now : ℤ) :
    Bounded (now - s.deletionHorizonMs) ops s (s.prune now).2 where
  kept := by
    intro k e he hkeep
    have hexp : e.expired (now - s.deletionHorizonMs) = false := by
      rw [← Bool.not_eq_true, Entry.expired_iff]
      rintro ⟨hact, hold⟩
      rcases hkeep with hact' | ⟨action, ts, hts, hfresh⟩ | ⟨action, hnone⟩
      · exact Bool.false_ne_true (hact.symm.trans hact')
      · obtain ⟨ts', hts', hlt⟩ := hold action
        rw [Option.mem_unique hts hts'] at hfresh
        exact not_lt.mpr hfresh hlt
      · obtain ⟨ts', hts', -⟩ := hold action
        exact absurd (hnone.symm.trans hts') (by simp)
    rw [get?_prune, Option.mem_def.mp he, Option.filter_some, hexp]
    rfl
  old k e he := (get?_of_prune he).1
  lone k e he hact hold := h.lone he hact (Entry.not_fresh_iff.mpr hold)
  count := by
    set cutoff := now - s.deletionHorizonMs
    have hsplit := List.length_eq_countP_add_countP (fun p => p.2.fresh cutoff)
      (l := (s.prune now).2.tombstones)
    have hlone : ((s.prune now).2.tombstones.countP fun p => !p.2.fresh cutoff) =
        (s.prune now).2.tombstones.countP fun p => p.2.addTs.isNone && !p.2.fresh cutoff := by
      refine List.countP_congr fun p hp => ?_
      obtain ⟨he, hact⟩ := mem_tombstones.mp hp
      cases hf : p.2.fresh cutoff with
      | true => simp
      | false => simp [(h.lone he hact hf).1]
    have hfresh : ((s.prune now).2.tombstones.countP fun p => p.2.fresh cutoff) ≤
        (freshTuples cutoff ops).card := (h.prune now).countP_fresh_le
    simp only [Bool.not_eq_true, Bool.decide_eq_false] at hsplit
    omega

end Bounded

/-- A run from a state without entries, and a prune after it. -/
theorem runTicks_bounded {s : StateVector key} (h : Sourced [] s)
    (ticks : List (Tick ℤ (Option ℤ))) (now : ℤ) :
    Bounded (now - s.deletionHorizonMs) (acceptedOps apply prune s ticks)
      (runTicks apply prune s ticks).2 ((runTicks apply prune s ticks).2.prune now).2 := by
  have hrun := (sourced_runTicks h ticks).bounded now
  rwa [runTicks_horizon] at hrun

end StateVector

namespace Cpp.StateVector

theorem acceptedOps_toStateVector (s : StateVector key) (ticks : List CppTick) :
    acceptedOps Dacar.StateVector.apply Dacar.StateVector.prune s.toStateVector
        (ticks.map (Tick.map readingOf skewBound)) =
      acceptedOps applyAt pruneAt s ticks :=
  acceptedOps_map toStateVector readingOf skewBound
    (fun s op now m => toStateVector_apply s op now.1 now.2 m)
    (fun s now => toStateVector_prune s now.1 now.2) s ticks

theorem runTicks_bounded {s : StateVector key} (h : s.toStateVector.Sourced [])
    (ticks : List CppTick) (now : ℕ × ℤ) :
    Dacar.StateVector.Bounded (readingOf now - s.toStateVector.deletionHorizonMs)
      (acceptedOps applyAt pruneAt s ticks) (runTicks applyAt pruneAt s ticks).2.toStateVector
      ((runTicks applyAt pruneAt s ticks).2.pruneAt now).2.toStateVector := by
  have hrun := Dacar.StateVector.runTicks_bounded h
    (ticks.map (Tick.map readingOf skewBound)) (readingOf now)
  rw [acceptedOps_toStateVector, runTicks_toStateVector] at hrun
  have hprune : ((runTicks applyAt pruneAt s ticks).2.toStateVector.prune (readingOf now)).2 =
      ((runTicks applyAt pruneAt s ticks).2.pruneAt now).2.toStateVector :=
    congrArg Prod.snd (toStateVector_prune _ now.1 now.2)
  rwa [hprune] at hrun

end Cpp.StateVector

/-- What a prune leaves, after any run from the empty state. -/
theorem tombstones_bounded (days : ℕ) :
    (∀ (ticks : List (Tick ℤ (Option ℤ))) (now : ℤ),
      let start : StateVector key := .empty days
      let s := (runTicks StateVector.apply StateVector.prune start ticks).2
      StateVector.Bounded (now - days * msPerDay)
        (acceptedOps StateVector.apply StateVector.prune start ticks) s (s.prune now).2) ∧
    (∀ (ticks : List Cpp.StateVector.CppTick) (now : ℕ × ℤ),
      let start : Cpp.StateVector key := .empty days
      let s := (runTicks Cpp.StateVector.applyAt Cpp.StateVector.pruneAt start ticks).2
      StateVector.Bounded (Cpp.StateVector.readingOf now - days * msPerDay)
        (acceptedOps Cpp.StateVector.applyAt Cpp.StateVector.pruneAt start ticks)
        s.toStateVector (s.pruneAt now).2.toStateVector) :=
  ⟨fun ticks now => StateVector.runTicks_bounded (StateVector.sourced_empty days) ticks now,
    fun ticks now => Cpp.StateVector.runTicks_bounded (s := .empty days)
      (StateVector.sourced_empty days) ticks now⟩

/-- A revoke of a tuple that was never granted. -/
def loneRevoke : List (Tick ℤ (Option ℤ)) :=
  [.offer 0 ⟨replayed, .revoke, 0, [], Nat.zero_le maxHlc⟩ none]

/-- Two days later, under a horizon of one, its tombstone is still there, and nothing was
dated inside the horizon. -/
theorem lone_revoke_stays :
    let start : StateVector Tuple.key := .empty 1
    let s := (runTicks StateVector.apply StateVector.prune start loneRevoke).2
    let now : ℤ := 2 * msPerDay
    (loneRevoke.map Tick.now).Pairwise (· ≤ ·) ∧
      (s.prune now).2.entries.get? replayed.key = some ⟨replayed, none, some 0⟩ ∧
      (⟨replayed, none, some 0⟩ : Entry).isActive = false ∧
      (physical 0 : ℤ) < now - s.deletionHorizonMs ∧
      (freshTuples (now - s.deletionHorizonMs)
        (acceptedOps StateVector.apply StateVector.prune start loneRevoke)).card <
          (s.prune now).2.tombstones.length := by
  decide

end Dacar

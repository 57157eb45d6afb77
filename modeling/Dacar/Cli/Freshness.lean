import Dacar.Cli.Runs

/-!
# The HLC of a local operation

An operation that is issued and applied decides about its tuple when its HLC is later than
every timestamp of the tuple.  The clock sees to that for the operations that were issued
here, and is not told of the ones that were received.
-/

namespace Dacar.Cli

variable {κ : Type} [DecidableEq κ] {key : Tuple → κ}

section Draw

variable {n : Node} {a : IssueArgs} {clock : Clock} {op : Operation}

theorem draw_eq_some (h : n.draw a clock = some op) :
    (clock.now a.phys).1 = some op.hlc ∧ op.tuple = a.tuple ∧ op.action = a.action := by
  unfold Node.draw at h
  split at h
  · exact nomatch h
  · rename_i hlc hnow
    obtain rfl := Option.some.inj h
    exact ⟨hnow, rfl, rfl⟩

end Draw

/-! ## Where the timestamps come from -/

/-- Every timestamp was given out by the clock or came with a received operation. -/
structure Traced (m : Moment key) : Prop where
  logical_le : Clock.logical (m.store .clock) ≤ maxLogical
  origin : ∀ action t ts, StateVector.timestamp (m.store .state) action t = some ts →
    ts ≤ Clock.packed (m.store .clock) ∨
      ∃ op ∈ m.received, key op.tuple = key t ∧ op.action = action ∧ op.hlc = ts

theorem timestamp_recordAll {ops : List Operation} {state : StateVector key} {action : Action}
    {t : Tuple} {ts : ℕ} (h : (recordAll ops state).timestamp action t = some ts) :
    state.timestamp action t = some ts ∨
      ∃ op ∈ ops, key op.tuple = key t ∧ op.action = action ∧ op.hlc = ts := by
  induction ops generalizing state with
  | nil => exact .inl h
  | cons op ops ih =>
    rcases ih h with hrecord | ⟨op', hop', heq⟩
    · rcases StateVector.timestamp_record hrecord with hold | hnew
      · exact .inl hold
      · exact .inr ⟨op, List.mem_cons_self, hnew⟩
    · exact .inr ⟨op', List.mem_cons_of_mem _ hop', heq⟩

theorem traced_init (days : ℕ) : Traced (⟨.init days, []⟩ : Moment key) where
  logical_le := Nat.zero_le _
  origin _ _ _ h := nomatch h

theorem received_mono (m : Moment key) (c : Call) : m.received ⊆ (m.call c).received := by
  intro op hop
  obtain ⟨leg, hleg⟩ := m.mem_received.mp hop
  exact (m.call c).mem_received.mpr ⟨leg, List.mem_append_left _ hleg⟩

/-- A command that leaves the clock alone and records operations it tells of. -/
theorem Traced.of_recordAll {m : Moment key} {c : Call} (hm : Traced m) (ops : List Operation)
    (hclock : (m.call c).store .clock = m.store .clock)
    (hstate : (m.call c).store .state = recordAll ops (m.store .state))
    (hops : ∀ op ∈ ops, op ∈ (m.call c).received) : Traced (m.call c) where
  logical_le := hclock ▸ hm.logical_le
  origin action t ts h := by
    rw [hclock]
    rcases timestamp_recordAll (hstate ▸ h) with hold | ⟨op, hop, heq⟩
    · exact (hm.origin action t ts hold).imp_right fun ⟨op, hop, heq⟩ =>
        ⟨op, received_mono m c hop, heq⟩
    · exact .inr ⟨op, hops op hop, heq⟩

/-- A command that draws an operation and records at most that one. -/
theorem Traced.of_draw {m : Moment key} {c : Call} (hm : Traced m) {n : Node} {a : IssueArgs}
    {op : Operation} (h : n.draw a (m.store .clock) = some op)
    (hclock : (m.call c).store .clock = (Clock.now (m.store .clock) a.phys).2)
    (hstate : (m.call c).store .state = m.store .state ∨
      (m.call c).store .state = StateVector.record (m.store .state) op) :
    Traced (m.call c) := by
  obtain ⟨hnow, -, -⟩ := draw_eq_some h
  have hpacked : op.hlc = (Clock.now (m.store .clock) a.phys).2.packed := Clock.now_packed hnow
  have hlt : Clock.packed (m.store .clock) < op.hlc :=
    (Clock.lt_now_iff hnow hm.logical_le _).mpr (.inr le_rfl)
  refine ⟨hclock ▸ Clock.now_logical_le hnow, fun action t ts hts => ?_⟩
  rw [hclock, ← hpacked]
  have hsource : StateVector.timestamp (m.store .state) action t = some ts ∨ op.hlc = ts := by
    rcases hstate with hstate | hstate
    · exact .inl (hstate ▸ hts)
    · exact (StateVector.timestamp_record (hstate ▸ hts)).imp_right fun hnew => hnew.2.2
  rcases hsource with hold | rfl
  · rcases hm.origin action t ts hold with hle | ⟨op', hop', heq⟩
    · exact .inl (hle.trans hlt.le)
    · exact .inr ⟨op', received_mono m c hop', heq⟩
  · exact .inl le_rfl

theorem Traced.call {m : Moment key} (hm : Traced m) (c : Call) : Traced (m.call c) := by
  cases c with
  | issue n a =>
    rcases issue_leaves n a m.store with ⟨hclock, hstate⟩ | ⟨op, hop, hclock, hstate⟩
    · exact hm.of_recordAll [] hclock hstate fun _ h => nomatch h
    · exact hm.of_draw hop hclock hstate
  | publish a =>
    have hstore {r : Record} (ho : r ≠ .outbox) (hs : r ≠ .sent) :
        (m.call (.publish a)).store r = m.store r :=
      (congrFun (publish_run a m.store).2 r).trans (afterPublish_of_ne ho hs)
    exact hm.of_recordAll [] (hstore (by decide) (by decide)) (hstore (by decide) (by decide))
      fun _ h => nomatch h
  | apply single batch =>
    obtain ⟨ops, htold, hstore⟩ := apply_run single batch m.store
    refine hm.of_recordAll ops (congrFun hstore _) (congrFun hstore _) fun op hop => ?_
    refine (m.call _).mem_received.mpr ⟨.file, List.mem_append_right _ ?_⟩
    change _ ∈ ((apply single batch : Command key Unit).run m.store).told
    rw [htold]
    exact List.mem_map_of_mem hop
  | sync port a =>
    have hstore := (sync_run port a m.store).2
    refine hm.of_recordAll (port.synced a (m.store .state)) (congrFun hstore _)
      (congrFun hstore _) fun op hop => ?_
    obtain ⟨leg, hleg⟩ := applied_iff.mpr (.inl hop)
    exact (m.call _).mem_received.mpr ⟨leg, List.mem_append_right _ hleg⟩

theorem traced_history (days : ℕ) (cs : List Call) :
    ∀ t ∈ history cs (⟨.init days, []⟩ : Moment key), Traced t.1 :=
  history_invariant (fun _ c hm => hm.call c) cs (traced_init days)

/-! ## Local operations that decide -/

/-- A completed, applied grant or revoke has the latest HLC of its tuple and settles it. -/
def TakesEffect (m : Moment key) (c : Call) : Prop :=
  match c with
  | .issue n a => a.noApply = false → (c.command.run m.store).result = .ok () →
      ∀ op ∈ n.draw a (m.store .clock),
        (∀ action ts, StateVector.timestamp (m.store .state) action a.tuple = some ts →
          ts < op.hlc) ∧
        (StateVector.isActive ((m.call c).store .state) (key a.tuple) = true ↔ a.action = .grant)
  | .publish _ | .apply _ _ | .sync _ _ => True

/-- The clock overtakes every received operation on the tuple that the state holds. -/
def CaughtUp (m : Moment key) (c : Call) : Prop :=
  match c with
  | .issue _ a => a.noApply = false → (c.command.run m.store).result = .ok () →
      ∀ op ∈ m.received, key op.tuple = key a.tuple → Holds (m.store .state) op →
        Clock.Overtakes (m.store .clock) a.phys op.hlc
  | .publish _ | .apply _ _ | .sync _ _ => True

/-- The HLC that is drawn is later than all timestamps of the tuple exactly when the clock
overtakes what was received of it. -/
theorem Traced.fresh_iff {m : Moment key} (hm : Traced m) {n : Node} {a : IssueArgs}
    {op : Operation} (h : n.draw a (m.store .clock) = some op) :
    (∀ action ts, StateVector.timestamp (m.store .state) action a.tuple = some ts → ts < op.hlc) ↔
      ∀ op' ∈ m.received, key op'.tuple = key a.tuple → Holds (m.store .state) op' →
        Clock.Overtakes (m.store .clock) a.phys op'.hlc := by
  obtain ⟨hnow, -, -⟩ := draw_eq_some h
  have hlt (hlc : ℕ) : hlc < op.hlc ↔ Clock.Overtakes (m.store .clock) a.phys hlc :=
    Clock.lt_now_iff hnow hm.logical_le hlc
  constructor
  · rintro hfresh op' - hkey ⟨ts, hts, hle⟩
    rw [StateVector.timestamp, hkey] at hts
    exact (hlt _).mp (hle.trans_lt (hfresh op'.action ts hts))
  · intro hcaught action ts hts
    rcases hm.origin action a.tuple ts hts with hle | ⟨op', hop', hkey, rfl, rfl⟩
    · exact (hlt ts).mpr (.inr hle)
    · refine (hlt _).mpr (hcaught op' hop' hkey ⟨op'.hlc, ?_, le_rfl⟩)
      rw [StateVector.timestamp, hkey]
      exact hts

theorem Traced.takesEffect_iff {m : Moment key} (hm : Traced m) (c : Call) :
    TakesEffect m c ↔ CaughtUp m c := by
  cases c with
  | issue n a =>
    refine imp_congr_right fun hno => imp_congr_right fun hok => ?_
    cases h : n.draw a (m.store .clock) with
    | none =>
      have hrun := congrArg Script.Outcome.result (issue_of_none h)
      exact nomatch hrun.symm.trans hok
    | some op =>
      obtain ⟨-, htuple, haction⟩ := draw_eq_some h
      have hpasses : a.Passes (m.store .state) op := by
        by_contra hp
        have hrun := congrArg Script.Outcome.result (issue_of_not_passes h hp)
        exact nomatch hrun.symm.trans hok
      have hstate : (m.call (.issue n a)).store .state = StateVector.record (m.store .state) op :=
        issue_state_of_passes h hno hpasses
      rw [← hm.fresh_iff h, ← htuple, ← haction, hstate]
      constructor
      · exact fun heffect => (heffect op rfl).1
      · rintro hfresh op' hop'
        obtain rfl : op = op' := Option.some.inj hop'
        exact ⟨hfresh, StateVector.isActive_record hfresh⟩
  | publish a | apply single batch | sync port a => exact Iff.rfl

/-- From a new store: every completed local operation decides about its tuple, exactly when the
clock has always caught up with the operations received on the tuple. -/
theorem takesEffect_iff_caughtUp (days : ℕ) (cs : List Call) :
    (∀ t ∈ history cs (⟨.init days, []⟩ : Moment key), TakesEffect t.1 t.2) ↔
      ∀ t ∈ history cs (⟨.init days, []⟩ : Moment key), CaughtUp t.1 t.2 :=
  forall₂_congr fun t ht => (traced_history days cs t ht).takesEffect_iff t.2

section Scene

theorem aheadHlc_le : (1000 + 3600000) * 65536 ≤ maxHlc := by decide

/-- The grant of another device of the issuer, an hour ahead. -/
def aheadGrant : Operation where
  tuple := ⟨.fill 16 1, [], true, .fill 16 2, .fill 16 3, Nat.zero_le _⟩
  action := .grant
  hlc := (1000 + 3600000) * 65536
  signatures := [.fill 64 0x51]
  hlc_le := aheadHlc_le

def revoking : IssueArgs := .plain aheadGrant.tuple .revoke 1001

/-- The revoke is applied, and the tuple stays active. -/
theorem revoke_without_effect :
    ¬ ∀ t ∈ history [.apply ⟨some aheadGrant, 1000⟩ [], .issue clerk revoking]
      (⟨.init 180, []⟩ : Moment Tuple.key), TakesEffect t.1 t.2 := by
  intro h
  have heffect := h _ (List.mem_cons_of_mem _ List.mem_cons_self) rfl (by decide +kernel) _ rfl
  have hactive := heffect.2.mp (by decide +kernel)
  exact absurd hactive (by decide)

end Scene

end Dacar.Cli

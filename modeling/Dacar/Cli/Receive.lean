import Dacar.Cli.Commands

/-!
# What receiving does to the store

`apply` and `sync` write one record, the state, and write it only by recording operations
they were delivered.
-/

namespace Dacar.Cli

variable {κ : Type} [DecidableEq κ] {key : Tuple → κ}

def recordAll (ops : List Operation) (state : StateVector key) : StateVector key :=
  ops.foldl StateVector.record state

@[simp] theorem recordAll_nil (state : StateVector key) : recordAll [] state = state := rfl

theorem recordAll_append (ops ops' : List Operation) (state : StateVector key) :
    recordAll (ops ++ ops') state = recordAll ops' (recordAll ops state) :=
  List.foldl_append

/-! ## Operations the state holds -/

/-- The state has the timestamp of the operation, or a later one in its place. -/
def Holds (state : StateVector key) (op : Operation) : Prop :=
  ∃ ts, state.timestamp op.action op.tuple = some ts ∧ op.hlc ≤ ts

theorem holds_record_self (state : StateVector key) (op : Operation) :
    Holds (state.record op) op :=
  ⟨_, by rw [StateVector.timestamp_record_eq, if_pos ⟨rfl, rfl⟩], le_maxTs _ _⟩

theorem Holds.record {state : StateVector key} {op : Operation} (h : Holds state op)
    (op' : Operation) : Holds (state.record op') op := by
  obtain ⟨ts, hts, hle⟩ := h
  obtain ⟨ts', hts', hle'⟩ := StateVector.le_timestamp_record hts op'
  exact ⟨ts', hts', hle.trans hle'⟩

theorem Holds.recordAll {state : StateVector key} {op : Operation} (h : Holds state op)
    (ops : List Operation) : Holds (recordAll ops state) op := by
  induction ops generalizing state with
  | nil => exact h
  | cons op' ops ih => exact ih (h.record op')

theorem holds_recordAll {op : Operation} {ops : List Operation} (hop : op ∈ ops)
    (state : StateVector key) : Holds (recordAll ops state) op := by
  obtain ⟨before, after, rfl⟩ := List.append_of_mem hop
  rw [recordAll_append]
  exact (holds_record_self _ op).recordAll after

/-! ## Delivering -/

theorem deliver_eq (d : Delivery) (state : StateVector key) :
    (d.deliver state).2 = recordAll (d.deliver state).1.toList state := by
  unfold Delivery.deliver
  cases d.op with
  | none => rfl
  | some op =>
    dsimp only
    by_cases hadmits : state.Admits op d.nowMs (some defaultMaxFutureMs)
    · rw [StateVector.apply_eq, if_pos hadmits]
      rfl
    · rw [StateVector.apply_eq, if_neg hadmits]
      rfl

/-- Delivering records the operations that it applies, in order. -/
theorem deliverAll_eq (ds : List Delivery) (state : StateVector key) :
    (deliverAll ds state).2 = recordAll (deliverAll ds state).1 state := by
  induction ds generalizing state with
  | nil => rfl
  | cons d ds ih =>
    rw [deliverAll]
    dsimp only
    rw [ih, recordAll_append, deliver_eq]

omit [DecidableEq κ] in
/-- Saving the state as it is changes nothing. -/
theorem update_state_self (s : Store key) : Function.update s .state (s .state) = s :=
  Function.update_eq_self _ s

theorem apply_run (single : Delivery) (batch : List Delivery) (s : Store key) :
    ∃ ops, ((apply single batch : Command key Unit).run s).told = ops.map (.applied .file) ∧
      ((apply single batch : Command key Unit).run s).store =
        Function.update s .state (recordAll ops (s .state)) := by
  simp only [apply, loadState, Script.get_bind, Script.run_load]
  have hsingle := deliver_eq single (s .state)
  generalize single.deliver (s .state) = r at hsingle ⊢
  obtain ⟨applied, state⟩ := r
  cases applied with
  | some op =>
    refine ⟨[op], rfl, ?_⟩
    exact congrArg (Function.update s Record.state) hsingle
  | none =>
    obtain rfl : state = s .state := hsingle
    have hbatch := deliverAll_eq batch (s .state)
    dsimp only
    generalize deliverAll batch (s .state) = r at hbatch ⊢
    obtain ⟨ops, state⟩ := r
    cases ops with
    | nil => exact ⟨[], rfl, (update_state_self s).symm⟩
    | cons op ops =>
      refine ⟨op :: ops, ?_, ?_⟩
      · simp [saveState, Script.put]
      · simpa [saveState, Script.put] using congrArg (Function.update s Record.state) hbatch

/-! ## What a sync saves -/

/-- The operations that the pages bring. -/
def SyncArgs.pulled (a : SyncArgs) (state : StateVector key) : List Operation :=
  match a.pull with
  | none => []
  | some pull => (deliverAll pull.pages.flatten state).1

def SyncArgs.pullRaises (a : SyncArgs) : Bool := a.pull.any Pull.raises

/-- The operations that the proprietor's messages bring. -/
def SyncArgs.fetched (a : SyncArgs) (state : StateVector key) : List Operation :=
  match a.lxmf with
  | some (.ran deliveries _) => (deliverAll deliveries state).1
  | _ => []

/-- The operations that are in the state when the command ends. -/
def Port.synced (port : Port) (a : SyncArgs) (state : StateVector key) : List Operation :=
  if a.pullRaises then []
  else
    match port, a.lxmf with
    | _, none => a.pulled state
    | .python, some .bootRaises => a.pulled state
    | .javascript, some .bootRaises => []
    | .python, some (.ran _ .complete) =>
      a.pulled state ++ a.fetched (recordAll (a.pulled state) state)
    | .python, some (.ran _ _) => a.pulled state
    | .javascript, some (.ran _ _) =>
      a.pulled state ++ a.fetched (recordAll (a.pulled state) state)

/-- The operations that are applied, and gone when the command ends. -/
def Port.dropped (port : Port) (a : SyncArgs) (state : StateVector key) : List Operation :=
  if a.pullRaises then a.pulled state
  else
    match port, a.lxmf with
    | _, none => []
    | .python, some .bootRaises => []
    | .javascript, some .bootRaises => a.pulled state
    | .python, some (.ran _ .complete) => []
    | .python, some (.ran _ _) => a.fetched (recordAll (a.pulled state) state)
    | .javascript, some (.ran _ _) => []

theorem Python.saveApplied_run {applied : List Operation} {state : StateVector key} {s : Store key}
    (h : state = recordAll applied (s .state)) :
    (Python.saveApplied applied state : Command key Unit).run s =
      ⟨Function.update s .state state, if applied.isEmpty then [] else [.state], [], .ok ()⟩ := by
  unfold Python.saveApplied
  cases applied with
  | nil =>
    obtain rfl : state = s .state := h
    rw [update_state_self]
    rfl
  | cons op ops => rfl

theorem Python.lxmfLeg_run {a : SyncArgs} {s : Store key} :
    ((Python.lxmfLeg (s .state) a.lxmf : Command key Unit).run s).told =
        (a.fetched (s .state)).map (.applied .lxmf) ∧
      ((Python.lxmfLeg (s .state) a.lxmf : Command key Unit).run s).store =
        Function.update s .state (recordAll (match a.lxmf with
          | some (.ran _ .complete) => a.fetched (s .state)
          | _ => []) (s .state)) := by
  unfold Python.lxmfLeg SyncArgs.fetched
  match a.lxmf with
  | none => exact ⟨rfl, (update_state_self s).symm⟩
  | some .bootRaises => exact ⟨rfl, (update_state_self s).symm⟩
  | some (.ran deliveries ending) =>
    have hsaved := Python.saveApplied_run (deliverAll_eq deliveries (s .state))
    rw [deliverAll_eq] at hsaved
    cases ending with
    | complete => simp [deliverAll_eq, hsaved]
    | runtimeError => simp [recordAll]
    | otherError => simp [recordAll]

theorem JavaScript.lxmfLeg_run {a : SyncArgs} {s : Store key} {state : StateVector key} :
    ((JavaScript.lxmfLeg state a.lxmf : Command key Unit).run s).told =
        (a.fetched state).map (.applied .lxmf) ∧
      ((JavaScript.lxmfLeg state a.lxmf : Command key Unit).run s).store =
        match a.lxmf with
        | some .bootRaises => s
        | _ => Function.update s .state (recordAll (a.fetched state) state) := by
  unfold JavaScript.lxmfLeg SyncArgs.fetched
  match a.lxmf with
  | none => exact ⟨rfl, rfl⟩
  | some .bootRaises => exact ⟨rfl, rfl⟩
  | some (.ran deliveries _) => simp [saveState, Script.put, deliverAll_eq]

/-- No pull is a pull of no pages. -/
theorem Python.sync_eq (a : SyncArgs) : (Python.sync a : Command key Unit) =
    Script.load Record.state fun state =>
      Script.tellThen ((a.pulled state).map (.applied .rfed))
        (if a.pullRaises then .raise .network
        else
          Python.saveApplied (a.pulled state) (recordAll (a.pulled state) state) >>= fun _ =>
            Python.lxmfLeg (recordAll (a.pulled state) state) a.lxmf) := by
  unfold Python.sync SyncArgs.pulled SyncArgs.pullRaises
  rw [loadState, Script.get_bind]
  congr 1
  funext state
  cases a.pull with
  | none => rfl
  | some pull => simp only [Script.sayAll_bind, deliverAll_eq, Option.any_some]

theorem JavaScript.sync_eq (a : SyncArgs) : (JavaScript.sync a : Command key Unit) =
    Script.load Record.state fun state =>
      Script.tellThen ((a.pulled state).map (.applied .rfed))
        (if a.pullRaises then .raise .network
        else JavaScript.lxmfLeg (recordAll (a.pulled state) state) a.lxmf) := by
  unfold JavaScript.sync SyncArgs.pulled SyncArgs.pullRaises
  rw [loadState, Script.get_bind]
  congr 1
  funext state
  cases a.pull with
  | none => rfl
  | some pull => simp only [Script.sayAll_bind, deliverAll_eq, Option.any_some]

/-- What a sync applies, and what of it is in the state at its end; no other record is
written. -/
theorem sync_run (port : Port) (a : SyncArgs) (s : Store key) :
    ((port.sync a : Command key Unit).run s).told =
        (a.pulled (s .state)).map (.applied .rfed) ++
          (if a.pullRaises then [] else
            a.fetched (recordAll (a.pulled (s .state)) (s .state))).map (.applied .lxmf) ∧
      ((port.sync a : Command key Unit).run s).store =
        Function.update s .state (recordAll (port.synced a (s .state)) (s .state)) := by
  unfold Port.sync Port.synced
  cases port with
  | python =>
    dsimp only
    rw [Python.sync_eq, Script.run_load, Script.run_tellThen]
    cases a.pullRaises with
    | true => exact ⟨rfl, (update_state_self s).symm⟩
    | false =>
      have hsaved := @Python.saveApplied_run κ _ key (a.pulled (s .state)) _ s rfl
      obtain ⟨htold, hstore⟩ := @Python.lxmfLeg_run κ _ key a
        (Function.update s .state (recordAll (a.pulled (s .state)) (s .state)))
      rw [Function.update_self] at htold hstore
      rw [if_neg Bool.false_ne_true, Script.run_bind_ok s (congrArg Script.Outcome.result hsaved),
        hsaved]
      simp only [Script.Outcome.andThen, htold, hstore, Function.update_idem]
      refine ⟨rfl, ?_⟩
      rcases a.lxmf with _ | _ | ⟨deliveries, _ | _ | _⟩
      case some.ran.complete => simp [recordAll_append]
      all_goals simp
  | javascript =>
    dsimp only
    rw [JavaScript.sync_eq, Script.run_load, Script.run_tellThen]
    cases a.pullRaises with
    | true => exact ⟨rfl, (update_state_self s).symm⟩
    | false =>
      obtain ⟨htold, hstore⟩ := @JavaScript.lxmfLeg_run κ _ key a s
        (recordAll (a.pulled (s .state)) (s .state))
      rw [if_neg Bool.false_ne_true]
      simp only [htold, hstore]
      refine ⟨rfl, ?_⟩
      rcases hlxmf : a.lxmf with _ | _ | deliveries
      · simp [SyncArgs.fetched, hlxmf]
      · simp
      · simp [recordAll_append]

section Spares

variable {r : Record} (h : r ≠ .state)

include h

theorem apply_spares (single : Delivery) (batch : List Delivery) :
    (apply single batch : Command key Unit).Spares r := by
  rw [apply, loadState, Script.get_bind]
  intro state
  dsimp only
  generalize single.deliver state = delivered
  obtain ⟨applied, state'⟩ := delivered
  cases applied with
  | some op => exact ⟨h.symm, trivial⟩
  | none =>
    dsimp only
    rw [Script.sayAll_bind]
    refine Script.Spares.tellThen _ ?_
    split_ifs
    · trivial
    · exact ⟨h.symm, trivial⟩

omit [DecidableEq κ] in
theorem Python.saveApplied_spares (applied : List Operation) (state : StateVector key) :
    (Python.saveApplied applied state : Command key Unit).Spares r := by
  unfold Python.saveApplied
  split_ifs
  · trivial
  · exact ⟨h.symm, trivial⟩

theorem Python.lxmfLeg_spares (state : StateVector key) (lxmf : Option Lxmf) :
    (Python.lxmfLeg state lxmf : Command key Unit).Spares r := by
  rcases lxmf with _ | _ | ⟨deliveries, ending⟩
  · trivial
  · trivial
  · unfold Python.lxmfLeg
    dsimp only
    rw [Script.sayAll_bind]
    refine Script.Spares.tellThen _ ?_
    cases ending with
    | complete => exact Python.saveApplied_spares h _ _
    | runtimeError => trivial
    | otherError => trivial

theorem JavaScript.lxmfLeg_spares (state : StateVector key) (lxmf : Option Lxmf) :
    (JavaScript.lxmfLeg state lxmf : Command key Unit).Spares r := by
  rcases lxmf with _ | _ | ⟨deliveries, ending⟩
  · exact ⟨h.symm, trivial⟩
  · trivial
  · rw [JavaScript.lxmfLeg, Script.sayAll_bind]
    exact Script.Spares.tellThen _ ⟨h.symm, trivial⟩

theorem sync_spares (port : Port) (a : SyncArgs) : (port.sync a : Command key Unit).Spares r := by
  cases port with
  | python =>
    rw [Port.sync, Python.sync_eq]
    refine fun state => Script.Spares.tellThen _ ?_
    split_ifs
    · trivial
    · exact (Python.saveApplied_spares h _ _).bind fun _ => Python.lxmfLeg_spares h _ _
  | javascript =>
    rw [Port.sync, JavaScript.sync_eq]
    refine fun state => Script.Spares.tellThen _ ?_
    split_ifs
    · trivial
    · exact JavaScript.lxmfLeg_spares h _ _

end Spares

/-! ## A sync that raises on the way -/

/-- Nothing raises between the first page and the save of what the pages brought. -/
def Port.savesPulled (port : Port) (a : SyncArgs) : Bool :=
  !a.pullRaises &&
    match port, a.lxmf with
    | .javascript, some .bootRaises => false
    | _, _ => true

theorem synced_of_savesPulled {port : Port} {a : SyncArgs} (h : port.savesPulled a = true)
    (state : StateVector key) : a.pulled state ⊆ port.synced a state := by
  unfold Port.savesPulled at h
  unfold Port.synced
  cases hraises : a.pullRaises with
  | true => simp [hraises] at h
  | false =>
    rw [if_neg Bool.false_ne_true]
    cases port <;> rcases hlxmf : a.lxmf with _ | _ | ⟨deliveries, _ | _ | _⟩
    case javascript.some.bootRaises => simp [hlxmf] at h
    all_goals simp

theorem synced_of_not_savesPulled {port : Port} {a : SyncArgs} (h : ¬ port.savesPulled a = true)
    (state : StateVector key) : port.synced a state = [] := by
  unfold Port.savesPulled at h
  unfold Port.synced
  cases hraises : a.pullRaises with
  | true => rfl
  | false =>
    rw [if_neg Bool.false_ne_true]
    cases port <;> rcases hlxmf : a.lxmf with _ | _ | ⟨deliveries, _ | _ | _⟩
    case javascript.some.bootRaises => rfl
    all_goals simp [hraises, hlxmf] at h

/-- What a sync applies it saves or drops. -/
theorem applied_iff {port : Port} {a : SyncArgs} {s : Store key} {op : Operation} :
    (∃ leg, .applied leg op ∈ ((port.sync a : Command key Unit).run s).told) ↔
      op ∈ port.synced a (s .state) ∨ op ∈ port.dropped a (s .state) := by
  have htold : (∃ leg, .applied leg op ∈ ((port.sync a : Command key Unit).run s).told) ↔
      op ∈ a.pulled (s .state) ∨ op ∈ (if a.pullRaises then [] else
        a.fetched (recordAll (a.pulled (s .state)) (s .state))) := by
    rw [(sync_run port a s).1]
    constructor
    · rintro ⟨leg, hop⟩
      rcases List.mem_append.mp hop with hop | hop <;>
        obtain ⟨op', hop', heq⟩ := List.mem_map.mp hop <;>
        obtain rfl := (Event.applied.inj heq).2
      · exact .inl hop'
      · exact .inr hop'
    · rintro (hop | hop)
      · exact ⟨.rfed, List.mem_append_left _ (List.mem_map_of_mem hop)⟩
      · exact ⟨.lxmf, List.mem_append_right _ (List.mem_map_of_mem hop)⟩
  rw [htold]
  unfold Port.synced Port.dropped
  cases a.pullRaises with
  | true => simp
  | false =>
    cases port <;> rcases hlxmf : a.lxmf with _ | _ | ⟨deliveries, _ | _ | _⟩ <;>
      simp [SyncArgs.fetched, hlxmf]

theorem mem_pulled_iff {port : Port} {a : SyncArgs} {s : Store key} {op : Operation} :
    .applied .rfed op ∈ ((port.sync a : Command key Unit).run s).told ↔
      op ∈ a.pulled (s .state) := by
  rw [(sync_run port a s).1]
  simp

/-- What the pages brought is in the state when the command exits, exactly when nothing raises
before the save, or the state had it before. -/
theorem pulled_persisted_iff (port : Port) (a : SyncArgs) (s : Store key) :
    (∀ op, .applied .rfed op ∈ ((port.sync a : Command key Unit).run s).told →
        Holds (((port.sync a : Command key Unit).run s).store .state) op) ↔
      port.savesPulled a = true ∨ ∀ op ∈ a.pulled (s .state), Holds (s .state) op := by
  simp only [mem_pulled_iff, (sync_run port a s).2, Function.update_self]
  by_cases h : port.savesPulled a = true
  · refine iff_of_true (fun op hop => ?_) (.inl h)
    exact holds_recordAll (synced_of_savesPulled h _ hop) _
  · rw [synced_of_not_savesPulled h, recordAll_nil, or_iff_right h]

section Scene

theorem pulledHlc_le : 65536000 ≤ maxHlc := by decide

def pulledGrant : Operation where
  tuple := ⟨.fill 16 1, [], true, .fill 16 2, .fill 16 3, Nat.zero_le _⟩
  action := .grant
  hlc := 65536000
  signatures := [.fill 64 0x51]
  hlc_le := pulledHlc_le

/-- One page with one Delta; the next pull raises. -/
def secondPullRaises : SyncArgs := ⟨some ⟨[[⟨some pulledGrant, 1000⟩]], true⟩, none⟩

theorem raised_pull_drops :
    ¬ ∀ op, .applied .rfed op ∈
        ((Port.python.sync secondPullRaises : Command Tuple.key Unit).run (Store.init 180)).told →
      Holds (((Port.python.sync secondPullRaises : Command Tuple.key Unit).run
        (Store.init 180)).store .state) op := by
  intro h
  obtain ⟨ts, hts, -⟩ := h pulledGrant (by decide +kernel)
  have hnone : StateVector.timestamp (((Port.python.sync secondPullRaises :
      Command Tuple.key Unit).run (Store.init 180)).store .state) .grant pulledGrant.tuple =
        none := by
    decide +kernel
  exact nomatch hnone.symm.trans hts

end Scene

end Dacar.Cli

import Dacar.Cli.Runs

/-!
# An issue in the middle of another command

One whole `grant` or `revoke` runs on the store of a `sync` or a `publish`, between two of
its steps.  What the other command loaded before may be stale by then: the update is lost
where the command saves such a record without another look.
-/

namespace Dacar.Cli

variable {κ : Type} [DecidableEq κ] {key : Tuple → κ}

/-- The commands that wait on the network. -/
inductive Networked
  | sync (port : Port) (a : SyncArgs)
  | publish (a : PublishArgs)

namespace Networked

def command : Networked → Command key Unit
  | .sync port a => port.sync a
  | .publish a => Cli.publish a

/-- The store as the command leaves it when nothing comes between: what it loaded, with what
was delivered or accepted. -/
def copy : Networked → Store key → Store key
  | .sync port a, s =>
    Function.update s .state (recordAll (port.synced a (s .state)) (s .state))
  | .publish a, s => afterPublish (a.accepted s) a.recordToSent s

/-- The operations that are applied and not saved. -/
def dropped : Networked → Store key → List Operation
  | .sync port a, s => port.dropped a (s .state)
  | .publish _, _ => []

/-- The payloads that are accepted from files. -/
def acceptedFiles : Networked → Store key → List Bytes
  | .sync _ _, _ => []
  | .publish a, s => if a.files.isEmpty then [] else a.accepted s

end Networked

section Meeting

variable (n : Node) (a : IssueArgs) (pt : Script.Point (Content key) Event Failure Unit)

/-- The issue, at that point. -/
def issuedAt : Script.Outcome (Content key) Event Failure Unit := (issue n a).run pt.store

/-- The rest of the other command, after the issue. -/
def endedAfter : Script.Outcome (Content key) Event Failure Unit :=
  pt.rest.run (issuedAt n a pt).store

/-- An operation that the issue applies. -/
def Applies (op : Operation) : Prop :=
  op ∈ n.draw a (pt.store .clock) ∧ a.noApply = false ∧ a.Passes (pt.store .state) op

/-- A payload that the issue queues. -/
def Issues (p : Bytes) : Prop :=
  ∃ op ∈ n.draw a (pt.store .clock), a.Passes (pt.store .state) op ∧ p = n.payload op

/-- After both commands the state holds the issued operation and all that was applied, and the
issued payload is in the boxes. -/
structure NoLost : Prop where
  issue : ∀ op, Applies n a pt op → Holds ((endedAfter n a pt).store .state) op
  applied : ∀ leg op, .applied leg op ∈ pt.told ++ (endedAfter n a pt).told →
    Holds ((endedAfter n a pt).store .state) op
  payload : ∀ p, .issued p ∈ (issuedAt n a pt).told → InBoxes p (endedAfter n a pt).store

/-- The store that the other command has its state from. -/
def loadedFrom (s : Store key) : Store key :=
  if pt.rest.rereads .state pt.store = true then (issuedAt n a pt).store else s

/-- Each record is loaded again before it is saved, or the stale copy has the update; nothing
that was applied is dropped, and the payload is not drained as a file. -/
structure UpToDate (c : Networked) (s : Store key) : Prop where
  state : ∀ op, Applies n a pt op →
    pt.rest.overwrites .state (issuedAt n a pt).store = true → Holds (c.copy s .state) op
  outbox : ∀ p, Issues n a pt p →
    pt.rest.overwrites .outbox (issuedAt n a pt).store = true →
      InBoxes p (c.copy s) ∨ p ∈ pt.store .sent ∨ delivered a.legs = true
  sent : ∀ p, Issues n a pt p →
    pt.rest.overwrites .sent (issuedAt n a pt).store = true →
      delivered a.legs = false ∨ p ∈ c.copy s .sent
  files : ∀ p, Issues n a pt p →
    pt.rest.rereads .outbox (issuedAt n a pt).store = true →
      p ∈ c.acceptedFiles s → p ∈ pt.store .sent ∨ delivered a.legs = true
  dropped : ∀ op ∈ c.dropped (loadedFrom n a pt s),
    Holds (c.copy (loadedFrom n a pt s) .state) op ∨
      pt.rest.overwrites .state (issuedAt n a pt).store = false ∧
        Holds ((issuedAt n a pt).store .state) op

end Meeting

section Issue

variable {n : Node} {a : IssueArgs} {pt : Script.Point (Content key) Event Failure Unit}
  {op : Operation}

theorem holds_issuedAt (h : Holds (pt.store .state) op) :
    Holds ((issuedAt n a pt).store .state) op := by
  rcases issue_leaves n a pt.store with ⟨-, hstate⟩ | ⟨op', -, -, hstate | hstate⟩
  · exact hstate ▸ h
  · exact hstate ▸ h
  · exact hstate ▸ h.record op'

theorem holds_of_applies (h : Applies n a pt op) : Holds ((issuedAt n a pt).store .state) op := by
  obtain ⟨hdraw, hno, hp⟩ := h
  exact issue_state_of_passes hdraw hno hp ▸ holds_record_self _ op

end Issue

/-! ## Meeting a sync -/

omit [DecidableEq κ] in
theorem Python.saveApplied_blind (applied : List Operation) (state : StateVector key) :
    (Python.saveApplied applied state : Command key Unit).Blind := by
  unfold Python.saveApplied
  split_ifs <;> trivial

theorem Python.lxmfLeg_blind (state : StateVector key) (lxmf : Option Lxmf) :
    (Python.lxmfLeg state lxmf : Command key Unit).Blind := by
  rcases lxmf with _ | _ | ⟨deliveries, ending⟩
  · trivial
  · trivial
  · unfold Python.lxmfLeg
    dsimp only
    rw [Script.sayAll_bind]
    refine Script.Blind.tellThen _ ?_
    cases ending with
    | complete => exact Python.saveApplied_blind _ _
    | runtimeError => trivial
    | otherError => trivial

theorem JavaScript.lxmfLeg_blind (state : StateVector key) (lxmf : Option Lxmf) :
    (JavaScript.lxmfLeg state lxmf : Command key Unit).Blind := by
  rcases lxmf with _ | _ | ⟨deliveries, ending⟩
  · trivial
  · trivial
  · rw [JavaScript.lxmfLeg, Script.sayAll_bind]
    exact Script.Blind.tellThen _ trivial

/-- Once a sync has loaded the state it loads nothing more. -/
theorem sync_blind (key : Tuple → κ) (port : Port) (a : SyncArgs) :
    ∃ next : StateVector key → Command key Unit,
      port.sync a = Script.load Record.state next ∧ ∀ state, (next state).Blind := by
  cases port with
  | python =>
    refine ⟨_, Python.sync_eq a, fun state => Script.Blind.tellThen _ ?_⟩
    split_ifs
    · trivial
    · exact (Python.saveApplied_blind _ _).bind fun _ => Python.lxmfLeg_blind _ _
  | javascript =>
    refine ⟨_, JavaScript.sync_eq a, fun state => Script.Blind.tellThen _ ?_⟩
    split_ifs
    · trivial
    · exact JavaScript.lxmfLeg_blind _ _

theorem sync_copy (port : Port) (a : SyncArgs) (s : Store key) :
    ((port.sync a : Command key Unit).run s).store = (Networked.sync port a).copy s :=
  (sync_run port a s).2

section Sync

variable {n : Node} {a : IssueArgs} {pt : Script.Point (Content key) Event Failure Unit}
  {port : Port} {args : SyncArgs} {s : Store key}

/-- A sync never touches the boxes, so only the state can be stale. -/
theorem sync_payload (hpt : pt ∈ (port.sync args : Command key Unit).points s) (p : Bytes)
    (hp : .issued p ∈ (issuedAt n a pt).told) : InBoxes p (endedAfter n a pt).store := by
  have hspared {r : Record} (hr : r ≠ .state) :
      (endedAfter n a pt).store r = (issuedAt n a pt).store r :=
    ((sync_spares hr port args).rest s pt hpt).run_store _
  exact (Moves.of_eq (hspared (by decide)) (hspared (by decide))).inBoxes
    ((moves_issue n a pt.store).2 p hp)

/-- A sync leaves the boxes alone: only its copy of the state can be stale. -/
theorem upToDate_sync_iff (hpt : pt ∈ (port.sync args : Command key Unit).points s) :
    UpToDate n a pt (.sync port args) s ↔
      (∀ op, Applies n a pt op → pt.rest.overwrites .state (issuedAt n a pt).store = true →
        Holds ((Networked.sync port args).copy s .state) op) ∧
      ∀ op ∈ port.dropped args (loadedFrom n a pt s .state),
        Holds ((Networked.sync port args).copy (loadedFrom n a pt s) .state) op ∨
          pt.rest.overwrites .state (issuedAt n a pt).store = false ∧
            Holds ((issuedAt n a pt).store .state) op := by
  have hspared {r : Record} (hr : r ≠ .state) :
      ¬ pt.rest.overwrites r (issuedAt n a pt).store = true := by
    rw [((sync_spares hr port args).rest s pt hpt).not_overwrites]
    exact Bool.false_ne_true
  constructor
  · exact fun h => ⟨h.state, h.dropped⟩
  · rintro ⟨hstate, hdropped⟩
    refine ⟨hstate, fun p _ ho => ?_, fun p _ hs => ?_, fun p _ _ hf => ?_, hdropped⟩
    · exact absurd ho (hspared (by decide))
    · exact absurd hs (hspared (by decide))
    · exact nomatch hf

theorem noLost_sync (hpt : pt ∈ (port.sync args : Command key Unit).points s) :
    NoLost n a pt ↔
      (∀ op, Applies n a pt op → Holds ((endedAfter n a pt).store .state) op) ∧
      ∀ leg op, .applied leg op ∈ pt.told ++ (endedAfter n a pt).told →
        Holds ((endedAfter n a pt).store .state) op :=
  ⟨fun h => ⟨h.issue, h.applied⟩, fun h => ⟨h.1, h.2, sync_payload hpt⟩⟩

/-- A state that has what a sync saved has all that it applied but what it dropped. -/
theorem applied_held_iff (port : Port) (args : SyncArgs) {state : StateVector key}
    (hsaved : ∀ op, Holds ((Networked.sync port args).copy s .state) op → Holds state op) :
    (∀ leg op, .applied leg op ∈ ((port.sync args : Command key Unit).run s).told →
        Holds state op) ↔ ∀ op ∈ port.dropped args (s .state), Holds state op := by
  constructor
  · intro h op hop
    obtain ⟨leg, hleg⟩ := applied_iff.mpr (.inr hop)
    exact h leg op hleg
  · intro h leg op hleg
    rcases applied_iff.mp ⟨leg, hleg⟩ with hsynced | hdropped
    · refine hsaved op ?_
      rw [Networked.copy, Function.update_self]
      exact holds_recordAll hsynced _
    · exact h op hdropped

/-- Before its load a sync starts from what the issue left. -/
theorem noLost_sync_start :
    NoLost n a ⟨port.sync args, s, [], []⟩ ↔
      UpToDate n a ⟨port.sync args, s, [], []⟩ (.sync port args) s := by
  have hpt := Script.start_mem_points (port.sync args : Command key Unit) s
  rw [noLost_sync hpt, upToDate_sync_iff hpt]
  obtain ⟨next, hnext, -⟩ := sync_blind key port args
  have hover : (port.sync args : Command key Unit).overwrites .state
      (issuedAt n a ⟨port.sync args, s, [], []⟩).store = false := by
    rw [hnext, Script.overwrites, if_pos rfl]
  have hloaded : loadedFrom n a ⟨port.sync args, s, [], []⟩ s =
      (issuedAt n a ⟨port.sync args, s, [], []⟩).store := by
    rw [loadedFrom, if_pos]
    rw [hnext, Script.rereads, if_pos rfl]
  have hended : (endedAfter n a ⟨port.sync args, s, [], []⟩).store =
      (Networked.sync port args).copy (issuedAt n a ⟨port.sync args, s, [], []⟩).store :=
    sync_copy port args _
  have hgrown (op) (h : Holds ((issuedAt n a ⟨port.sync args, s, [], []⟩).store .state) op) :
      Holds ((Networked.sync port args).copy
        (issuedAt n a ⟨port.sync args, s, [], []⟩).store .state) op := by
    rw [Networked.copy, Function.update_self]
    exact h.recordAll _
  have happlied := applied_held_iff port args
    (s := (issuedAt n a ⟨port.sync args, s, [], []⟩).store) fun op h => h
  rw [hloaded, hover, hended]
  constructor
  · rintro ⟨-, h⟩
    exact ⟨fun op _ ho => absurd ho Bool.false_ne_true, fun op hop => .inl (happlied.mp h op hop)⟩
  · rintro ⟨-, h⟩
    exact ⟨fun op hop => hgrown op (holds_of_applies hop),
      happlied.mpr fun op hop => (h op hop).elim id fun h => hgrown op h.2⟩

theorem noLost_sync_iff (hpt : pt ∈ (port.sync args : Command key Unit).points s) :
    NoLost n a pt ↔ UpToDate n a pt (.sync port args) s := by
  obtain ⟨next, hnext, hblind⟩ := sync_blind key port args
  have hstart := hpt
  rw [hnext] at hstart
  rcases List.mem_cons.mp hstart with rfl | hlater
  · rw [← hnext]
    exact noLost_sync_start
  -- past its load: the rest loads nothing, and tells what it would have told alone
  have hblind := (hblind (s .state)).rest s pt hlater
  obtain ⟨hcopy, htold⟩ := Script.run_of_mem_points hpt
  have hended : pt.told ++ (endedAfter n a pt).told =
      ((port.sync args : Command key Unit).run s).told := by
    rw [endedAfter, hblind.run_told _ pt.store, ← htold]
  have hloaded : loadedFrom n a pt s = s := by
    rw [loadedFrom, hblind.not_rereads, if_neg Bool.false_ne_true]
  rw [sync_copy] at hcopy
  rw [noLost_sync hpt, upToDate_sync_iff hpt, hended, hloaded]
  cases ho : pt.rest.overwrites .state (issuedAt n a pt).store with
  | true =>
    have hstale : (endedAfter n a pt).store .state = (Networked.sync port args).copy s .state :=
      (hblind.run_store_of_overwrites _ pt.store ho).trans (congrFun hcopy.symm _)
    rw [hstale, applied_held_iff port args fun op h => h]
    simp
  | false =>
    have hkept : (endedAfter n a pt).store .state = (issuedAt n a pt).store .state :=
      hblind.run_store_of_not_overwrites _ ho
    have hdone : (Networked.sync port args).copy s .state = pt.store .state := by
      rw [hcopy]
      exact hblind.run_store_of_not_overwrites _ (hblind.overwrites_congr _ _ _ ▸ ho)
    have hgrown (op) (h : Holds ((Networked.sync port args).copy s .state) op) :
        Holds ((issuedAt n a pt).store .state) op :=
      holds_issuedAt (hdone ▸ h)
    rw [hkept, applied_held_iff port args hgrown]
    constructor
    · rintro ⟨-, h⟩
      exact ⟨fun op _ ho => absurd ho Bool.false_ne_true, fun op hop => .inr ⟨rfl, h op hop⟩⟩
    · rintro ⟨-, h⟩
      exact ⟨fun op => holds_of_applies, fun op hop => (h op hop).elim (hgrown op) And.right⟩

end Sync

end Dacar.Cli

import Dacar.Cli.Boxes

/-!
# What issuing does to the store

`grant` and `revoke` draw an HLC, apply the signed operation, queue its payload and send
it.  Until the first leg runs they write every record at most once.
-/

namespace Dacar.Cli

variable {κ : Type} [DecidableEq κ] {key : Tuple → κ}

/-- The local apply lets the command go on. -/
def IssueArgs.Passes (a : IssueArgs) (state : StateVector key) (op : Operation) : Prop :=
  a.noApply = true ∨ state.Admits op a.applyMs (some defaultMaxFutureMs)

instance (a : IssueArgs) (state : StateVector key) (op : Operation) :
    Decidable (a.Passes state op) :=
  inferInstanceAs (Decidable (_ ∨ _))

/-- The ledger with the plaintext in it, if there is one. -/
def ledgerAfter (key : Tuple → κ) (n : Node) (a : IssueArgs) (op : Operation)
    (ledger : OrderedMap κ LedgerRow) : OrderedMap κ LedgerRow :=
  match a.plaintext with
  | none => ledger
  | some t => ledger.upsert (key op.tuple) (n.port.ledgerRow t (physical op.hlc))

/-- The store when the payload is queued and nothing is sent yet. -/
def queued (n : Node) (a : IssueArgs) (op : Operation) (s : Store key) : Store key
  | .clock => (Clock.now (s .clock) a.phys).2
  | .state => if a.noApply then s .state else (s .state).record op
  | .ledger => ledgerAfter key n a op (s .ledger)
  | .outbox => s .outbox ++ [n.payload op]
  | .sent => s .sent

section Run

variable {n : Node} {a : IssueArgs} {op : Operation} {s : Store key}

theorem issue_of_none (h : n.draw a (s .clock) = none) :
    (issue n a : Command key Unit).run s = ⟨s, [], [], .error .hlcOverflow⟩ := by
  rw [issue, loadClock, Script.get_bind, Script.run_load, h]
  rfl

theorem issue_of_draw (h : n.draw a (s .clock) = some op) :
    (issue n a : Command key Unit).run s =
      (Script.save Record.clock (Clock.now (s .clock) a.phys).2
        (applyLocally a op >>= fun _ => queueAndSend n a op) : Command key Unit).run s := by
  rw [issue, loadClock, Script.get_bind, Script.run_load, h]
  rfl

theorem applyLocally_run :
    (applyLocally a op : Command key Unit).run s =
      if a.noApply then ⟨s, [], [], .ok ()⟩
      else if (s .state).Admits op a.applyMs (some defaultMaxFutureMs) then
        ⟨Function.update s .state ((s .state).record op), [.state], [], .ok ()⟩
      else ⟨s, [], [], .error .applyRejected⟩ := by
  unfold applyLocally
  split_ifs with hno hadmits
  · rfl
  · rw [loadState, Script.get_bind, Script.run_load, StateVector.apply_eq, if_pos hadmits]
    rfl
  · rw [loadState, Script.get_bind, Script.run_load, StateVector.apply_eq, if_neg hadmits]
    rfl

/-- The clock was saved before. -/
theorem issue_of_not_passes (h : n.draw a (s .clock) = some op) (hp : ¬ a.Passes (s .state) op) :
    (issue n a : Command key Unit).run s =
      ⟨Function.update s .clock (Clock.now (s .clock) a.phys).2, [.clock], [],
        .error .applyRejected⟩ := by
  have hno : ¬ a.noApply = true := fun hno => hp (.inl hno)
  have hadmits : ¬ (s .state).Admits op a.applyMs (some defaultMaxFutureMs) :=
    fun hadmits => hp (.inr hadmits)
  have hrun : (applyLocally a op : Command key Unit).run
      (Function.update s .clock (Clock.now (s .clock) a.phys).2) =
      ⟨Function.update s .clock (Clock.now (s .clock) a.phys).2, [], [],
        .error .applyRejected⟩ := by
    rw [applyLocally_run, if_neg hno, if_neg]
    exact hadmits
  rw [issue_of_draw h, Script.run_save,
    Script.run_bind_error _ (congrArg Script.Outcome.result hrun), hrun]

theorem queueAndSend_run (n : Node) (a : IssueArgs) (op : Operation) (s : Store key) :
    (queueAndSend n a op : Command key Unit).run s =
      let ledger := ledgerAfter key n a op (s .ledger)
      let s' := Function.update (Function.update s .ledger ledger) .outbox
        (s .outbox ++ [n.payload op])
      let o := (runLegs (n.payload op) a.legs : Command key Unit).run s'
      { o with
        saved := (if a.plaintext.isSome then [.ledger] else []) ++ .outbox :: o.saved
        told := [.issued (n.payload op)] } := by
  unfold queueAndSend recordPlaintext ledgerAfter
  cases a.plaintext with
  | none =>
    simp [enqueue, loadOutbox, saveOutbox, runLegs_told]
  | some t =>
    simp [enqueue, loadOutbox, saveOutbox, loadLedger, saveLedger, runLegs_told]

/-- A local apply that lets the command go on, after the clock was saved. -/
theorem applyLocally_of_passes (n : Node) (hp : a.Passes (s .state) op) (clock : Clock) :
    ∃ saved, (applyLocally a op : Command key Unit).run (Function.update s .clock clock) =
      ⟨Function.update (Function.update s .clock clock) .state (queued n a op s .state), saved,
        [], .ok ()⟩ := by
  rw [applyLocally_run, queued]
  by_cases hno : a.noApply = true
  · rw [if_pos hno, if_pos hno]
    have hself : Function.update (Function.update s .clock clock) .state (s .state) =
        Function.update s .clock clock := Function.update_eq_self (.state : Record) _
    exact ⟨[], by rw [hself]⟩
  · rw [if_neg hno, if_neg hno]
    exact ⟨[.state], if_pos (hp.resolve_left hno)⟩

/-- The command goes on to the legs. -/
theorem issue_of_passes (h : n.draw a (s .clock) = some op) (hp : a.Passes (s .state) op) :
    ((issue n a : Command key Unit).run s).told = [.issued (n.payload op)] ∧
      ((issue n a : Command key Unit).run s).result =
        ((runLegs (n.payload op) a.legs : Command key Unit).run (queued n a op s)).result ∧
      ((issue n a : Command key Unit).run s).store =
        ((runLegs (n.payload op) a.legs : Command key Unit).run (queued n a op s)).store := by
  obtain ⟨saved, hlocal⟩ := applyLocally_of_passes n hp (Clock.now (s .clock) a.phys).2
  have hqueued : Function.update (Function.update (Function.update (Function.update s .clock
      (Clock.now (s .clock) a.phys).2) .state (queued n a op s .state)) .ledger
      (queued n a op s .ledger)) .outbox (queued n a op s .outbox) = queued n a op s := by
    funext r
    cases r <;> rfl
  rw [issue_of_draw h, Script.run_save,
    Script.run_bind_ok _ (congrArg Script.Outcome.result hlocal), hlocal, queueAndSend_run]
  simp only [Script.Outcome.andThen]
  refine ⟨rfl, ?_, ?_⟩
  · rw [← hqueued]
    rfl
  · rw [← hqueued]
    rfl

/-- The legs write the two boxes only. -/
theorem issue_store_of_passes (h : n.draw a (s .clock) = some op) (hp : a.Passes (s .state) op)
    {r : Record} (ho : r ≠ .outbox) (hs : r ≠ .sent) :
    ((issue n a : Command key Unit).run s).store r = queued n a op s r := by
  rw [(issue_of_passes h hp).2.2]
  exact (runLegs_spares ho hs _ _).run_store _

end Run

/-! ## Running to the end -/

/-- Nothing is lost from the boxes, and an issued payload is in them. -/
theorem moves_issue (n : Node) (a : IssueArgs) (s : Store key) :
    Moves s ((issue n a : Command key Unit).run s).store ∧
      ∀ p, .issued p ∈ ((issue n a : Command key Unit).run s).told →
        InBoxes p ((issue n a : Command key Unit).run s).store := by
  cases h : n.draw a (s .clock) with
  | none =>
    rw [issue_of_none h]
    exact ⟨.refl s, fun p hp => nomatch hp⟩
  | some op =>
    by_cases hp : a.Passes (s .state) op
    · obtain ⟨htold, -, hstore⟩ := issue_of_passes h hp
      have hlegs := moves_runLegs (n.payload op) a.legs (queued n a op s)
      have hqueued : Moves s (queued n a op s) :=
        ⟨fun p hp => .inl (List.mem_append_left _ hp), fun p hp => hp⟩
      rw [htold, hstore]
      refine ⟨hqueued.trans hlegs, fun p hp => ?_⟩
      obtain rfl : p = n.payload op := by simpa using hp
      exact hlegs.outbox _ (List.mem_append_right _ (List.mem_singleton_self _))
    · rw [issue_of_not_passes h hp]
      exact ⟨.of_eq rfl rfl, fun p hp => nomatch hp⟩

theorem issued_iff {n : Node} {a : IssueArgs} {s : Store key} {p : Bytes} :
    .issued p ∈ ((issue n a : Command key Unit).run s).told ↔
      ∃ op ∈ n.draw a (s .clock), a.Passes (s .state) op ∧ p = n.payload op := by
  cases h : n.draw a (s .clock) with
  | none =>
    rw [issue_of_none h]
    simp
  | some op =>
    by_cases hp : a.Passes (s .state) op
    · rw [(issue_of_passes h hp).1]
      simp [hp]
    · rw [issue_of_not_passes h hp]
      simp [hp]

theorem issued_boxes {n : Node} {a : IssueArgs} {s : Store key} {p : Bytes}
    (h : .issued p ∈ ((issue n a : Command key Unit).run s).told) :
    (p ∈ ((issue n a : Command key Unit).run s).store .outbox ↔ delivered a.legs = false) ∧
      (p ∈ ((issue n a : Command key Unit).run s).store .sent ↔
        p ∈ s .sent ∨ delivered a.legs = true) := by
  obtain ⟨op, hop, hp, rfl⟩ := issued_iff.mp h
  obtain ⟨ho, hs⟩ := runLegs_boxes (n.payload op) a.legs (queued n a op s)
  rw [(issue_of_passes hop hp).2.2, ho, hs]
  exact ⟨and_iff_right (List.mem_append_right _ (List.mem_singleton_self _)), Iff.rfl⟩

/-- What is in the clock and in the state afterwards: an operation that is drawn moves the clock,
and is recorded or not. -/
theorem issue_leaves (n : Node) (a : IssueArgs) (s : Store key) :
    (((issue n a : Command key Unit).run s).store .clock = s .clock ∧
        ((issue n a : Command key Unit).run s).store .state = s .state) ∨
      ∃ op ∈ n.draw a (s .clock),
        ((issue n a : Command key Unit).run s).store .clock = (Clock.now (s .clock) a.phys).2 ∧
        (((issue n a : Command key Unit).run s).store .state = s .state ∨
          ((issue n a : Command key Unit).run s).store .state =
            StateVector.record (s .state) op) := by
  cases h : n.draw a (s .clock) with
  | none =>
    rw [issue_of_none h]
    exact .inl ⟨rfl, rfl⟩
  | some op =>
    refine .inr ⟨op, rfl, ?_⟩
    by_cases hp : a.Passes (s .state) op
    · rw [issue_store_of_passes h hp (by decide) (by decide),
        issue_store_of_passes h hp (by decide) (by decide), queued, queued]
      refine ⟨rfl, ?_⟩
      split_ifs
      · exact .inl rfl
      · exact .inr rfl
    · rw [issue_of_not_passes h hp]
      exact ⟨rfl, .inl rfl⟩

theorem issue_state_of_passes {n : Node} {a : IssueArgs} {s : Store key} {op : Operation}
    (h : n.draw a (s .clock) = some op) (hno : a.noApply = false) (hp : a.Passes (s .state) op) :
    ((issue n a : Command key Unit).run s).store .state = StateVector.record (s .state) op :=
  (issue_store_of_passes h hp (by decide) (by decide)).trans (if_neg (by simp [hno]))

/-! ## Stopping on the way -/

section Points

variable {n : Node} {a : IssueArgs} {op : Operation} {s : Store key}

theorem queueAndSend_spares_state (n : Node) (a : IssueArgs) (op : Operation) :
    (queueAndSend n a op : Command key Unit).Spares .state := by
  have hlegs : (runLegs (n.payload op) a.legs : Command key Unit).Spares .state :=
    runLegs_spares (by decide) (by decide) _ _
  unfold queueAndSend recordPlaintext
  cases a.plaintext with
  | none => exact fun outbox => ⟨by decide, hlegs⟩
  | some t => exact fun ledger => ⟨by decide, fun outbox => ⟨by decide, hlegs⟩⟩

/-- From the plaintext ledger on a payload is lost only where it is the one that is sent. -/
theorem queueAndSend_keeps_iff {p : Bytes} (hp : InBoxes p s) :
    (∀ pt ∈ (queueAndSend n a op : Command key Unit).points s, InBoxes p pt.store) ↔
      (p = n.payload op → delivered a.legs = true → p ∈ s .sent) := by
  have hlegs (s' : Store key) (ho : s' .outbox = s .outbox ++ [n.payload op])
      (hs : s' .sent = s .sent) :
      (∀ pt ∈ (runLegs (n.payload op) a.legs : Command key Unit).points s', InBoxes p pt.store) ↔
        (p = n.payload op → delivered a.legs = true → p ∈ s .sent) := by
    rw [runLegs_keeps_iff, hs]
    exact hp.imp (fun h => ho ▸ List.mem_append_left _ h) fun h => hs ▸ h
  unfold queueAndSend recordPlaintext
  cases a.plaintext with
  | none =>
    simp only [enqueue, loadOutbox, saveOutbox, Script.pure_bind, Script.say_bind,
      Script.get_bind, Script.load_bind, Script.put_bind,
      Script.forall_points_tell, Script.forall_points_load, Script.forall_points_save,
      Script.Point.after, hp, true_and]
    exact hlegs _ rfl rfl
  | some t =>
    have hledger (ledger) : InBoxes p (Function.update s Record.ledger ledger) := hp
    simp only [enqueue, loadOutbox, saveOutbox, loadLedger, saveLedger, Script.say_bind,
      Script.get_bind, Script.load_bind, Script.put_bind,
      Script.forall_points_tell, Script.forall_points_load, Script.forall_points_save,
      Script.Point.after, hp, hledger, true_and]
    exact hlegs _ rfl rfl

/-- A local apply stops before or after its one save. -/
theorem forall_applyLocally_points (P : Store key → List Record → Prop) :
    (∀ pt ∈ (applyLocally a op : Command key Unit).points s, P pt.store pt.saved) ↔
      P s [] ∧ (¬ a.noApply = true →
        (s .state).Admits op a.applyMs (some defaultMaxFutureMs) →
          P (Function.update s .state ((s .state).record op)) [.state]) := by
  unfold applyLocally
  by_cases hno : a.noApply = true
  · rw [if_pos hno]
    simp [pure, hno]
  · rw [if_neg hno, loadState, Script.get_bind, Script.forall_points_load, StateVector.apply_eq]
    by_cases hadmits : (s .state).Admits op a.applyMs (some defaultMaxFutureMs)
    · simp [saveState, Script.put, Script.Point.after, hno, hadmits]
    · simp [Script.raise, hadmits]

/-- What holds at every point of a command that draws an operation: it holds before the local
apply, and, where that passes, from the plaintext ledger on. -/
theorem forall_issue_points {P : Store key → List Record → Prop}
    (h : n.draw a (s .clock) = some op) :
    (∀ pt ∈ (issue n a : Command key Unit).points s, P pt.store pt.saved) ↔
      P s [] ∧ P (Function.update s .clock (Clock.now (s .clock) a.phys).2) [.clock] ∧
        (a.Passes (s .state) op →
          ∀ pt ∈ (queueAndSend n a op : Command key Unit).points
              (Function.update (Function.update s .clock (Clock.now (s .clock) a.phys).2) .state
                (queued n a op s .state)),
            P pt.store ((if a.noApply then [.clock] else [.clock, .state]) ++ pt.saved)) := by
  simp only [issue, loadClock, saveClock, Script.get_bind, Script.forall_points_load, h,
    Script.put_bind, Script.forall_points_save, Script.Point.after, Script.forall_points_bind]
  generalize hs₀ : Function.update s .clock (Clock.now (s .clock) a.phys).2 = s₀
  have hstate : s₀ .state = s .state := hs₀ ▸ rfl
  rw [forall_applyLocally_points fun st saved => P st ([Record.clock] ++ saved), applyLocally_run,
    hstate, queued]
  by_cases hno : a.noApply = true
  · have hself : Function.update s₀ .state (s .state) = s₀ := by
      rw [← hstate, Function.update_eq_self]
    have hpasses : a.Passes (s .state) op := .inl hno
    simp only [hno, if_true, hself, hpasses]
    constructor
    · rintro ⟨hs, -, ⟨hclock, -⟩, hlater⟩
      exact ⟨hs, hclock, fun _ => hlater () trivial⟩
    · rintro ⟨hs, hclock, hlater⟩
      exact ⟨hs, hs, ⟨hclock, fun h => absurd trivial h⟩, fun _ _ => hlater trivial⟩
  · rw [if_neg hno, if_neg hno, if_neg hno]
    by_cases hadmits : (s .state).Admits op a.applyMs (some defaultMaxFutureMs)
    · have hpasses : a.Passes (s .state) op := .inr hadmits
      rw [if_pos hadmits]
      constructor
      · rintro ⟨hs, -, ⟨hclock, -⟩, hlater⟩
        exact ⟨hs, hclock, fun _ => hlater () rfl⟩
      · rintro ⟨hs, hclock, hlater⟩
        exact ⟨hs, hs, ⟨hclock, fun _ _ => hlater hpasses _ (Script.start_mem_points _ _)⟩,
          fun _ _ => hlater hpasses⟩
    · have hpasses : ¬ a.Passes (s .state) op := fun hp => hp.elim hno hadmits
      rw [if_neg hadmits]
      constructor
      · rintro ⟨hs, -, ⟨hclock, -⟩, -⟩
        exact ⟨hs, hclock, fun h => absurd h hpasses⟩
      · rintro ⟨hs, hclock, -⟩
        exact ⟨hs, hs, ⟨hclock, fun _ h => absurd h hadmits⟩, fun _ h => by cases h⟩

end Points

end Dacar.Cli

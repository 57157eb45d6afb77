import Dacar.Cli.Runs

/-!
# Issued payloads in the outbox and the sent box

Which payloads `grant`, `revoke`, `publish` and `push` may lose: over a run of commands
that all come to their end, and when one of them stops on the way.
-/

namespace Dacar.Cli

variable {κ : Type} [DecidableEq κ] {key : Tuple → κ}

/-! ## Runs of commands -/

/-- After the command every issued payload is in the boxes, and what left the outbox is in the
sent box. -/
structure Kept (m : Moment key) (c : Call) : Prop where
  issued : ∀ p ∈ (m.call c).issued, InBoxes p (m.call c).store
  left : ∀ p ∈ m.store .outbox, p ∉ (m.call c).store .outbox → p ∈ (m.call c).store .sent

/-- No payload that is queued here, and not in the sent box, is accepted from a file. -/
def Foreign (m : Moment key) : Call → Prop
  | .publish a => a.files ≠ [] → ∀ p ∈ a.accepted m.store, p ∈ m.store .outbox →
      p ∈ m.store .sent
  | .issue _ _ | .apply _ _ | .sync _ _ => True

theorem moves_iff_foreign (m : Moment key) (c : Call) :
    Moves m.store (m.call c).store ↔ Foreign m c := by
  unfold Moment.call Call.command
  cases c with
  | issue n a => exact iff_of_true (moves_issue n a m.store).1 trivial
  | publish a =>
    dsimp only
    rw [(publish_run a m.store).2, moves_afterPublish_iff]
    simp [PublishArgs.recordToSent, Foreign]
  | apply single batch =>
    obtain ⟨ops, -, hstore⟩ := apply_run single batch m.store
    exact iff_of_true (hstore ▸ .of_eq rfl rfl) trivial
  | sync port a =>
    exact iff_of_true ((sync_run port a m.store).2 ▸ .of_eq rfl rfl) trivial

theorem sent_grows (m : Moment key) (c : Call) :
    ∀ p ∈ m.store .sent, p ∈ (m.call c).store .sent := by
  by_cases hforeign : Foreign m c
  · exact ((moves_iff_foreign m c).mpr hforeign).sent
  · cases c with
    | publish a =>
      intro p hp
      change p ∈ ((publish a : Command key Unit).run m.store).store .sent
      rw [(publish_run a m.store).2]
      exact mem_sent_afterPublish.mpr (.inl hp)
    | issue n a | apply single batch | sync port a => exact absurd trivial hforeign

/-- A payload is in the boxes once it is issued. -/
theorem inBoxes_of_issued (m : Moment key) (c : Call) :
    ∀ p, .issued p ∈ (c.command.run m.store).told → InBoxes p (m.call c).store := by
  cases c with
  | issue n a => exact (moves_issue n a m.store).2
  | publish a =>
    intro p hp
    change .issued p ∈ ((publish a : Command key Unit).run m.store).told at hp
    rw [(publish_run a m.store).1] at hp
    exact nomatch hp
  | apply single batch =>
    obtain ⟨ops, htold, -⟩ := apply_run single batch m.store
    intro p hp
    change .issued p ∈ ((apply single batch : Command key Unit).run m.store).told at hp
    simp [htold] at hp
  | sync port a =>
    intro p hp
    change .issued p ∈ ((port.sync a : Command key Unit).run m.store).told at hp
    simp [(sync_run port a m.store).1] at hp

/-- One command, at a moment where nothing is lost. -/
theorem kept_iff (m : Moment key) (c : Call) (hm : ∀ p ∈ m.issued, InBoxes p m.store) :
    Kept m c ↔ Foreign m c := by
  rw [← moves_iff_foreign]
  constructor
  · intro h
    refine ⟨fun p hp => ?_, sent_grows m c⟩
    by_cases hstays : p ∈ (m.call c).store .outbox
    · exact .inl hstays
    · exact .inr (h.left p hp hstays)
  · intro h
    refine ⟨fun p hp => ?_, fun p hp hleft => (h.outbox p hp).resolve_left hleft⟩
    rcases List.mem_append.mp ((m.call c).mem_issued.mp hp) with hp | hp
    · exact h.inBoxes (hm p (m.mem_issued.mpr hp))
    · exact inBoxes_of_issued m c p hp

theorem history_kept_iff (cs : List Call) (m : Moment key)
    (hm : ∀ p ∈ m.issued, InBoxes p m.store) :
    (∀ t ∈ history cs m, Kept t.1 t.2) ↔ ∀ t ∈ history cs m, Foreign t.1 t.2 := by
  induction cs generalizing m with
  | nil => simp [history]
  | cons c cs ih =>
    simp only [history, List.forall_mem_cons]
    rw [kept_iff m c hm]
    refine and_congr_right fun hforeign => ih (m.call c) ?_
    exact ((kept_iff m c hm).mpr hforeign).issued

/-- From a store where nothing is issued yet: a run of commands keeps every issued payload,
and drains the outbox into the sent box only, exactly when none of them is given a queued
payload as a file. -/
theorem issued_kept_iff (cs : List Call) (s : Store key) :
    (∀ t ∈ history cs ⟨s, []⟩, Kept t.1 t.2) ↔ ∀ t ∈ history cs ⟨s, []⟩, Foreign t.1 t.2 :=
  history_kept_iff cs ⟨s, []⟩ fun _ hp => nomatch hp

section Scene

def granting : IssueArgs :=
  .plain ⟨.fill 16 1, [], true, .fill 16 2, .fill 16 3, Nat.zero_le _⟩ .grant 1000

def grantPayload : Bytes := ((clerk.draw granting {}).map clerk.payload).getD []

/-- `publish <file>`, accepted. -/
def publishing (file : Bytes) : PublishArgs := ⟨false, false, false, [file], some [true]⟩

/-- The grant is queued, then published from the file it was also written to. -/
theorem queued_file_leaves :
    ¬ ∀ t ∈ history [.issue clerk granting, .publish (publishing grantPayload)]
      (⟨.init 180, []⟩ : Moment Tuple.key), Kept t.1 t.2 := by
  intro h
  have hkept := h _ (List.mem_cons_of_mem _ List.mem_cons_self)
  have hsent := hkept.left grantPayload (by decide +kernel) (by decide +kernel)
  exact absurd hsent (by decide +kernel)

end Scene

/-! ## Stopping on the way -/

/-- The payload of the operation that a command issues. -/
def Call.payload : Call → Store key → Option Bytes
  | .issue n a, s => (n.draw a (s .clock)).map n.payload
  | .publish _, _ | .apply _ _, _ | .sync _ _, _ => none

/-- What is left when a command on `s` stops after these saves: every payload is still in the
boxes, and so is the one of an operation whose effect is in the state record. -/
structure Survives (c : Call) (s store : Store key) (saved : List Record) : Prop where
  boxes : ∀ p, InBoxes p s → InBoxes p store
  effect : ∀ p ∈ c.payload s, .state ∈ saved → InBoxes p store

/-- Nothing is saved into the state before its payload is queued, and nothing is drained from
the outbox that is not in the sent box. -/
def Ordered : Call → Store key → Prop
  | .issue n a, s => ∀ op ∈ n.draw a (s .clock), a.Passes (s .state) op →
      (a.noApply = true ∨ InBoxes (n.payload op) s) ∧
        (InBoxes (n.payload op) s → delivered a.legs = true → n.payload op ∈ s .sent)
  | .publish a, s => ∀ p ∈ a.accepted s, p ∈ s .outbox → p ∈ s .sent
  | .apply _ _, _ | .sync _ _, _ => True

section Crash

variable {n : Node} {a : IssueArgs} {op : Operation} {s : Store key}

omit [DecidableEq κ] in
theorem survives_of_same {c : Call} {store : Store key} {saved : List Record}
    (ho : store .outbox = s .outbox) (hs : store .sent = s .sent) (hsaved : .state ∉ saved) :
    Survives c s store saved :=
  ⟨fun _ => (Moves.of_eq ho hs).inBoxes, fun _ _ h => absurd h hsaved⟩

theorem issue_survives_iff :
    (∀ pt ∈ (issue n a : Command key Unit).points s,
        Survives (.issue n a) s pt.store pt.saved) ↔ Ordered (.issue n a) s := by
  cases h : n.draw a (s .clock) with
  | none =>
    have hsame (saved : List Record) (hsaved : .state ∉ saved) :
        Survives (.issue n a) s s saved := survives_of_same rfl rfl hsaved
    refine iff_of_true ?_ (fun op hop => by simp [h] at hop)
    simp [issue, loadClock, h, Script.raise, hsame]
  | some op =>
    have hpayload : n.payload op ∈ Call.payload (.issue n a) s := by simp [Call.payload, h]
    have hordered : Ordered (.issue n a) s ↔ (a.Passes (s .state) op →
        (a.noApply = true ∨ InBoxes (n.payload op) s) ∧
          (InBoxes (n.payload op) s → delivered a.legs = true → n.payload op ∈ s .sent)) := by
      simp [Ordered, h]
    have hstart : Survives (.issue n a) s s [] := survives_of_same rfl rfl (by decide)
    have hclock : Survives (.issue n a) s
        (Function.update s .clock (Clock.now (s .clock) a.phys).2) [.clock] :=
      survives_of_same rfl rfl (by decide)
    rw [forall_issue_points h, hordered, and_iff_right hstart, and_iff_right hclock]
    generalize hs₁ : Function.update (Function.update s .clock (Clock.now (s .clock) a.phys).2)
      .state (queued n a op s .state) = s₁
    have hboxes (q) : InBoxes q s₁ ↔ InBoxes q s := by rw [← hs₁]; rfl
    have hsent : s₁ .sent = s .sent := by rw [← hs₁]; rfl
    have hkeeps (q) (hq : InBoxes q s) :
        (∀ pt ∈ (queueAndSend n a op : Command key Unit).points s₁, InBoxes q pt.store) ↔
          (q = n.payload op → delivered a.legs = true → q ∈ s .sent) := by
      rw [queueAndSend_keeps_iff ((hboxes q).mpr hq), hsent]
    refine imp_congr_right fun _ => ⟨fun hall => ⟨?_, fun hq => ?_⟩, ?_⟩
    · by_cases hno : a.noApply = true
      · exact .inl hno
      · have hstart := (hall _ (Script.start_mem_points _ _)).effect _ hpayload (by simp [hno])
        exact .inr ((hboxes _).mp hstart)
    · exact (hkeeps _ hq).mp (fun pt hpt => (hall pt hpt).boxes _ hq) rfl
    · rintro ⟨hcovered, hdelivered⟩ pt hpt
      have hold (q) (hq : InBoxes q s) : InBoxes q pt.store :=
        (hkeeps q hq).mpr (fun heq hd => heq ▸ hdelivered (heq ▸ hq) hd) pt hpt
      refine ⟨hold, fun p hp hstate => ?_⟩
      obtain rfl : p = n.payload op := by simpa [Call.payload, h] using hp.symm
      by_cases hno : a.noApply = true
      · have hspared := ((queueAndSend_spares_state n a op).points s₁ pt hpt).2
        simp [hno, hspared] at hstate
      · exact hold _ (hcovered.resolve_left hno)

omit [DecidableEq κ] in
theorem publish_survives_iff {a : PublishArgs} :
    (∀ pt ∈ (publish a : Command key Unit).points s,
        Survives (.publish a) s pt.store pt.saved) ↔ Ordered (.publish a) s := by
  constructor
  · intro h p hacc ho
    exact (publish_keeps_iff (.inl ho)).mp (fun pt hpt => (h pt hpt).boxes p (.inl ho)) hacc
  · intro h pt hpt
    refine ⟨fun p hp => (publish_keeps_iff hp).mpr (fun hacc => ?_) pt hpt, fun p hp => nomatch hp⟩
    exact hp.elim (h p hacc) id

/-- Stopping a command anywhere loses nothing, exactly when the order of its saves does not
matter. -/
theorem survives_iff (c : Call) (s : Store key) :
    (∀ pt ∈ (c.command : Command key Unit).points s, Survives c s pt.store pt.saved) ↔
      Ordered c s := by
  cases c with
  | issue n a => exact issue_survives_iff
  | publish a => exact publish_survives_iff
  | apply single batch =>
    refine iff_of_true (fun pt hpt => ⟨fun p hp => ?_, fun p hp => nomatch hp⟩) trivial
    have ho := ((apply_spares (r := .outbox) (by decide) single batch).points s pt hpt).1
    have hs := ((apply_spares (r := .sent) (by decide) single batch).points s pt hpt).1
    exact (Moves.of_eq ho hs).inBoxes hp
  | sync port a =>
    refine iff_of_true (fun pt hpt => ⟨fun p hp => ?_, fun p hp => nomatch hp⟩) trivial
    have ho := ((sync_spares (r := .outbox) (by decide) port a).points s pt hpt).1
    have hs := ((sync_spares (r := .sent) (by decide) port a).points s pt hpt).1
    exact (Moves.of_eq ho hs).inBoxes hp

/-- The grant stops between the save of the state and that of the outbox. -/
theorem saved_grant_unqueued :
    ¬ ∀ pt ∈ ((Call.issue clerk granting).command : Command Tuple.key Unit).points (Store.init 180),
      Survives (.issue clerk granting) (Store.init 180) pt.store pt.saved := by
  intro h
  have hsurvives := h _ (List.mem_of_getElem? (i := 4) rfl)
  have hboxes := hsurvives.effect grantPayload rfl (by decide)
  exact absurd hboxes (by decide +kernel)

end Crash

end Dacar.Cli

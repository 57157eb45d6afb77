import Dacar.BatchDelta
import Dacar.Cli.Outbox

/-!
# Pruning the store

`prune` drops the resolved tombstones of the state, and from the outbox and the sent box the
payloads that are older than the horizon.  Receivers refuse those, so a prune takes nothing
from anyone.
-/

namespace Dacar.Cli

variable {κ : Type} [DecidableEq κ] {key : Tuple → κ}

/-! ## The command -/

section Lists

variable (operation : Bytes → Option Operation)

/-- `_prune_payload_list`, with what is kept and how many are dropped so far.  What cannot be
decoded is kept. -/
def prunePayloadList (cutoff : ℤ) : List Bytes → List Bytes × ℕ → List Bytes × ℕ
  | [], r => r
  | p :: ps, (kept, dropped) =>
    match operation p with
    | none => prunePayloadList cutoff ps (kept ++ [p], dropped)
    | some op =>
      if (physical op.hlc : ℤ) < cutoff then prunePayloadList cutoff ps (kept, dropped + 1)
      else prunePayloadList cutoff ps (kept ++ [p], dropped)

/-- The list of a box, with how it is loaded and saved. -/
def prunePayloads (load : Command key (List Bytes)) (save : List Bytes → Command key Unit)
    (horizonMs nowMs : ℤ) : Command key Unit := do
  let payloads ← load
  if payloads.isEmpty then pure ()
  else
    let r := prunePayloadList operation (nowMs - horizonMs) payloads ([], 0)
    if r.2 ≠ 0 then save r.1 else pure ()

/-- `_prune_outbox` -/
def pruneOutbox (horizonMs nowMs : ℤ) : Command key Unit :=
  prunePayloads operation loadOutbox saveOutbox horizonMs nowMs

/-- `_prune_sent` -/
def pruneSent (horizonMs nowMs : ℤ) : Command key Unit :=
  prunePayloads operation loadSent saveSent horizonMs nowMs

/-- The wall clock at each of the three times that `prune` reads it. -/
structure PruneArgs where
  stateMs : ℤ
  outboxMs : ℤ
  sentMs : ℤ

/-- `cmd_prune` -/
def prune (a : PruneArgs) : Command key Unit := do
  let state ← loadState
  let state := (state.prune a.stateMs).2
  saveState state
  pruneOutbox operation state.deletionHorizonMs a.outboxMs
  pruneSent operation state.deletionHorizonMs a.sentMs

end Lists

/-! ## What it drops -/

section Stale

variable {operation : Bytes → Option Operation}

/-- Its operation is older than the cutoff. -/
def stale (operation : Bytes → Option Operation) (cutoff : ℤ) (p : Bytes) : Bool :=
  (operation p).any fun op => decide ((physical op.hlc : ℤ) < cutoff)

theorem stale_iff {cutoff : ℤ} {p : Bytes} :
    stale operation cutoff p = true ↔
      ∃ op, operation p = some op ∧ (physical op.hlc : ℤ) < cutoff := by
  rw [stale, Option.any_eq_true]
  simp only [decide_eq_true_eq]

theorem prunePayloadList_eq (cutoff : ℤ) (ps kept : List Bytes) (dropped : ℕ) :
    prunePayloadList operation cutoff ps (kept, dropped) =
      (kept ++ ps.filter fun p => !stale operation cutoff p,
        dropped + ps.countP (stale operation cutoff)) := by
  induction ps generalizing kept dropped with
  | nil => simp [prunePayloadList]
  | cons p ps ih =>
    rw [prunePayloadList]
    cases hop : operation p with
    | none =>
      have hfresh : stale operation cutoff p = false := by
        rw [stale, hop]
        rfl
      dsimp only
      rw [ih, List.filter_cons_of_pos (by rw [hfresh]; rfl),
        List.countP_cons_of_neg (by rw [hfresh]; exact Bool.false_ne_true), List.append_assoc]
      rfl
    | some op =>
      have hstale : stale operation cutoff p = decide ((physical op.hlc : ℤ) < cutoff) := by
        rw [stale, hop]
        rfl
      dsimp only
      split_ifs with hold
      · rw [ih, List.filter_cons_of_neg (by simp [hstale, hold]),
          List.countP_cons_of_pos (by simp [hstale, hold]), Nat.add_right_comm, Nat.add_assoc]
      · rw [ih, List.filter_cons_of_pos (by simp [hstale, hold]),
          List.countP_cons_of_neg (by simp [hstale, hold]), List.append_assoc]
        rfl

/-- The box without its stale payloads. -/
def fresh (operation : Bytes → Option Operation) (cutoff : ℤ) (box : List Bytes) : List Bytes :=
  box.filter fun p => !stale operation cutoff p

theorem mem_fresh {cutoff : ℤ} {p : Bytes} {box : List Bytes} :
    p ∈ fresh operation cutoff box ↔ p ∈ box ∧ stale operation cutoff p = false := by
  simp [fresh]

/-- Where nothing is dropped the box is as it was. -/
theorem fresh_of_dropped_zero {cutoff : ℤ} {box : List Bytes}
    (h : (prunePayloadList operation cutoff box ([], 0)).2 = 0) :
    fresh operation cutoff box = box := by
  rw [prunePayloadList_eq, Nat.zero_add, List.countP_eq_zero] at h
  exact List.filter_eq_self.mpr fun p hp => by simpa using h p hp

omit [DecidableEq κ] in
/-- What is saved is the fresh part of the box; a box that loses nothing is not saved. -/
theorem prunePayloads_run {load : Command key (List Bytes)} {save : List Bytes → Command key Unit}
    {box : Store key → List Bytes} {put : List Bytes → Store key → Store key} {r : Record}
    (hload : ∀ (f : List Bytes → Command key Unit) s, (load >>= f).run s = (f (box s)).run s)
    (hsave : ∀ payloads s, (save payloads).run s = ⟨put payloads s, [r], [], .ok ()⟩)
    (hself : ∀ s, put (box s) s = s) (horizonMs nowMs : ℤ) (s : Store key) :
    let o := (prunePayloads operation load save horizonMs nowMs).run s
    o.result = .ok () ∧ o.told = [] ∧
      o.store = put (fresh operation (nowMs - horizonMs) (box s)) s := by
  intro o
  have hrun : o = _ := hload _ s
  rw [hrun]
  dsimp only
  split_ifs with hempty hdropped
  · have hsame : fresh operation (nowMs - horizonMs) (box s) = box s := by
      rw [List.isEmpty_iff.mp hempty]
      rfl
    rw [hsame, hself]
    exact ⟨rfl, rfl, rfl⟩
  · rw [hsave, prunePayloadList_eq]
    exact ⟨rfl, rfl, rfl⟩
  · rw [fresh_of_dropped_zero (not_not.mp hdropped), hself]
    exact ⟨rfl, rfl, rfl⟩

omit [DecidableEq κ] in
theorem pruneOutbox_run (horizonMs nowMs : ℤ) (s : Store key) :
    let o := (pruneOutbox operation horizonMs nowMs : Command key Unit).run s
    o.result = .ok () ∧ o.told = [] ∧
      o.store = Function.update s .outbox (fresh operation (nowMs - horizonMs) (s .outbox)) :=
  @prunePayloads_run _ _ operation loadOutbox saveOutbox (fun s => s .outbox)
    (fun box s => Function.update s .outbox box) .outbox (fun _ _ => rfl) (fun _ _ => rfl)
    (fun s => Function.update_eq_self (.outbox : Record) s) horizonMs nowMs s

omit [DecidableEq κ] in
theorem pruneSent_run (horizonMs nowMs : ℤ) (s : Store key) :
    let o := (pruneSent operation horizonMs nowMs : Command key Unit).run s
    o.result = .ok () ∧ o.told = [] ∧
      o.store = Function.update s .sent (fresh operation (nowMs - horizonMs) (s .sent)) :=
  @prunePayloads_run _ _ operation loadSent saveSent (fun s => s .sent)
    (fun box s => Function.update s .sent box) .sent (fun _ _ => rfl) (fun _ _ => rfl)
    (fun s => Function.update_eq_self (.sent : Record) s) horizonMs nowMs s

/-- The store after a prune. -/
def pruned (operation : Bytes → Option Operation) (a : PruneArgs) (s : Store key) : Store key
  | .clock => s .clock
  | .state => (StateVector.prune (s .state) a.stateMs).2
  | .ledger => s .ledger
  | .outbox =>
    fresh operation (a.outboxMs - StateVector.deletionHorizonMs (s .state)) (s .outbox)
  | .sent => fresh operation (a.sentMs - StateVector.deletionHorizonMs (s .state)) (s .sent)

omit [DecidableEq κ] in
theorem prune_run (a : PruneArgs) (s : Store key) :
    ((prune operation a : Command key Unit).run s).told = [] ∧
      ((prune operation a : Command key Unit).run s).store = pruned operation a s := by
  let state := (StateVector.prune (s .state) a.stateMs).2
  let s₁ : Store key := Function.update s .state state
  obtain ⟨houtbox, htold, hstore⟩ :=
    @pruneOutbox_run _ _ operation state.deletionHorizonMs a.outboxMs s₁
  obtain ⟨-, htold', hstore'⟩ := @pruneSent_run _ _ operation state.deletionHorizonMs a.sentMs
    ((pruneOutbox operation state.deletionHorizonMs a.outboxMs : Command key Unit).run s₁).store
  have hrun : (prune operation a : Command key Unit).run s =
      (Script.save Record.state state (pruneOutbox operation state.deletionHorizonMs a.outboxMs >>=
        fun _ => pruneSent operation state.deletionHorizonMs a.sentMs) :
          Command key Unit).run s := rfl
  rw [hrun, Script.run_save, Script.run_bind_ok _ houtbox]
  refine ⟨?_, ?_⟩
  · exact (congrArg₂ (· ++ ·) htold htold').trans (List.append_nil _)
  · refine hstore'.trans ?_
    rw [hstore]
    funext r
    cases r <;> rfl

end Stale

/-! ## What receivers make of it -/

/-- A payload of this operation is refused wherever it is read so, by clocks that are not behind
and over horizons that are not longer, and nothing changes. -/
structure Refused (p : Bytes) (op : Operation) (horizonMs nowMs : ℤ) : Prop where
  apply : ∀ {κ : Type} [DecidableEq κ] {key : Tuple → κ} (P : Dacar.Port key), P.Lawful →
    P.operation p = some op → ∀ options (r : DeltaReceiver key),
    r.state.deletionHorizonMs ≤ horizonMs → nowMs ≤ P.now options r.ingested →
    P.applyPayload options p r = (some false, ⟨r.state, r.ingested + 1⟩)
  push : ∀ {κ : Type} [DecidableEq κ] {key : Tuple → κ} (P : Dacar.Port key), P.Lawful →
    P.operation p = some op → ∀ r : DeltaReceiver key,
    r.state.deletionHorizonMs ≤ horizonMs → nowMs ≤ P.now {} r.ingested →
    P.handlePush p r = (some 0, ⟨r.state, r.ingested + 1⟩)

theorem refused_of_stale {p : Bytes} {op : Operation} {horizonMs nowMs : ℤ}
    (h : (physical op.hlc : ℤ) < nowMs - horizonMs) : Refused p op horizonMs nowMs := by
  have hpassing {κ : Type} [DecidableEq κ] {key : Tuple → κ} (P : Dacar.Port key)
      (hop : P.operation p = some op) (options : ApplyOptions) (r : DeltaReceiver key)
      (hhorizon : r.state.deletionHorizonMs ≤ horizonMs) (hnow : nowMs ≤ P.now options r.ingested) :
      P.passing options r.state r.ingested p = none :=
    Dacar.Port.passing_eq_none hop fun hpass => by
      have hlate := hpass.2.2
      omega
  constructor
  · intro κ _ key P hP hop options r hhorizon hnow
    rw [Dacar.Port.applyPayload_of_refused hP (hpassing P hop options r hhorizon hnow),
      Dacar.Port.next_of_some hop]
  · intro κ _ key P hP hop r hhorizon hnow
    exact (Dacar.Port.isolates hP).refused p op r hop (hpassing P hop {} r hhorizon hnow)

/-! ## Runs that prune -/

/-- One of the other commands, or a prune. -/
inductive Upkeep
  | call (c : Call)
  | prune (a : PruneArgs)

section Runs

variable (operation : Bytes → Option Operation)

def Moment.upkeep (m : Moment key) : Upkeep → Moment key
  | .call c => m.call c
  | .prune a =>
    { store := ((prune operation a : Command key Unit).run m.store).store
      told := m.told ++ ((prune operation a : Command key Unit).run m.store).told }

/-- Every command of a run, with the moment it starts at. -/
def upkeepHistory : List Upkeep → Moment key → List (Moment key × Upkeep)
  | [], _ => []
  | u :: us, m => (m, u) :: upkeepHistory us (m.upkeep operation u)

/-- Where a run ends. -/
def upkeepAll (us : List Upkeep) (m : Moment key) : Moment key :=
  us.foldl (Moment.upkeep operation) m

/-- No payload that is queued here is accepted from a file. -/
def Upkeep.Foreign (m : Moment key) : Upkeep → Prop
  | .call c => Cli.Foreign m c
  | .prune _ => True

/-- A prune with this reading takes the payload out of a box, its operation being older than the
horizon, and by that reading and horizon receivers refuse it. -/
structure DroppedFrom (p : Bytes) (m : Moment key) (a : PruneArgs) (box : Store key → List Bytes)
    (nowMs : ℤ) : Prop where
  queued : p ∈ box m.store
  gone : p ∉ box (m.upkeep operation (.prune a)).store
  stale : ∃ op, operation p = some op ∧
    (physical op.hlc : ℤ) < nowMs - StateVector.deletionHorizonMs (m.store .state) ∧
    Refused p op (StateVector.deletionHorizonMs (m.store .state)) nowMs

/-- The command is a prune that drops the payload from the outbox or the sent box. -/
def Dropped (p : Bytes) (m : Moment key) : Upkeep → Prop
  | .call _ => False
  | .prune a => DroppedFrom operation p m a (fun s => s .outbox) a.outboxMs ∨
      DroppedFrom operation p m a (fun s => s .sent) a.sentMs

variable {operation}

omit [DecidableEq κ] in
theorem not_mem_fresh {cutoff : ℤ} {p : Bytes} {box : List Bytes} (hp : p ∈ box)
    (hgone : p ∉ fresh operation cutoff box) :
    ∃ op, operation p = some op ∧ (physical op.hlc : ℤ) < cutoff := by
  rw [mem_fresh, not_and, Bool.not_eq_false] at hgone
  exact stale_iff.mp (hgone hp)

/-- What a command leaves in no box, a prune dropped. -/
theorem inBoxes_or_dropped {m : Moment key} {u : Upkeep} (hforeign : u.Foreign m) {p : Bytes}
    (hp : InBoxes p m.store) :
    InBoxes p (m.upkeep operation u).store ∨ Dropped operation p m u := by
  cases u with
  | call c => exact .inl (((moves_iff_foreign m c).mpr hforeign).inBoxes hp)
  | prune a =>
    by_cases hkept : InBoxes p (m.upkeep operation (.prune a)).store
    · exact .inl hkept
    · right
      have hstore : (m.upkeep operation (.prune a)).store = pruned operation a m.store :=
        (prune_run a m.store).2
      rw [hstore, InBoxes, not_or] at hkept
      rcases hp with hp | hp
      · obtain ⟨op, hop, hold⟩ := not_mem_fresh hp hkept.1
        refine .inl ⟨hp, ?_, op, hop, hold, refused_of_stale hold⟩
        rw [hstore]
        exact hkept.1
      · obtain ⟨op, hop, hold⟩ := not_mem_fresh hp hkept.2
        refine .inr ⟨hp, ?_, op, hop, hold, refused_of_stale hold⟩
        rw [hstore]
        exact hkept.2

theorem stays_or_dropped {us : List Upkeep} {m : Moment key}
    (hforeign : ∀ t ∈ upkeepHistory operation us m, t.2.Foreign t.1) {p : Bytes}
    (hp : InBoxes p m.store) : InBoxes p (upkeepAll operation us m).store ∨
      ∃ t ∈ upkeepHistory operation us m, Dropped operation p t.1 t.2 := by
  induction us generalizing m with
  | nil => exact .inl hp
  | cons u us ih =>
    rw [upkeepHistory, List.forall_mem_cons] at hforeign
    rw [upkeepHistory]
    rcases inBoxes_or_dropped hforeign.1 hp with hp | hdropped
    · refine (ih hforeign.2 hp).imp id ?_
      rintro ⟨t, ht, hdropped⟩
      exact ⟨t, List.mem_cons_of_mem _ ht, hdropped⟩
    · exact .inr ⟨(m, u), List.mem_cons_self, hdropped⟩

/-- A command issues a payload into the boxes. -/
theorem inBoxes_of_told {m : Moment key} {u : Upkeep} {p : Bytes}
    (hp : p ∈ (m.upkeep operation u).issued) :
    p ∈ m.issued ∨ InBoxes p (m.upkeep operation u).store := by
  rw [Moment.mem_issued] at hp ⊢
  cases u with
  | call c => exact (List.mem_append.mp hp).imp id (inBoxes_of_issued m c p)
  | prune a =>
    refine (List.mem_append.mp hp).imp id fun htold => ?_
    rw [(prune_run a m.store).1] at htold
    cases htold

theorem issued_before_or_stays {us : List Upkeep} {m : Moment key}
    (hforeign : ∀ t ∈ upkeepHistory operation us m, t.2.Foreign t.1) {p : Bytes}
    (hp : p ∈ (upkeepAll operation us m).issued) :
    p ∈ m.issued ∨ InBoxes p (upkeepAll operation us m).store ∨
      ∃ t ∈ upkeepHistory operation us m, Dropped operation p t.1 t.2 := by
  induction us generalizing m with
  | nil => exact .inl hp
  | cons u us ih =>
    have hforeign' := hforeign
    rw [upkeepHistory, List.forall_mem_cons] at hforeign'
    have hlater (h : InBoxes p (upkeepAll operation us (m.upkeep operation u)).store ∨
        ∃ t ∈ upkeepHistory operation us (m.upkeep operation u), Dropped operation p t.1 t.2) :
        InBoxes p (upkeepAll operation (u :: us) m).store ∨
          ∃ t ∈ upkeepHistory operation (u :: us) m, Dropped operation p t.1 t.2 :=
      h.imp id fun ⟨t, ht, hdropped⟩ => ⟨t, List.mem_cons_of_mem _ ht, hdropped⟩
    rcases ih hforeign'.2 hp with hissued | hstays
    · rcases inBoxes_of_told hissued with hbefore | hboxes
      · exact .inl hbefore
      · exact .inr (hlater (stays_or_dropped hforeign'.2 hboxes))
    · exact .inr (hlater hstays)

/-- With prunes among the commands, an issued payload is in the boxes, or a prune dropped it when
no receiver with its clock and horizon would take it any more. -/
theorem issued_kept_or_refused {us : List Upkeep} {s : Store key}
    (hforeign : ∀ t ∈ upkeepHistory operation us ⟨s, []⟩, t.2.Foreign t.1) :
    ∀ p ∈ (upkeepAll operation us ⟨s, []⟩).issued,
      InBoxes p (upkeepAll operation us ⟨s, []⟩).store ∨
        ∃ t ∈ upkeepHistory operation us ⟨s, []⟩, Dropped operation p t.1 t.2 :=
  fun _ hp => (issued_before_or_stays hforeign hp).resolve_left List.not_mem_nil

end Runs

section Scene

/-- The grant, and a prune half a year and a day later. -/
def grantedThenPruned : List Upkeep :=
  let later : ℤ := 1001 + 180 * msPerDay
  [.call (.issue clerk granting), .prune ⟨later, later, later⟩]

def readPacked (p : Bytes) : Option Operation := (Operation.fromPayload unpackAll p).toOption

/-- The grant is dropped: whoever reads it refuses it. -/
theorem issued_kept_or_refused_grant :
    ∃ t ∈ upkeepHistory readPacked grantedThenPruned (⟨.init 180, []⟩ : Moment Tuple.key),
      Dropped readPacked grantPayload t.1 t.2 := by
  have hforeign : ∀ t ∈ upkeepHistory readPacked grantedThenPruned
      (⟨.init 180, []⟩ : Moment Tuple.key), t.2.Foreign t.1 := by
    rw [grantedThenPruned, upkeepHistory, upkeepHistory, upkeepHistory, List.forall_mem_cons,
      List.forall_mem_singleton]
    exact ⟨trivial, trivial⟩
  have hkept := issued_kept_or_refused hforeign grantPayload (by decide +kernel)
  exact hkept.resolve_left (by decide +kernel)

end Scene

end Dacar.Cli

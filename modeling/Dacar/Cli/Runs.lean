import Dacar.Cli.Issue
import Dacar.Cli.Publish
import Dacar.Cli.Receive

/-!
# Runs of commands

Commands that run one after the other on one store, each to its end.
-/

namespace Dacar.Cli

variable {κ : Type} [DecidableEq κ] {key : Tuple → κ}

/-- `grant` and `revoke`; `publish`, and `push` over its own transport; `apply`; `sync`. -/
inductive Call
  | issue (n : Node) (a : IssueArgs)
  | publish (a : PublishArgs)
  | apply (single : Delivery) (batch : List Delivery)
  | sync (port : Port) (a : SyncArgs)

def Call.command : Call → Command key Unit
  | .issue n a => Cli.issue n a
  | .publish a => Cli.publish a
  | .apply single batch => Cli.apply single batch
  | .sync port a => port.sync a

/-- The store, and all that was told on the way to it. -/
structure Moment (key : Tuple → κ) where
  store : Store key
  told : List Event

namespace Moment

variable (m : Moment key)

/-- The payloads issued so far. -/
def issued : List Bytes :=
  m.told.filterMap fun
    | .issued p => some p
    | .applied _ _ => none

/-- The operations received and applied so far. -/
def received : List Operation :=
  m.told.filterMap fun
    | .issued _ => none
    | .applied _ op => some op

def call (c : Call) : Moment key where
  store := (c.command.run m.store).store
  told := m.told ++ (c.command.run m.store).told

omit [DecidableEq κ] in
theorem mem_issued {p : Bytes} : p ∈ m.issued ↔ .issued p ∈ m.told := by
  rw [issued, List.mem_filterMap]
  constructor
  · rintro ⟨e, he, hp⟩
    cases e with
    | issued q => exact Option.some.inj hp ▸ he
    | applied leg op => exact nomatch hp
  · exact fun h => ⟨_, h, rfl⟩

omit [DecidableEq κ] in
theorem mem_received {op : Operation} : op ∈ m.received ↔ ∃ leg, .applied leg op ∈ m.told := by
  rw [received, List.mem_filterMap]
  constructor
  · rintro ⟨e, he, hop⟩
    cases e with
    | issued p => exact nomatch hop
    | applied leg op' => exact ⟨leg, Option.some.inj hop ▸ he⟩
  · exact fun ⟨leg, h⟩ => ⟨_, h, rfl⟩

end Moment

/-- Every command of a run, with the moment it starts at. -/
def history : List Call → Moment key → List (Moment key × Call)
  | [], _ => []
  | c :: cs, m => (m, c) :: history cs (m.call c)

/-- What every command keeps holds at the start of each command of a run. -/
theorem history_invariant {P : Moment key → Prop} (hcall : ∀ m c, P m → P (m.call c))
    (cs : List Call) {m : Moment key} (hm : P m) : ∀ t ∈ history cs m, P t.1 := by
  induction cs generalizing m with
  | nil => exact fun t ht => nomatch ht
  | cons c cs ih =>
    rw [history, List.forall_mem_cons]
    exact ⟨hm, ih (hcall m c hm)⟩

/-! ## A node for the examples -/

def clerk : Node := ⟨.python, fun _ => .fill 64 0x51, pack⟩

/-- Applied at once, and queued. -/
def IssueArgs.plain (tuple : Tuple) (action : Action) (phys : ℕ) : IssueArgs where
  tuple := tuple
  action := action
  noApply := false
  plaintext := none
  phys := phys
  applyMs := phys
  legs := []

end Dacar.Cli

import Dacar.Payload
import Dacar.Script
import Dacar.StateVector

/-!
# The commands on a node's store

Every command loads records of the store and saves them back whole.  The two ports keep
the same records in the same order of steps, except where a definition names the port.
The configuration, the aliases and the issuer cache are left out: none of the commands
here makes anything of the other records depend on what it writes there.
-/

namespace Dacar.Cli

inductive Record
  | clock
  | state
  | ledger
  | outbox
  | sent
  deriving DecidableEq

/-- The plaintext of a tuple that was issued here. -/
structure LedgerRow where
  object : String
  relation : String
  wildcard : Bool
  firstSeen : ℕ

inductive Port
  | python
  | javascript
  deriving DecidableEq

/-- The transport a Delta came in by. -/
inductive Leg
  | file
  | rfed
  | lxmf
  deriving DecidableEq

/-- What a command does besides saving: a signed payload is handed out, a received Delta
is merged into the state in memory. -/
inductive Event
  | issued (payload : Bytes)
  | applied (leg : Leg) (op : Operation)
  deriving DecidableEq

inductive Failure
  /-- `pack` has no room for the HLC. -/
  | hlcOverflow
  /-- The local apply was rejected, as stale or too far ahead. -/
  | applyRejected
  /-- A step on the network raised. -/
  | network
  /-- Payload files together with a source flag. -/
  | usage
  /-- A payload file is empty. -/
  | emptyPayload
  /-- The command reports that nothing was applied. -/
  | rejected
  deriving DecidableEq

variable {κ : Type} [DecidableEq κ] {key : Tuple → κ}

abbrev Content (key : Tuple → κ) : Record → Type
  | .clock => Clock
  | .state => StateVector key
  | .ledger => OrderedMap κ LedgerRow
  | .outbox => List Bytes
  | .sent => List Bytes

abbrev Store (key : Tuple → κ) : Type := ∀ r, Content key r

/-- The records of a new store. -/
def Store.init (deletionHorizonDays : ℕ) : Store key
  | .clock => {}
  | .state => .empty deletionHorizonDays
  | .ledger => .empty
  | .outbox => []
  | .sent => []

abbrev Command (key : Tuple → κ) (α : Type) : Type := Script (Content key) Event Failure α

def loadClock : Command key Clock := Script.get Record.clock
def saveClock (clock : Clock) : Command key Unit := Script.put Record.clock clock
def loadState : Command key (StateVector key) := Script.get Record.state
def saveState (state : StateVector key) : Command key Unit := Script.put Record.state state
def loadLedger : Command key (OrderedMap κ LedgerRow) := Script.get Record.ledger
def saveLedger (ledger : OrderedMap κ LedgerRow) : Command key Unit :=
  Script.put Record.ledger ledger
def loadOutbox : Command key (List Bytes) := Script.get Record.outbox
def saveOutbox (payloads : List Bytes) : Command key Unit := Script.put Record.outbox payloads
def loadSent : Command key (List Bytes) := Script.get Record.sent
def saveSent (payloads : List Bytes) : Command key Unit := Script.put Record.sent payloads

/-- Who runs the commands: the port, the signing key and the MessagePack encoder. -/
structure Node where
  port : Port
  sign : Bytes → Signature
  encode : MsgPackEncode

/-! ## Publishing -/

/-- A transport leg: it raises, or says of each payload whether it was accepted. -/
abbrev Transport := Option (List Bool)

/-- The payloads that were accepted. -/
def acceptedOf (payloads : List Bytes) (accepted : List Bool) : List Bytes :=
  ((payloads.zip accepted).filter Prod.snd).map Prod.fst

/-- Append the payloads that are not there yet, and say whether there was one. -/
def appendMissing : List Bytes → List Bytes × Bool → List Bytes × Bool
  | [], r => r
  | p :: ps, (box, changed) =>
    if p ∈ box then appendMissing ps (box, changed) else appendMissing ps (box ++ [p], true)

/-- What stays in the outbox. -/
def drained (accepted outbox : List Bytes) : List Bytes := outbox.filter fun p => p ∉ accepted

/-- Drain accepted deltas from the outbox. -/
def drainOutbox (accepted : List Bytes) : Command key Unit := do
  let outbox ← loadOutbox
  let newOutbox := drained accepted outbox
  if newOutbox.length ≠ outbox.length then saveOutbox newOutbox else pure ()

/-- Append to the sent box. -/
def appendSent (accepted : List Bytes) : Command key Unit := do
  let sent ← loadSent
  let r := appendMissing accepted (sent, false)
  if r.2 then saveSent r.1 else pure ()

/-- `_record_publish` -/
def recordPublish (payloads : List Bytes) (accepted : List Bool) (recordToSent : Bool) :
    Command key Unit :=
  let acceptedBytes := acceptedOf payloads accepted
  if acceptedBytes.isEmpty then pure ()
  else do
    drainOutbox acceptedBytes
    if recordToSent then appendSent acceptedBytes else pure ()

/-- The sources of `publish` and `push`. -/
structure PublishArgs where
  outbox : Bool
  sent : Bool
  all : Bool
  files : List Bytes
  transport : Transport

def PublishArgs.useSent (a : PublishArgs) : Bool := a.sent || a.all

/-- With neither files nor a source flag the outbox is implied. -/
def PublishArgs.useOutbox (a : PublishArgs) : Bool :=
  a.outbox || a.all || (a.files.isEmpty && !a.useSent)

/-- External file payloads are not this node's issuance. -/
def PublishArgs.recordToSent (a : PublishArgs) : Bool := a.files.isEmpty

/-- The send list, without repetitions, goes out; what was accepted is recorded. -/
def send (a : PublishArgs) (payloads : List Bytes) : Command key Unit :=
  let deduped := (appendMissing payloads ([], false)).1
  if deduped.isEmpty then pure ()
  else
    match a.transport with
    | none => .raise .network
    | some accepted => recordPublish deduped accepted a.recordToSent

/-- `cmd_publish`; `cmd_push` differs in the transport only. -/
def publish (a : PublishArgs) : Command key Unit :=
  if !a.files.isEmpty && (a.outbox || a.useSent || a.all) then .raise .usage
  else do
    let outbox ← (if a.useOutbox then loadOutbox else pure [])
    let sent ← (if a.useSent then loadSent else pure [])
    if a.files.any List.isEmpty then .raise .emptyPayload
    else send a (outbox ++ sent ++ a.files)

/-! ## Issuing -/

structure Plaintext where
  object : String
  relation : String
  wildcard : Bool

structure IssueArgs where
  tuple : Tuple
  action : Action
  noApply : Bool
  /-- Missing after `--copy-hashes`. -/
  plaintext : Option Plaintext
  /-- The wall clock when the HLC is drawn. -/
  phys : ℕ
  /-- The wall clock when the operation is applied. -/
  applyMs : ℤ
  /-- `--lxmf` and `--publish`, in this order; empty when the payload is only queued. -/
  legs : List Transport

/-- Python keeps the earliest `first_seen`, JavaScript writes the row anew. -/
def Port.ledgerRow (port : Port) (t : Plaintext) (firstSeen : ℕ) (old : Option LedgerRow) :
    LedgerRow where
  object := t.object
  relation := t.relation
  wildcard := t.wildcard
  firstSeen :=
    match port, old with
    | .python, some row => if firstSeen < row.firstSeen then firstSeen else row.firstSeen
    | _, _ => firstSeen

/-- `Operation(...).sign(identity)` -/
def Node.signed (n : Node) (tuple : Tuple) (action : Action) (hlc : ℕ) (h : hlc ≤ maxHlc) :
    Operation :=
  let op : Operation := ⟨tuple, action, hlc, [], h⟩
  { op with signatures := [n.sign op.preimage] }

/-- The payload of a signed operation. -/
def Node.payload (n : Node) (op : Operation) : Bytes := n.encode op.toValue

theorem Node.toPayload_signed (n : Node) (tuple : Tuple) (action : Action) (hlc : ℕ)
    (h : hlc ≤ maxHlc) :
    (n.signed tuple action hlc h).toPayload n.encode =
      .ok (n.payload (n.signed tuple action hlc h)) :=
  rfl

def applyLocally (a : IssueArgs) (op : Operation) : Command key Unit :=
  if a.noApply then pure ()
  else do
    let state ← loadState
    let r := state.apply op a.applyMs (some defaultMaxFutureMs)
    if r.1 then saveState r.2 else .raise .applyRejected

def recordPlaintext (n : Node) (a : IssueArgs) (op : Operation) : Command key Unit :=
  match a.plaintext with
  | none => pure ()
  | some t => do
    let ledger ← loadLedger
    saveLedger (ledger.upsert (key op.tuple) (n.port.ledgerRow t (physical op.hlc)))

/-- Queue the payload. -/
def enqueue (payload : Bytes) : Command key Unit := do
  let outbox ← loadOutbox
  saveOutbox (outbox ++ [payload])

/-- Send the one payload over each leg, recording after each. -/
def runLegs (payload : Bytes) : List Transport → Command key Unit
  | [] => pure ()
  | none :: _ => .raise .network
  | some accepted :: legs => do
    recordPublish [payload] accepted true
    runLegs payload legs

/-- `_issue` from the plaintext ledger on. -/
def queueAndSend (n : Node) (a : IssueArgs) (op : Operation) : Command key Unit := do
  recordPlaintext n a op
  .say (.issued (n.payload op))
  enqueue (n.payload op)
  runLegs (n.payload op) a.legs

/-- `clock.now()` and the operation that is signed at it. -/
def Node.draw (n : Node) (a : IssueArgs) (clock : Clock) : Option Operation :=
  match h : (clock.now a.phys).1 with
  | none => none
  | some hlc => some (n.signed a.tuple a.action hlc (Clock.now_le h))

/-- `_issue`, which `grant` and `revoke` are. -/
def issue (n : Node) (a : IssueArgs) : Command key Unit := do
  let clock ← loadClock
  match n.draw a clock with
  | none => .raise .hlcOverflow
  | some op => do
    saveClock (clock.now a.phys).2
    applyLocally a op
    queueAndSend n a op

/-! ## Receiving -/

/-- A received blob after unwrapping, decoding and verification: an authentic operation or
nothing, with the wall clock at its turn. -/
structure Delivery where
  op : Option Operation
  nowMs : ℤ

/-- `rx.apply_payload`, with the operation it applied. -/
def Delivery.deliver (d : Delivery) (state : StateVector key) :
    Option Operation × StateVector key :=
  match d.op with
  | none => (none, state)
  | some op =>
    let r := state.apply op d.nowMs (some defaultMaxFutureMs)
    (if r.1 then some op else none, r.2)

/-- A sequence of blobs, with the operations that were applied. -/
def deliverAll : List Delivery → StateVector key → List Operation × StateVector key
  | [], state => ([], state)
  | d :: ds, state =>
    let r := d.deliver state
    let rest := deliverAll ds r.2
    (r.1.toList ++ rest.1, rest.2)

/-- `cmd_apply`: the data as one Delta, and as a batch. -/
def apply (single : Delivery) (batch : List Delivery) : Command key Unit := do
  let state ← loadState
  match single.deliver state with
  | (some op, state) => do
    .say (.applied .file op)
    saveState state
  | (none, state) => do
    let r := deliverAll batch state
    .sayAll (r.1.map (.applied .file))
    if r.1.isEmpty then .raise .rejected else saveState r.2

/-- The pull loop: the pages it received, and whether the next pull raised. -/
structure Pull where
  pages : List (List Delivery)
  raises : Bool

/-- How `run_lxmf_sync` ends. -/
inductive LxmfEnd
  | complete
  | runtimeError
  | otherError
  deriving DecidableEq

inductive Lxmf
  | bootRaises
  | ran (deliveries : List Delivery) (ending : LxmfEnd)

/-- The legs that `sync` has: no pull without an rfed node, no LXMF without a proprietor. -/
structure SyncArgs where
  pull : Option Pull
  lxmf : Option Lxmf

namespace Python

/-- The count of a leg decides whether the state is saved. -/
def saveApplied (applied : List Operation) (state : StateVector key) : Command key Unit :=
  if applied.isEmpty then pure () else saveState state

def lxmfLeg (state : StateVector key) : Option Lxmf → Command key Unit
  | none => pure ()
  | some .bootRaises => .raise .network
  | some (.ran deliveries ending) => do
    let r := deliverAll deliveries state
    .sayAll (r.1.map (.applied .lxmf))
    match ending with
    | .complete => saveApplied r.1 r.2
    -- a `RuntimeError` is caught and counts as nothing applied
    | .runtimeError => pure ()
    | .otherError => .raise .network

/-- `cmd_sync` -/
def sync (a : SyncArgs) : Command key Unit := do
  let state ← loadState
  match a.pull with
  | none => lxmfLeg state a.lxmf
  | some pull => do
    let r := deliverAll pull.pages.flatten state
    .sayAll (r.1.map (.applied .rfed))
    if pull.raises then .raise .network
    else do
      saveApplied r.1 r.2
      lxmfLeg r.2 a.lxmf

end Python

namespace JavaScript

/-- Whatever the LXMF sync throws is caught, what its router throws is not. -/
def lxmfLeg (state : StateVector key) : Option Lxmf → Command key Unit
  | none => saveState state
  | some .bootRaises => .raise .network
  | some (.ran deliveries _) => do
    let r := deliverAll deliveries state
    .sayAll (r.1.map (.applied .lxmf))
    saveState r.2

/-- `cmdSync`, which saves the state once at its end. -/
def sync (a : SyncArgs) : Command key Unit := do
  let state ← loadState
  match a.pull with
  | none => lxmfLeg state a.lxmf
  | some pull => do
    let r := deliverAll pull.pages.flatten state
    .sayAll (r.1.map (.applied .rfed))
    if pull.raises then .raise .network else lxmfLeg r.2 a.lxmf

end JavaScript

def Port.sync (port : Port) (a : SyncArgs) : Command key Unit :=
  match port with
  | .python => Python.sync a
  | .javascript => JavaScript.sync a

end Dacar.Cli

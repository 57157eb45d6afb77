import Dacar.Payload
import Dacar.StateVector
import Dacar.Verifier

/-!
# Receiving Deltas

Every transport hands its bytes to one receiver: decode, authenticate, apply.  Bytes
that decode to nothing and operations that fail a check are dropped.  A resolver that
throws ends the call, and what the call applied before stays applied.
-/

namespace Dacar

/-- The libraries under the receiver. -/
structure Platform where
  msgPackDecode : MsgPackDecode
  ed25519 : Ed25519
  /-- `new TextDecoder().decode`. -/
  textDecoder : Bytes → String

/-- What a key resolver gives for an issuer. -/
inductive KeyAnswer
  | throws
  | unknown
  | keyset (ks : IssuerKeyset)

/-- The world while one operation is ingested: it answers anew for the next. -/
structure Moment where
  resolver : Hash → KeyAnswer
  physicalNowMs : ℤ

abbrev World := ℕ → Moment

structure ApplyOptions where
  nowMs : Option ℤ := none
  maxFutureMs : Option ℤ := some defaultMaxFutureMs

/-- The clock reading of an `apply`. -/
def ApplyOptions.now (options : ApplyOptions) (m : Moment) : ℤ :=
  options.nowMs.getD m.physicalNowMs

/-- A receiver, and how many operations it has ingested so far. -/
structure DeltaReceiver {κ : Type*} [DecidableEq κ] (key : Tuple → κ) where
  state : StateVector key
  ingested : ℕ

/-- What an asynchronous call leads to; the result is `none` when its promise rejects. -/
abbrev Settled {κ : Type*} [DecidableEq κ] (key : Tuple → κ) (α : Type) :=
  Option α × DeltaReceiver key

variable (p : Platform) (w : World)

def verifyOperation (op : Operation) : KeyAnswer → Option Bool
  | .throws => none
  | .unknown => some false
  | .keyset ks => some (op.verifyKeyset p.ed25519 ks)

namespace DeltaReceiver

variable {κ : Type*} [DecidableEq κ] {key : Tuple → κ}

/-- `state.ingest(operation, resolver, options)`. -/
def ingest (options : ApplyOptions) (op : Operation) (r : DeltaReceiver key) : Settled key Bool :=
  let m := w r.ingested
  let r' : DeltaReceiver key := { r with ingested := r.ingested + 1 }
  match verifyOperation p op (m.resolver op.tuple.issuer) with
  | none => (none, r')
  | some false => (some false, r')
  | some true =>
    let applied := r.state.apply op (options.now m) options.maxFutureMs
    (some applied.1, { r' with state := applied.2 })

def applyPayload (options : ApplyOptions) (payload : Bytes) (r : DeltaReceiver key) :
    Settled key Bool :=
  match Operation.fromPayload p.msgPackDecode payload with
  | .error _ => (some false, r)
  | .ok op => r.ingest p w options op

/-- The loop of `applyPayloads`: elements that are no byte strings are skipped. -/
def applyItems (options : ApplyOptions) : List JsValue → ℕ → DeltaReceiver key → Settled key ℕ
  | [], applied, r => (some applied, r)
  | .bytes item :: items, applied, r =>
    match r.applyPayload p w options item with
    | (none, r') => (none, r')
    | (some ok, r') => applyItems options items (if ok then applied + 1 else applied) r'
  | _ :: items, applied, r => applyItems options items applied r

def applyPayloads (options : ApplyOptions) (payload : Bytes) (r : DeltaReceiver key) :
    Settled key ℕ :=
  match p.msgPackDecode payload with
  | .ok (.array items) => applyItems p w options items 0 r
  | _ => (some 0, r)

/-- A push is tried as one Delta first, then as a batch. -/
def handlePush (data : Option Bytes) (r : DeltaReceiver key) : Settled key ℕ :=
  match data with
  | none => (some 0, r)
  | some data =>
    if data.isEmpty then (some 0, r)
    else
      match r.applyPayload p w {} data with
      | (none, r') => (none, r')
      | (some true, r') => (some 1, r')
      | (some false, r') =>
        match r'.applyPayloads p w {} data with
        -- whatever the batch throws is caught; what it applied before stays
        | (none, r'') => (some 0, r'')
        | settled => settled

end DeltaReceiver

/-! ## LXMF messages -/

/-- A field that some code paths leave binary. -/
inductive Text
  | string (s : String)
  | bytes (b : Bytes)

structure LxmfMessage where
  title : Option Text
  content : Option Text
  decodedPayload : Option (List JsValue)

def lxmfDeliveryTitle : String := "dacar/sync/delta"
def lxmfBatchTitle : String := "dacar/sync/batch"

def messageTitle (message : Option LxmfMessage) : String :=
  match message.bind LxmfMessage.title with
  | some (.string s) => s
  | some (.bytes b) => p.textDecoder b
  | none => ""

/-- The raw bytes survive on the decoded payload. -/
def messageContent (message : Option LxmfMessage) : Bytes :=
  let raw : List JsValue := (message.bind LxmfMessage.decodedPayload).getD []
  match (raw[2]? : Option JsValue) with
  | some (.bytes b) => b
  | _ =>
    match message.bind LxmfMessage.content with
    | some (.bytes b) => b
    | some (.string s) => utf8 s
    | none => []

def JsValue.asBytes : JsValue → Option Bytes
  | .bytes b => some b
  | _ => none

/-- Strict: a batch with one element that is no byte string is no batch. -/
def decodeBatch (content : Bytes) : Except DecodeError (List Bytes) :=
  match p.msgPackDecode content with
  | .error e => throw (.error s!"batch content is not msgpack: {e}")
  | .ok (.array (item :: items)) =>
    if (item :: items).all fun v => v.asBytes.isSome then
      pure ((item :: items).filterMap JsValue.asBytes)
    else throw (.error "batch elements must be binary payloads")
  | .ok _ => throw (.error "batch content must be a non-empty msgpack array")

namespace DeltaReceiver

variable {κ : Type*} [DecidableEq κ] {key : Tuple → κ}

/-- Every element is applied, whatever became of the ones before it. -/
def applyEach : List Bytes → List Bool → DeltaReceiver key → Settled key (List Bool)
  | [], results, r => (some results, r)
  | payload :: payloads, results, r =>
    match r.applyPayload p w {} payload with
    | (none, r') => (none, r')
    | (some ok, r') => applyEach payloads (results ++ [ok]) r'

/-- `handleMessage` of a delivery that has a receiver. -/
def handleMessage (message : Option LxmfMessage) (r : DeltaReceiver key) : Settled key Bool :=
  let title := messageTitle p message
  if title ≠ lxmfDeliveryTitle ∧ title ≠ lxmfBatchTitle then (some false, r)
  else if title = lxmfBatchTitle then
    match decodeBatch p (messageContent message) with
    | .error _ => (some false, r)
    | .ok payloads =>
      let settled := applyEach p w payloads [] r
      (settled.1.map fun results => results.any id, settled.2)
  else r.applyPayload p w {} (messageContent message)

end DeltaReceiver

end Dacar

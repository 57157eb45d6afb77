import Dacar.Chunking

/-!
# Sending batches

A batch that does not fit on paper is halved until its parts do.  A publication reports for
every payload what became of the message that carried it.
-/

namespace Dacar

/-- What a call throws. -/
inductive Thrown
  | typeError (message : String)
  | error (message : String)

/-! ## Messages -/

structure OutboundMessage where
  destinationHash : Bytes
  sourceHash : Bytes
  content : Bytes
  title : String

def makeMessage (deltaPayload destinationHash sourceHash : Bytes) : OutboundMessage where
  destinationHash
  sourceHash
  content := deltaPayload
  title := lxmfDeliveryTitle

def makeBatchMessage (encode : JsValue → Except String Bytes) (payloads : List Bytes)
    (destinationHash sourceHash : Bytes) : Except String OutboundMessage :=
  (encodeBatch encode payloads).map fun content =>
    { destinationHash, sourceHash, content, title := lxmfBatchTitle }

namespace Python

inductive DesiredMethod
  | propagated
  | direct
  | paper

/-- `LXMF.LXMessage`, between destinations of type `δ`. -/
structure OutboundMessage (δ : Type) where
  destination : δ
  source : Option δ
  content : Bytes
  title : String
  desiredMethod : DesiredMethod

variable {δ : Type}

def makeMessage (deltaPayload : Bytes) (destination : δ) (source : Option δ)
    (desiredMethod : DesiredMethod) : OutboundMessage δ where
  destination
  source
  content := deltaPayload
  title := lxmfDeliveryTitle
  desiredMethod

def makeBatchMessage (packb : WireValue → Except String Bytes) (payloads : List Bytes)
    (destination : δ) (source : Option δ) (desiredMethod : DesiredMethod) :
    Except String (OutboundMessage δ) :=
  (encodeBatch packb payloads).map fun content =>
    { destination, source, content, title := lxmfBatchTitle, desiredMethod }

end Python

/-! ## Paper -/

section Build

variable {μ : Type} (make : ℕ → List Bytes → Except Thrown μ)

/-- `make` is given the number of calls before it: encryption differs from call to call.  The
outer `none` is a recursion that does not end within `fuel`. -/
def build : ℕ → List Bytes → ℕ → Option (Except Thrown (List μ) × ℕ)
  | 0, _, _ => none
  | fuel + 1, chunk, calls =>
    match make calls chunk with
    | .ok message => some (.ok [message], calls + 1)
    | .error (.error e) => some (.error (.error e), calls + 1)
    | .error (.typeError e) =>
      if chunk.length = 1 then some (.error (.typeError e), calls + 1)
      else
        let mid := chunk.length / 2
        match build fuel (chunk.take mid) (calls + 1) with
        | none => none
        | some (.error e, calls) => some (.error e, calls)
        | some (.ok left, calls) =>
          match build fuel (chunk.drop mid) calls with
          | none => none
          | some (.error e, calls) => some (.error e, calls)
          | some (.ok right, calls) => some (.ok (left ++ right), calls)

/-- The loop over the chunks. -/
def buildAll (fuel : ℕ) : List (List Bytes) → ℕ → List μ → Option (Except Thrown (List μ))
  | [], _, messages => some (.ok messages)
  | chunk :: chunks, calls, messages =>
    match build make fuel chunk calls with
    | none => none
    | some (.error e, _) => some (.error e)
    | some (.ok more, calls) => buildAll fuel chunks calls (messages ++ more)

end Build

/-- `PAPER_CONTENT_BUDGET` -/
def paperContentBudget (paperMdu : ℤ) : ℤ := paperMdu - 240

/-- `toPaperUri` encrypts and throws a `TypeError` beyond the paper MDU. -/
def makeBatchPaperUri (encode : JsValue → Except String Bytes)
    (toPaperUri : ℕ → OutboundMessage → Except Thrown String)
    (destinationHash identityHash : Bytes) (calls : ℕ) (payloads : List Bytes) :
    Except Thrown String :=
  match makeBatchMessage encode payloads destinationHash identityHash with
  | .error e => .error (.error e)
  | .ok message => toPaperUri calls message

def packPaperUris (encode : JsValue → Except String Bytes)
    (toPaperUri : ℕ → OutboundMessage → Except Thrown String) (paperMdu : ℤ)
    (destinationHash identityHash : Bytes) (payloads : List Bytes) (fuel : ℕ) :
    Option (Except Thrown (List String)) :=
  match packChunks encode payloads (paperContentBudget paperMdu) with
  | .error e => some (.error (.error e))
  | .ok chunks =>
    buildAll (makeBatchPaperUri encode toPaperUri destinationHash identityHash) fuel chunks 0 []

namespace Python

variable {δ μ : Type}

/-- `pack` encrypts and raises a `TypeError` beyond the paper MDU. -/
def makePaperBatchMessage (packb : WireValue → Except String Bytes)
    (pack : ℕ → OutboundMessage δ → Except Thrown μ) (destination : δ) (source : Option δ)
    (calls : ℕ) (payloads : List Bytes) : Except Thrown μ :=
  match makeBatchMessage packb payloads destination source .paper with
  | .error e => .error (.error e)
  | .ok message => pack calls message

def packPaperMessages (packb : WireValue → Except String Bytes)
    (pack : ℕ → OutboundMessage δ → Except Thrown μ) (paperMdu : ℤ) (destination : δ)
    (source : Option δ) (payloads : List Bytes) (fuel : ℕ) : Option (Except Thrown (List μ)) :=
  match packChunks packb payloads (paperContentBudget paperMdu) with
  | .error e => some (.error (.error e))
  | .ok chunks => buildAll (makePaperBatchMessage packb pack destination source) fuel chunks 0 []

end Python

/-! ## Publishing -/

/-- The loop over the chunks; `submit` is given the number of messages before. -/
def submitAll {M : Type} (make : List Bytes → Except String M)
    (submit : ℕ → M → Except String Bool) :
    List (List Bytes) → List Bool → ℕ → Except String (List Bool × ℕ)
  | [], accepted, messages => .ok (accepted, messages)
  | chunk :: chunks, accepted, messages =>
    match make chunk with
    | .error e => .error e
    | .ok message =>
      match submit messages message with
      | .error e => .error e
      | .ok ok =>
        submitAll make submit chunks (accepted ++ List.replicate chunk.length ok) (messages + 1)

def noProprietor : String :=
  "no LXMF proprietor configured (use --proprietor <hash> or set " ++
    "[lxmf] proprietor in config) — or pass --direct for opportunistic direct delivery"

/-- `LXMF_CHUNK_BUDGET` -/
def lxmfChunkBudget : ℤ := 16 * 1024

/-- A router, with what it makes of its `n`-th message. -/
structure LxmRouter where
  setOutboundPropagationNode : Bytes → Except String Unit
  send : ℕ → OutboundMessage → Except String Unit
  submitToPropagationNode : Bytes → ℕ → OutboundMessage → Except String Unit

/-- Where `submit` hands its messages. -/
def LxmRouter.route (router : LxmRouter) (direct : Bool) (proprietor : Option Bytes) :
    Except String (ℕ → OutboundMessage → Except String Unit) :=
  if direct then .ok router.send
  else
    match proprietor with
    | none => .error noProprietor
    | some node =>
      (router.setOutboundPropagationNode node).map fun _ => router.submitToPropagationNode node

def runLxmfPublish (encode : JsValue → Except String Bytes) (router : LxmRouter)
    (payloads : List Bytes) (targetHash : Bytes) (proprietor : Option Bytes)
    (identityHash : Bytes) (direct : Bool := false) (chunkBudget : ℤ := lxmfChunkBudget) :
    Except String (List Bool × ℕ) :=
  match router.route direct proprietor with
  | .error e => .error e
  | .ok route =>
    -- what is not accepted throws
    let submit (n : ℕ) (message : OutboundMessage) := (route n message).map fun _ => true
    match payloads with
    | [payload] =>
      (submit 0 (makeMessage payload targetHash identityHash)).map fun ok => ([ok], 1)
    | payloads =>
      match packChunks encode payloads chunkBudget with
      | .error e => .error e
      | .ok chunks =>
        submitAll (makeBatchMessage encode · targetHash identityHash) submit chunks [] 0

namespace Python

/-- What is outside of a publication: the router, the router that the delivery is bound to,
and the caller's callback. -/
structure Sending (δ : Type) where
  setOutboundPropagationNode : Bytes → Except String Unit
  handleOutbound : ℕ → OutboundMessage δ → Except String Unit
  source : Option δ
  deliveryRouter : Option (ℕ → OutboundMessage δ → Except String Unit)
  lxmfOutDestination : Bytes → Except String δ
  /-- `_wait_send` -/
  waitSend : ℕ → OutboundMessage δ → Bool
  onSend : ℕ → OutboundMessage δ → Bool → Except String Unit

variable {δ : Type} (w : Sending δ)

namespace Sending

/-- The method, once the router knows its propagation node. -/
def method (direct : Bool) (proprietor : Option Bytes) : Except String DesiredMethod :=
  if direct then .ok .direct
  else
    match proprietor with
    | none => .error noProprietor
    | some node => (w.setOutboundPropagationNode node).map fun _ => .propagated

/-- A message that was handed over is waited for. -/
def settle (handed : Except String Unit) (n : ℕ) (message : OutboundMessage δ) :
    Except String Bool :=
  match handed with
  | .error e => .error e
  | .ok _ => (w.onSend n message (w.waitSend n message)).map fun _ => w.waitSend n message

/-- `deliver_batch` goes to the delivery's own router. -/
def deliver (n : ℕ) (message : OutboundMessage δ) : Except String Unit :=
  match w.deliveryRouter with
  | none => .error "'NoneType' object has no attribute 'handle_outbound'"
  | some handleOutbound => handleOutbound n message

end Sending

def runLxmfPublish (packb : WireValue → Except String Bytes) (payloads : List Bytes)
    (targetHash : Bytes) (proprietor : Option Bytes) (direct : Bool := false)
    (chunkBudget : ℤ := lxmfChunkBudget) : Except String (List Bool × ℕ) :=
  match w.method direct proprietor with
  | .error e => .error e
  | .ok desiredMethod =>
    match w.lxmfOutDestination targetHash with
    | .error e => .error e
    | .ok destination =>
      match payloads with
      | [payload] =>
        let message := makeMessage payload destination w.source desiredMethod
        (w.settle (w.handleOutbound 0 message) 0 message).map fun ok => ([ok], 1)
      | payloads =>
        match packChunks packb payloads chunkBudget with
        | .error e => .error e
        | .ok chunks =>
          submitAll (makeBatchMessage packb · destination w.source desiredMethod)
            (fun n message => w.settle (w.deliver n message) n message) chunks [] 0

end Python

end Dacar

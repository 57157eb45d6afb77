import Dacar.EngineGraph
import Dacar.PythonChallenge

/-!
# The Challenge on an adversarial network

Any number of clients, of the JavaScript and the Python port, ask one Authority of either.
The network may hand the Authority any bytes at any time and answer a client with any bytes
or none, so it can drop, replace, replay and reorder; but a receipt that verifies repeats one
that the Authority signed, and a nonce is not in a challenge the Authority has read before it
is drawn.
-/

namespace Dacar

open Fallible Relation

/-- One Authority, and the libraries it and its clients run on. -/
structure Deployment where
  hmac16 : Hmac16
  encode : MsgPackEncode
  decode : MsgPackDecode
  ed25519 : Ed25519
  config : Config
  sign : Ed25519Sign
  publicKey : RnsPublicKey

/-- The same with the decoder of the Python port.  A challenge is byte strings and arrays, which
both ports pack alike. -/
structure ChallengeNetwork extends Deployment where
  unpackb : Bytes → Except String WireValue

inductive ChallengePort
  | javascript
  | python
  deriving DecidableEq

/-- What the ports throw. -/
abbrev PortError := DecodeError ⊕ Python.ValueError

namespace ChallengeNetwork

variable (D : ChallengeNetwork) {κ : Type*} [DecidableEq κ] {key : Tuple → κ}

def readChallenge (payload : Bytes) : ChallengePort → Except PortError DecodedChallenge
  | .javascript => (DecodedChallenge.fromPayload D.decode payload).mapError .inl
  | .python => (Python.DecodedChallenge.fromPayload D.unpackb payload).mapError .inr

def readReceipt (payload : Bytes) : ChallengePort → Except PortError Receipt
  | .javascript => (Receipt.fromPayload D.decode payload).mapError .inl
  | .python => (Python.Receipt.fromPayload D.unpackb payload).mapError .inr

/-- The Authority's answer, at wall-clock reading `phys`. -/
def answer (state : StateVector key) (clock : Clock) (phys : ℕ) (payload : Bytes) :
    ChallengePort → Except PortError Receipt × Clock
  | .javascript =>
    (Dacar.answer D.hmac16 D.decode D.sign D.config state clock phys payload).map
      (Except.mapError .inl) id
  | .python =>
    (Python.answer D.hmac16 D.unpackb D.sign D.config state clock phys payload).map
      (Except.mapError .inr) id

/-- What a client makes of what its transport did. -/
def conclude (client : ChallengeClient key) (nonce : Nonce) (response : Response) :
    ChallengePort → Except PortError Bool
  | .javascript => (client.conclude D.decode D.ed25519 nonce response.received).mapError .inl
  | .python => (Python.conclude D.unpackb D.ed25519 client nonce response).mapError .inr

/-- The decoder of the port gives back the value of the challenge. -/
def Unpacks (payload : Bytes) (c : Challenge) : ChallengePort → Prop
  | .javascript => D.decode payload = .ok (c.toValue D.hmac16)
  | .python => D.unpackb payload = .ok (c.decoded D.hmac16).toWire

variable {D}

theorem mapError_eq_ok {ε ε' α : Type} {f : ε → ε'} {x : Except ε α} {a : α} :
    x.mapError f = .ok a ↔ x = .ok a := by
  cases x <;> simp [Except.mapError]

theorem answer_eq_ok {state : StateVector key} {clock clock' : Clock} {phys : ℕ} {payload : Bytes}
    {port : ChallengePort} {receipt : Receipt}
    (h : D.answer state clock phys payload port = (.ok receipt, clock')) :
    ∃ decoded, D.readChallenge payload port = .ok decoded ∧ receipt.nonce = decoded.nonce ∧
      receipt.verdict = verdictOf (allowed D.hmac16 D.config state decoded) := by
  obtain ⟨hreceipt, -⟩ := Prod.mk.inj h
  cases port with
  | javascript =>
    obtain ⟨decoded, hd, hrest⟩ := Dacar.answer_eq_ok (Prod.ext (mapError_eq_ok.mp hreceipt) rfl)
    exact ⟨decoded, mapError_eq_ok.mpr hd, hrest⟩
  | python =>
    obtain ⟨decoded, hd, hrest⟩ := Python.answer_eq_ok (Prod.ext (mapError_eq_ok.mp hreceipt) rfl)
    exact ⟨decoded, mapError_eq_ok.mpr hd, hrest⟩

theorem conclude_eq_true {client : ChallengeClient key} {nonce : Nonce} {response : Response}
    {port : ChallengePort} (h : D.conclude client nonce response port = .ok true) :
    ∃ payload receipt, response = .bytes payload ∧ D.readReceipt payload port = .ok receipt ∧
      receipt.nonce = nonce ∧ receipt.verify D.ed25519 client.authoritativePublicKey = true ∧
      receipt.verdict = .allow := by
  cases port with
  | javascript =>
    obtain ⟨payload, receipt, hresponse, hreceipt, hrest⟩ :=
      ChallengeClient.conclude_eq_true (mapError_eq_ok.mp h)
    refine ⟨payload, receipt, ?_, mapError_eq_ok.mpr hreceipt, hrest⟩
    cases response with
    | bytes b => exact congrArg Response.bytes (Option.some.inj hresponse)
    | nothing => cases hresponse
    | exception => cases hresponse
  | python =>
    obtain ⟨payload, receipt, hresponse, hreceipt, hrest⟩ :=
      Python.conclude_eq_true (mapError_eq_ok.mp h)
    exact ⟨payload, receipt, hresponse, mapError_eq_ok.mpr hreceipt, hrest⟩

theorem readChallenge_of_unpacks {payload : Bytes} {c : Challenge} {port : ChallengePort}
    (h : D.Unpacks payload c port) :
    D.readChallenge payload port = .ok (c.decoded D.hmac16) := by
  cases port with
  | javascript =>
    refine mapError_eq_ok.mpr ?_
    rw [DecodedChallenge.fromPayload, show D.decode payload = _ from h]
    exact c.fromValue_toValue D.hmac16
  | python =>
    refine mapError_eq_ok.mpr ?_
    rw [Python.DecodedChallenge.fromPayload, show D.unpackb payload = _ from h]
    exact py_fromValue_toWire D.hmac16 c

end ChallengeNetwork

section System

variable {κ : Type*} [DecidableEq κ]

/-- A challenge that an Authority of this port has answered, with the state it looked at. -/
structure Evaluation (key : Tuple → κ) where
  port : ChallengePort
  payload : Bytes
  challenge : DecodedChallenge
  state : StateVector key
  receipt : Receipt

/-- A call of `authorize`: `begun` evaluations were made before it, and the result is
missing while it waits for its transport. -/
structure Request (key : Tuple → κ) where
  port : ChallengePort
  client : ChallengeClient key
  objectId : String
  relation : String
  grantee : Hash
  nonce : Nonce
  begun : ℕ
  result : Option (Except PortError Bool)

structure System (key : Tuple → κ) where
  state : StateVector key
  clock : Clock
  log : List (Evaluation key)
  requests : List (Request key)

variable {key : Tuple → κ} (D : ChallengeNetwork)

namespace Request

def challenge (q : Request key) : Challenge :=
  q.client.challenge q.objectId q.relation q.grantee q.nonce

def preCheck (q : Request key) : Bool :=
  q.client.preCheck D.hmac16 q.objectId q.relation q.grantee

def payload (q : Request key) : Bytes := q.challenge.toPayload D.hmac16 D.encode

/-- A call begins with the local pre-check, and ends there if it fails. -/
def start (port : ChallengePort) (client : ChallengeClient key) (objectId relation : String)
    (grantee : Hash) (nonce : Nonce) (begun : ℕ) : Request key :=
  { port, client, objectId, relation, grantee, nonce, begun
    result := if client.preCheck D.hmac16 objectId relation grantee then none
      else some (pure false) }

/-- The transport answers, or gives up. -/
def receive (q : Request key) (response : Response) : Request key :=
  { q with result := some (D.conclude q.client q.nonce response q.port) }

/-- Started and answered, a request gives what `authorize` of its port gives. -/
theorem receive_eq_authorize (q : Request key) (response : Response)
    (h : q.preCheck D = true) :
    (q.receive D response).result = some (match q.port with
      | .javascript => (q.client.authorize D.hmac16 D.decode D.ed25519 D.encode q.objectId
          q.relation q.grantee q.nonce fun _ => response.received).mapError .inl
      | .python => (Python.authorize D.hmac16 D.unpackb D.ed25519 D.encode q.client q.objectId
          q.relation q.grantee q.nonce fun _ => response).mapError .inr) := by
  have hcheck : q.client.preCheck D.hmac16 q.objectId q.relation q.grantee = true := h
  rw [ChallengeClient.authorize, Python.authorize, hcheck]
  change some (D.conclude q.client q.nonce response q.port) = _
  cases q.port <;> rfl

end Request

/-- Signatures cannot be forged: a receipt that a client of this port reads in the bytes and
that verifies has the pre-image of one the Authority signed. -/
def Unforged (log : List (Evaluation key)) (port : ChallengePort) (payload : Bytes) : Prop :=
  ∀ receipt, D.readReceipt payload port = .ok receipt →
    receipt.verify D.ed25519 D.publicKey = true →
    ∃ ev ∈ log, ev.receipt.preimage = receipt.preimage

/-- One step of the system; which comes next is up to the network. -/
inductive Step : System key → System key → Prop
  /-- The Authority's state changes under it. -/
  | converge {S : System key} (state : StateVector key) : Step S { S with state := state }
  | request {S : System key} {port : ChallengePort} {client : ChallengeClient key}
      {objectId relation : String} {grantee : Hash} {nonce : Nonce}
      (hkey : client.authoritativePublicKey = D.publicKey)
      (hfresh : ∀ ev ∈ S.log, ev.challenge.nonce ≠ nonce) :
      Step S { S with requests := S.requests ++
        [Request.start D port client objectId relation grantee nonce S.log.length] }
  | evaluate {S : System key} {port : ChallengePort} {payload : Bytes} {phys : ℕ}
      {challenge : DecodedChallenge} {receipt : Receipt} {clock : Clock}
      (hd : D.readChallenge payload port = .ok challenge)
      (ha : D.answer S.state S.clock phys payload port = (.ok receipt, clock)) :
      Step S { S with
        clock := clock
        log := S.log ++ [⟨port, payload, challenge, S.state, receipt⟩] }
  | refuse {S : System key} {port : ChallengePort} {payload : Bytes} {phys : ℕ} {e : PortError}
      {clock : Clock} (ha : D.answer S.state S.clock phys payload port = (.error e, clock)) :
      Step S { S with clock := clock }
  | respond {S : System key} {i : ℕ} {q : Request key} {response : Response}
      (hq : S.requests[i]? = some q) (hwait : q.result = none)
      (hunforged : ∀ payload ∈ response.received, Unforged D S.log q.port payload) :
      Step S { S with requests := S.requests.set i (q.receive D response) }

/-- Nothing has been asked yet. -/
def System.Quiet (S : System key) : Prop := S.log = [] ∧ S.requests = []

/-! ## What holds in every state -/

/-- The Authority signed its own verdict on the challenge it read. -/
structure Evaluation.Genuine (ev : Evaluation key) : Prop where
  decoded : D.readChallenge ev.payload ev.port = .ok ev.challenge
  nonce : ev.receipt.nonce = ev.challenge.nonce
  verdict : ev.receipt.verdict = verdictOf (allowed D.hmac16 D.config ev.state ev.challenge)

/-- An evaluation that answers a request: made since it began, with its nonce, an ALLOW. -/
def Request.Answers (log : List (Evaluation key)) (q : Request key) (ev : Evaluation key) : Prop :=
  ev ∈ log.drop q.begun ∧ ev.challenge.nonce = q.nonce ∧
    allowed D.hmac16 D.config ev.state ev.challenge = true

structure Request.Sound (log : List (Evaluation key)) (q : Request key) : Prop where
  key_eq : q.client.authoritativePublicKey = D.publicKey
  begun_le : q.begun ≤ log.length
  unguessed : ∀ ev ∈ log.take q.begun, ev.challenge.nonce ≠ q.nonce
  checked : q.result = none → q.preCheck D = true
  answered : q.result = some (.ok true) → q.preCheck D = true ∧ ∃ ev, q.Answers D log ev

structure System.Sound (S : System key) : Prop where
  genuine : ∀ ev ∈ S.log, ev.Genuine D
  sound : ∀ q ∈ S.requests, q.Sound D S.log

variable {D}

theorem verdictOf_eq_allow {b : Bool} (h : verdictOf b = .allow) : b = true := by
  cases b with
  | false => cases h
  | true => rfl

/-- A longer log changes nothing for a request. -/
theorem Request.Sound.append {log : List (Evaluation key)} {q : Request key} (h : q.Sound D log)
    (ev : Evaluation key) : q.Sound D (log ++ [ev]) where
  key_eq := h.key_eq
  begun_le := by
    have := h.begun_le
    rw [List.length_append]
    omega
  unguessed := by
    rw [List.take_append_of_le_length h.begun_le]
    exact h.unguessed
  checked := h.checked
  answered := by
    intro hr
    obtain ⟨hcheck, ev', hmem, hans⟩ := h.answered hr
    refine ⟨hcheck, ev', ?_, hans⟩
    rw [List.drop_append_of_le_length h.begun_le]
    exact List.mem_append_left _ hmem

theorem Request.start_sound {log : List (Evaluation key)} {port : ChallengePort}
    {client : ChallengeClient key} {objectId relation : String} {grantee : Hash} {nonce : Nonce}
    (hkey : client.authoritativePublicKey = D.publicKey)
    (hfresh : ∀ ev ∈ log, ev.challenge.nonce ≠ nonce) :
    (Request.start D port client objectId relation grantee nonce log.length).Sound D log where
  key_eq := hkey
  begun_le := le_refl _
  unguessed := fun ev hev => hfresh ev (List.mem_of_mem_take hev)
  checked := by
    intro hr
    simp only [start] at hr
    split_ifs at hr with hc
    exact hc
  answered := by
    intro hr
    simp only [start] at hr
    split_ifs at hr
    cases hr

/-- The heart of the matter: a true answer needs a signed pre-image with the request's
nonce, and the evaluation behind it cannot be older than the request. -/
theorem Request.receive_sound {log : List (Evaluation key)} {q : Request key}
    {response : Response} (h : q.Sound D log) (hwait : q.result = none)
    (hgenuine : ∀ ev ∈ log, ev.Genuine D)
    (hunforged : ∀ payload ∈ response.received, Unforged D log q.port payload) :
    (q.receive D response).Sound D log where
  key_eq := h.key_eq
  begun_le := h.begun_le
  unguessed := h.unguessed
  checked := by
    intro hr
    cases hr
  answered := by
    intro hr
    obtain ⟨payload, receipt, rfl, hreceipt, hnonce, hverify, hallow⟩ :=
      ChallengeNetwork.conclude_eq_true (Option.some.inj hr)
    rw [h.key_eq] at hverify
    -- what was signed fixes verdict and nonce, and nothing of the request
    obtain ⟨ev, hev, hpre⟩ := hunforged payload rfl receipt hreceipt hverify
    obtain ⟨hverdict, -, hsame⟩ := Receipt.preimage_inj hpre
    have hn : ev.challenge.nonce = q.nonce := by
      rw [← (hgenuine ev hev).nonce, hsame, hnonce]
    have hrecent : ev ∈ log.drop q.begun := by
      rw [← List.take_append_drop q.begun log] at hev
      -- before the request began no challenge had this nonce
      rcases List.mem_append.mp hev with hold | hnew
      · exact absurd hn (h.unguessed ev hold)
      · exact hnew
    have hyes : allowed D.hmac16 D.config ev.state ev.challenge = true := by
      refine verdictOf_eq_allow ?_
      rw [← (hgenuine ev hev).verdict, hverdict, hallow]
    exact ⟨h.checked hwait, ev, hrecent, hn, hyes⟩

theorem step_sound {S S' : System key} (h : S.Sound D) (hstep : Step D S S') : S'.Sound D := by
  cases hstep with
  | converge state => exact ⟨h.genuine, h.sound⟩
  | refuse ha => exact ⟨h.genuine, h.sound⟩
  | request hkey hfresh =>
    refine ⟨h.genuine, fun q hq => ?_⟩
    rcases List.mem_append.mp hq with hold | hnew
    · exact h.sound q hold
    · obtain rfl := List.mem_singleton.mp hnew
      exact Request.start_sound hkey hfresh
  | @evaluate port payload phys challenge receipt clock hd ha =>
    refine ⟨fun ev hev => ?_, fun q hq => (h.sound q hq).append _⟩
    rcases List.mem_append.mp hev with hold | hnew
    · exact h.genuine ev hold
    · obtain rfl := List.mem_singleton.mp hnew
      obtain ⟨decoded, hd', hnonce, hverdict⟩ := ChallengeNetwork.answer_eq_ok ha
      obtain rfl := Except.ok.inj (hd.symm.trans hd')
      exact ⟨hd, hnonce, hverdict⟩
  | @respond i q response hq hwait hunforged =>
    have hmem : q ∈ S.requests := List.mem_of_getElem? hq
    refine ⟨h.genuine, fun q' hq' => ?_⟩
    rcases List.mem_or_eq_of_mem_set hq' with hold | rfl
    · exact h.sound q' hold
    · exact Request.receive_sound (h.sound q hmem) hwait h.genuine hunforged

theorem run_sound {S₀ S : System key} (h₀ : S₀.Quiet) (h : ReflTransGen (Step D) S₀ S) :
    S.Sound D := by
  induction h with
  | refl =>
    obtain ⟨hlog, hreq⟩ := h₀
    exact ⟨by simp [hlog], by simp [hreq]⟩
  | tail _ hstep ih => exact step_sound ih hstep

/-- A true answer means that the request passed the local check and that, after it began,
the Authority read a challenge with its nonce and allowed what that challenge asks.  It is
the client's own challenge unless one with the same nonce but other bytes was answered. -/
theorem receipt_binds_nonce {S₀ S : System key} (h₀ : S₀.Quiet) (h : ReflTransGen (Step D) S₀ S)
    {q : Request key} (hq : q ∈ S.requests) (hr : q.result = some (.ok true)) :
    q.preCheck D = true ∧ ∃ ev, q.Answers D S.log ev ∧ ev.Genuine D ∧
      (D.Unpacks (q.payload D) q.challenge ev.port →
        (∀ ev' ∈ S.log, ev'.challenge.nonce = q.nonce → ev'.payload = q.payload D) →
        ev.challenge = q.challenge.decoded D.hmac16) := by
  have hsound := run_sound h₀ h
  obtain ⟨hcheck, ev, hans⟩ := (hsound.sound q hq).answered hr
  have hev : ev ∈ S.log := List.mem_of_mem_drop hans.1
  have hgenuine := hsound.genuine ev hev
  refine ⟨hcheck, ev, hans, hgenuine, fun hcodec hsame => ?_⟩
  have hread := hgenuine.decoded
  rw [hsame ev hev hans.2.1] at hread
  exact Except.ok.inj (hread.symm.trans (ChallengeNetwork.readChallenge_of_unpacks hcodec))

end System

/-! ## A run with another challenge -/

section Substitution

/-- The Authority's key signs by padding. -/
def padded (m : Bytes) : Signature := ⟨(m ++ List.replicate 64 0).take 64, by simp⟩

mutual

/-- The scene's challenges and receipts as Python unpacks them. -/
def JsValue.unpacked : JsValue → WireValue
  | .number (.finite q) => .int q.num false
  | .bigint n => .int n true
  | .bytes b => .bin b
  | .array vs => .array (unpackedAll vs)
  | _ => .nil

def JsValue.unpackedAll : List JsValue → List WireValue
  | [] => []
  | v :: vs => v.unpacked :: unpackedAll vs

end

/-- The anchor 0 is the Authority; labels are told apart by their length. -/
def authority : ChallengeNetwork where
  hmac16 _ label := Blob.fill 16 (UInt8.ofNat label.length)
  encode := pack
  decode := unpackAll
  ed25519 key m sig := decide (key = Blob.fill 32 0) && decide (sig = padded m)
  config := Engine.sceneConfig
  sign := padded
  publicKey := Blob.fill 64 0
  unpackb data := (unpackAll data).map JsValue.unpacked

/-- Identity 2 holds the relation as far as this client knows, and identity 1 holds it at the
Authority. -/
def client : ChallengeClient Tuple.key where
  config := { Engine.sceneConfig with authoritativeIdentity := some (Engine.identity 0) }
  state := Engine.granted [Engine.permit 0 2 (Blob.fill 16 3)]
  authoritativePublicKey := Blob.fill 64 0
  configured := by simp

def quiet : System Tuple.key where
  state := Engine.granted [Engine.permit 0 1 (Blob.fill 16 3)]
  clock := {}
  log := []
  requests := []

def drawn : Nonce := Blob.fill 32 5

def asked (port : ChallengePort) : Request Tuple.key :=
  Request.start authority port client "lamp" "use" (Engine.identity 2) drawn 0

/-- The client's challenge with the grantee replaced. -/
def substitute : DecodedChallenge where
  nonce := drawn
  grantee := Engine.identity 1
  entries := ((asked .javascript).challenge.decoded authority.hmac16).entries.map fun e =>
    { e with granteeHash := Engine.identity 1 }

def substitutePayload : Bytes :=
  pack (.array [.bytes drawn.val, .array (substitute.entries.map DecodedEntry.toValue)])

/-- The Authority's ALLOW at its first clock reading. -/
def permission : Receipt :=
  (⟨.allow, 65536, drawn, none, by decide⟩ : Receipt).sign padded

def permissionPayload : Bytes :=
  pack (.array [.number (.finite 1), .bigint 65536, .bytes drawn.val,
    .bytes (padded permission.preimage).val])

def answered (port : ChallengePort) : Request Tuple.key :=
  (asked port).receive authority (.bytes permissionPayload)

/-- The client asks, an Authority of the same port reads the payload in this state, and its
receipt reaches the client. -/
def relayed (port : ChallengePort) (state : StateVector Tuple.key) (payload : Bytes)
    (challenge : DecodedChallenge) : System Tuple.key where
  state := state
  clock := ⟨1, 0⟩
  log := [⟨port, payload, challenge, state, permission⟩]
  requests := [answered port]

theorem permission_read (port : ChallengePort) :
    authority.readReceipt permissionPayload port = .ok permission := by
  apply eq_ok_of_toOption
  cases port <;> decide +kernel

theorem asked_answered (port : ChallengePort) : (answered port).result = some (.ok true) := by
  refine congrArg some (eq_ok_of_toOption ?_)
  cases port <;> decide +kernel

theorem relayed_reachable {port : ChallengePort} {state : StateVector Tuple.key} {payload : Bytes}
    {challenge : DecodedChallenge} (hd : authority.readChallenge payload port = .ok challenge)
    (ha : authority.answer state {} 1 payload port = (.ok permission, ⟨1, 0⟩)) :
    ReflTransGen (Step authority) quiet (relayed port state payload challenge) := by
  have hconverge : Step authority quiet { quiet with state := state } := .converge state
  have hrequest : Step authority { quiet with state := state }
      { quiet with state := state, requests := [asked port] } :=
    .request rfl fun ev hev => absurd hev List.not_mem_nil
  have hevaluate : Step authority { quiet with state := state, requests := [asked port] }
      { relayed port state payload challenge with requests := [asked port] } := .evaluate hd ha
  have hrespond : Step authority
      { relayed port state payload challenge with requests := [asked port] }
      (relayed port state payload challenge) := by
    refine .respond (i := 0) (q := asked port) rfl (by cases port <;> decide +kernel) ?_
    intro b hb receipt hreceipt _
    obtain rfl := Option.some.inj hb
    obtain rfl := Except.ok.inj ((permission_read port).symm.trans hreceipt)
    exact ⟨_, List.mem_singleton_self _, rfl⟩
  exact ((ReflTransGen.single hconverge).tail hrequest).tail hevaluate |>.tail hrespond

/-- The network keeps the nonce and replaces the rest: the client is told ALLOW though the
Authority read nothing of its request, and would have denied it. -/
theorem substitution_allows :
    quiet.Quiet ∧ ∃ S, ReflTransGen (Step authority) quiet S ∧ ∃ q ∈ S.requests,
      q.result = some (.ok true) ∧ ∀ ev ∈ S.log,
        ev.challenge ≠ q.challenge.decoded authority.hmac16 ∧
          allowed authority.hmac16 authority.config ev.state
            (q.challenge.decoded authority.hmac16) = false := by
  refine ⟨⟨rfl, rfl⟩, relayed .javascript quiet.state substitutePayload substitute, ?_,
    answered .javascript, List.mem_singleton_self _, asked_answered .javascript, ?_⟩
  · exact relayed_reachable (eq_ok_of_toOption (by decide +kernel))
      (Prod.ext (eq_ok_of_toOption (by decide +kernel)) (by decide +kernel))
  · intro ev hev
    obtain rfl := List.mem_singleton.mp hev
    constructor <;> decide +kernel

/-- The same run in Python with the client's own payload, at an Authority that grants the
relation. -/
def honest : System Tuple.key :=
  relayed .python client.state ((asked .python).payload authority)
    ((asked .python).challenge.decoded authority.hmac16)

theorem honest_reachable : ReflTransGen (Step authority) quiet honest :=
  relayed_reachable (eq_ok_of_toOption (by decide +kernel))
    (Prod.ext (eq_ok_of_toOption (by decide +kernel)) (by decide +kernel))

/-- Where the Authority's state grants the relation too, its receipt is for the client's own
challenge. -/
theorem receipt_binds_nonce_relayed :
    (answered .python).preCheck authority = true ∧
      ∃ ev, (answered .python).Answers authority (honest.log) ev ∧ ev.Genuine authority ∧
        (authority.Unpacks ((answered .python).payload authority) (answered .python).challenge
            ev.port →
          (∀ ev' ∈ honest.log, ev'.challenge.nonce = (answered .python).nonce →
            ev'.payload = (answered .python).payload authority) →
          ev.challenge = (answered .python).challenge.decoded authority.hmac16) :=
  receipt_binds_nonce ⟨rfl, rfl⟩ honest_reachable (List.mem_singleton_self (answered .python))
    (asked_answered .python)

end Substitution

end Dacar

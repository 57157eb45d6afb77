import Dacar.Engine
import Dacar.JsValue
import Dacar.Verifier

/-!
# The Strict Consistency Challenge

Before a destructive operation a client asks the Authority for a signed verdict.  The
challenge carries the request hashed under every salt of the client and a nonce; the
receipt carries the verdict, the Authority's clock and that nonce, and its signature
covers these three.
-/

namespace Dacar

/-- Signing with the Authority's private key. -/
abbrev Ed25519Sign := Bytes → Signature

/-- One salt's hypothesis on the wire. -/
structure DecodedEntry where
  saltIdTag : Hash
  granteeHash : Hash
  allowRelationHash : Hash
  denyRelationHash : Hash
  objectHashes : List Hash
  deriving DecidableEq

structure DecodedChallenge where
  nonce : Nonce
  grantee : Hash
  entries : List DecodedEntry
  deriving DecidableEq

def DecodedEntry.toValue (e : DecodedEntry) : JsValue :=
  .array [.bytes e.saltIdTag.val, .bytes e.granteeHash.val, .bytes e.allowRelationHash.val,
    .bytes e.denyRelationHash.val, .array (e.objectHashes.map fun h => .bytes h.val)]

/-- `grantee` is the one that all entries so far share. -/
def DecodedEntry.fromValue (grantee : Option Hash) : JsValue → Except DecodeError DecodedEntry
  | .array [saltIdTag, granteeHash, allowRh, denyRh, objectHashes] => do
    let objectHashes ← match objectHashes with
      | .array hs => pure hs
      | _ => throw (.error "object_segment_hashes must be an array")
    let gh ← expectBytes 16 "grantee_hash" granteeHash
    if grantee.any fun g => decide (g ≠ gh) then
      throw (.error "all challenge entries must share one grantee")
    let saltIdTag ← expectBytes 16 "salt_id_tag" saltIdTag
    let allowRh ← expectBytes 16 "allow_relation_hash" allowRh
    let denyRh ← expectBytes 16 "deny_relation_hash" denyRh
    let objectHashes ← objectHashes.mapM (expectBytes 16 "object_hash")
    pure ⟨saltIdTag, gh, allowRh, denyRh, objectHashes⟩
  | _ => throw (.error "each challenge entry must be a 5-element array")

namespace DecodedChallenge

/-- The decoding loop, with the grantee it has met. -/
def entriesFromValues :
    Option Hash → List JsValue → Except DecodeError (Option Hash × List DecodedEntry)
  | grantee, [] => pure (grantee, [])
  | grantee, v :: vs => do
    let e ← DecodedEntry.fromValue grantee v
    let rest ← entriesFromValues (some e.granteeHash) vs
    pure (rest.1, e :: rest.2)

def fromValue : JsValue → Except DecodeError DecodedChallenge
  | .array [nonce, entries] => do
    let nonce ← expectBytes 32 "nonce" nonce
    match entries with
    | .array vs => do
      let decoded ← entriesFromValues none vs
      match decoded.1 with
      | some grantee => pure ⟨nonce, grantee, decoded.2⟩
      | none => throw (.error "challenge must carry at least one entry")
    | _ => throw (.error "challenge entries must be an array")
  | _ => throw (.error "challenge payload must be a 2-element MessagePack array")

/-- `Challenge.fromPayload`. -/
def fromPayload (decode : MsgPackDecode) (data : Bytes) : Except DecodeError DecodedChallenge :=
  match decode data with
  | .error _ => throw .platform
  | .ok v => fromValue v

end DecodedChallenge

/-- A request as the client holds it, labels in plaintext. -/
structure Challenge where
  object : String
  relation : String
  grantee : Hash
  nonce : Nonce
  hashers : List NamespaceHasher
  hashers_ne : hashers ≠ []

namespace Challenge

variable (hmac16 : Hmac16)

def entry (c : Challenge) (hasher : NamespaceHasher) : DecodedEntry where
  saltIdTag := hasher.idTag hmac16
  granteeHash := c.grantee
  allowRelationHash := hasher.hashRelation hmac16 c.relation
  denyRelationHash := hasher.hashRelation hmac16 ("-" ++ c.relation)
  objectHashes := (hasher.hashObject hmac16 c.object).hashes

/-- What the Authority is to read from the payload. -/
def decoded (c : Challenge) : DecodedChallenge where
  nonce := c.nonce
  grantee := c.grantee
  entries := c.hashers.map (c.entry hmac16)

def toValue (c : Challenge) : JsValue :=
  .array [.bytes c.nonce.val, .array (c.hashers.map fun h => (c.entry hmac16 h).toValue)]

def toPayload (encode : MsgPackEncode) (c : Challenge) : Bytes := encode (c.toValue hmac16)

end Challenge

theorem DecodedEntry.fromValue_toValue (e : DecodedEntry) {grantee : Option Hash}
    (h : ∀ g ∈ grantee, g = e.granteeHash) :
    DecodedEntry.fromValue grantee e.toValue = .ok e := by
  have hsame : (grantee.any fun g => decide (g ≠ e.granteeHash)) = false := by
    cases grantee with
    | none => rfl
    | some g => simp [h g rfl]
  rw [DecodedEntry.toValue, DecodedEntry.fromValue]
  simp only [pure_bind, expectBytes_val, mapM_expectBytes_val]
  change (if (grantee.any fun g => decide (g ≠ e.granteeHash)) = true then _ else _) = _
  rw [hsame]
  rfl

theorem entriesFromValues_toValue {grantee : Hash} (es : List DecodedEntry)
    (h : ∀ e ∈ es, e.granteeHash = grantee) :
    DecodedChallenge.entriesFromValues (some grantee) (es.map DecodedEntry.toValue) =
      .ok (some grantee, es) := by
  induction es with
  | nil => rfl
  | cons e es ih =>
    have he : e.granteeHash = grantee := h e List.mem_cons_self
    rw [List.map_cons, DecodedChallenge.entriesFromValues,
      e.fromValue_toValue (by simp [he])]
    change (DecodedChallenge.entriesFromValues (some e.granteeHash) _ >>= _) = _
    rw [he, ih fun x hx => h x (List.mem_cons_of_mem e hx)]
    rfl

/-- The first entry fixes the grantee. -/
theorem entriesFromValues_none {grantee : Hash} {es : List DecodedEntry} (hne : es ≠ [])
    (h : ∀ e ∈ es, e.granteeHash = grantee) :
    DecodedChallenge.entriesFromValues none (es.map DecodedEntry.toValue) =
      .ok (some grantee, es) := by
  obtain ⟨e, es, rfl⟩ := List.exists_cons_of_ne_nil hne
  have he : e.granteeHash = grantee := h e List.mem_cons_self
  rw [List.map_cons, DecodedChallenge.entriesFromValues, e.fromValue_toValue (by simp)]
  change (DecodedChallenge.entriesFromValues (some e.granteeHash) _ >>= _) = _
  rw [he, entriesFromValues_toValue es fun x hx => h x (List.mem_cons_of_mem e hx)]
  rfl

/-- The Authority reads back what the client meant. -/
theorem Challenge.fromValue_toValue (hmac16 : Hmac16) (c : Challenge) :
    DecodedChallenge.fromValue (c.toValue hmac16) = .ok (c.decoded hmac16) := by
  have hes : c.hashers.map (fun h => (c.entry hmac16 h).toValue) =
      (c.hashers.map (c.entry hmac16)).map DecodedEntry.toValue := by
    rw [List.map_map]
    rfl
  have hgrantee : ∀ e ∈ c.hashers.map (c.entry hmac16), e.granteeHash = c.grantee := by
    intro e he
    obtain ⟨h, -, rfl⟩ := List.mem_map.mp he
    rfl
  rw [Challenge.toValue, hes, DecodedChallenge.fromValue, expectBytes_val]
  change (DecodedChallenge.entriesFromValues none _ >>= _) = _
  rw [entriesFromValues_none (by simpa using c.hashers_ne) hgrantee]
  rfl

/-! ## Receipts -/

inductive Verdict
  | deny
  | allow
  deriving DecidableEq

def Verdict.byte : Verdict → UInt8
  | .deny => 0x00
  | .allow => 0x01

def Verdict.toValue : Verdict → JsValue
  | .deny => .number (.finite 0)
  | .allow => .number (.finite 1)

def Verdict.ofValue : JsValue → Except DecodeError Verdict
  | .number (.finite q) =>
    if q = 1 then .ok .allow
    else if q = 0 then .ok .deny
    else .error (.unknown "verdict byte" (.number (.finite q)))
  | v => .error (.unknown "verdict byte" v)

/-- A Freshness Receipt; the signature is missing until it is signed. -/
@[ext] structure Receipt where
  verdict : Verdict
  serverHlc : ℕ
  nonce : Nonce
  signature : Option Signature
  hlc_le : serverHlc ≤ maxHlc

namespace Receipt

instance : DecidableEq Receipt := fun _ _ => decidable_of_iff _ Receipt.ext_iff.symm

/-- The fields before the signature. -/
def preimage (r : Receipt) : Bytes :=
  r.verdict.byte :: (bigEndian 8 r.serverHlc ++ r.nonce.val)

def sign (sign : Ed25519Sign) (r : Receipt) : Receipt :=
  { r with signature := some (sign r.preimage) }

/-- `validate` looks at the Ed25519 half of the key. -/
def verify (ed25519 : Ed25519) (publicKey : RnsPublicKey) (r : Receipt) : Bool :=
  r.signature.any fun sig => ed25519 publicKey.ed25519 r.preimage sig

/-- Only a signed receipt has a payload. -/
def toPayload (encode : MsgPackEncode) (r : Receipt) : Except DecodeError Bytes :=
  match r.signature with
  | none => throw (.error "Receipt must be signed before payload serialization")
  | some sig => pure (encode
      (.array [r.verdict.toValue, .bigint r.serverHlc, .bytes r.nonce.val, .bytes sig.val]))

def fromValue : JsValue → Except DecodeError Receipt
  | .array [verdict, serverHlc, nonce, signature] => do
    let verdict ← Verdict.ofValue verdict
    let serverHlc ← expectBigInt serverHlc
    let nonce ← expectBytes 32 "nonce" nonce
    let signature ← expectBytes 64 "signature" signature
    if h : 0 ≤ serverHlc ∧ serverHlc ≤ maxHlc then
      pure ⟨verdict, serverHlc.toNat, nonce, some signature, by omega⟩
    else throw (.error "serverHlc must be a bigint in [0, 2^64)")
  | _ => throw (.error "receipt payload must be a 4-element MessagePack array")

def fromPayload (decode : MsgPackDecode) (data : Bytes) : Except DecodeError Receipt :=
  match decode data with
  | .error _ => throw .platform
  | .ok v => fromValue v

/-- The pre-image determines what it is made of. -/
theorem preimage_inj {r r' : Receipt} (h : r.preimage = r'.preimage) :
    r.verdict = r'.verdict ∧ r.serverHlc = r'.serverHlc ∧ r.nonce = r'.nonce := by
  have hcons := List.cons.inj h
  have hlen : (bigEndian 8 r.serverHlc).length = (bigEndian 8 r'.serverHlc).length := by simp
  have hhlc := List.append_inj_left hcons.2 hlen
  have hnonce := List.append_inj_right hcons.2 hlen
  refine ⟨?_, bigEndian_injective ?_ ?_ hhlc, Subtype.ext hnonce⟩
  · have hbyte := hcons.1
    cases hv : r.verdict <;> cases hv' : r'.verdict <;> simp_all [Verdict.byte]
  · have := r.hlc_le
    simp only [maxHlc] at this
    omega
  · have := r'.hlc_le
    simp only [maxHlc] at this
    omega

end Receipt

/-! ## The Authority -/

section Authority

variable (hmac16 : Hmac16)

/-- Bind each entry to the configured salt its tag names; entries of unknown salts are
skipped. -/
def buildHypotheses (config : Config) (decoded : DecodedChallenge) : List Hypothesis :=
  let byTag : OrderedMap Hash NamespaceHasher :=
    -- of two salts with one tag the later stays
    config.hashers.foldl (fun m hasher => m.upsert (hasher.idTag hmac16) fun _ => hasher) .empty
  decoded.entries.filterMap fun entry =>
    (byTag.get? entry.saltIdTag).map fun hasher =>
      { hasher
        objectHashes := entry.objectHashes
        allowRelationHash := entry.allowRelationHash
        denyRelationHash := entry.denyRelationHash
        adminAllowHash := hasher.hashRelation hmac16 adminRelation
        adminDenyHash := hasher.hashRelation hmac16 ("-" ++ adminRelation) }

variable {κ : Type*} [DecidableEq κ] {key : Tuple → κ}

/-- The Authority's answer to a challenge on its present state. -/
def allowed (config : Config) (state : StateVector key) (decoded : DecodedChallenge) : Bool :=
  let hypotheses := buildHypotheses hmac16 config decoded
  !hypotheses.isEmpty &&
    Engine.evaluateHashes ⟨config, state, {}⟩ decoded.grantee hypotheses

def verdictOf (allowed : Bool) : Verdict := if allowed then .allow else .deny

variable (decode : MsgPackDecode) (sign : Ed25519Sign)

/-- `handle` up to the signed receipt, at wall-clock reading `phys`. -/
def answer (config : Config) (state : StateVector key) (clock : Clock) (phys : ℕ)
    (challengePayload : Bytes) : Except DecodeError Receipt × Clock :=
  match DecodedChallenge.fromPayload decode challengePayload with
  | .error e => (.error e, clock)
  | .ok decoded =>
    let verdict := verdictOf (allowed hmac16 config state decoded)
    match h : (clock.now phys).1 with
    | none => (.error .platform, (clock.now phys).2)
    | some serverHlc =>
      let receipt : Receipt := ⟨verdict, serverHlc, decoded.nonce, none, Clock.now_le h⟩
      (.ok (receipt.sign sign), (clock.now phys).2)

/-- `AuthoritativeServer.handle`. -/
def handle (encode : MsgPackEncode) (config : Config) (state : StateVector key) (clock : Clock)
    (phys : ℕ) (challengePayload : Bytes) : Except DecodeError Bytes × Clock :=
  let answered := answer hmac16 decode sign config state clock phys challengePayload
  (answered.1.bind (Receipt.toPayload encode), answered.2)

variable {hmac16 decode sign}

/-- A receipt repeats the nonce of its challenge and carries the verdict on it. -/
theorem answer_eq_ok {config : Config} {state : StateVector key} {clock clock' : Clock} {phys : ℕ}
    {payload : Bytes} {receipt : Receipt}
    (h : answer hmac16 decode sign config state clock phys payload = (.ok receipt, clock')) :
    ∃ decoded, DecodedChallenge.fromPayload decode payload = .ok decoded ∧
      receipt.nonce = decoded.nonce ∧
      receipt.verdict = verdictOf (allowed hmac16 config state decoded) := by
  unfold answer at h
  cases hd : DecodedChallenge.fromPayload decode payload with
  | error e =>
    rw [hd] at h
    cases h
  | ok decoded =>
    rw [hd] at h
    dsimp only at h
    split at h
    · cases h
    · obtain rfl := Except.ok.inj (Prod.mk.inj h).1
      exact ⟨decoded, rfl, rfl, rfl⟩

end Authority

/-! ## The client -/

/-- A client of a configured Authority, with the Authority's public key. -/
structure ChallengeClient {κ : Type*} [DecidableEq κ] (key : Tuple → κ) where
  config : Config
  state : StateVector key
  authoritativePublicKey : RnsPublicKey
  configured : config.authoritativeIdentity ≠ none

namespace ChallengeClient

variable {κ : Type*} [DecidableEq κ] {key : Tuple → κ}

/-- `Challenge.generate` with the nonce drawn. -/
def challenge (c : ChallengeClient key) (objectId relation : String) (grantee : Hash)
    (nonce : Nonce) : Challenge :=
  ⟨objectId, relation, grantee, nonce, c.config.hashers, by simp [Config.hashers]⟩

variable (hmac16 : Hmac16) (decode : MsgPackDecode) (ed25519 : Ed25519)

def preCheck (c : ChallengeClient key) (objectId relation : String) (grantee : Hash) : Bool :=
  Engine.evaluate hmac16 ⟨c.config, c.state, {}⟩ objectId relation grantee

/-- What `authorize` makes of a response; `none` is a partition. -/
def conclude (c : ChallengeClient key) (nonce : Nonce) :
    Option Bytes → Except DecodeError Bool
  | none => pure false
  | some receiptPayload => do
    -- bytes that are no receipt make the call throw, they do not deny
    let receipt ← Receipt.fromPayload decode receiptPayload
    if receipt.nonce ≠ nonce then pure false
    else if !receipt.verify ed25519 c.authoritativePublicKey then pure false
    else pure (decide (receipt.verdict = .allow))

/-- `authorize`, with a nonce and a transport that answers the one challenge. -/
def authorize (encode : MsgPackEncode) (c : ChallengeClient key) (objectId relation : String)
    (grantee : Hash) (nonce : Nonce) (transport : Bytes → Option Bytes) :
    Except DecodeError Bool :=
  if !c.preCheck hmac16 objectId relation grantee then pure false
  else c.conclude decode ed25519 nonce
    (transport ((c.challenge objectId relation grantee nonce).toPayload hmac16 encode))

variable {hmac16 decode ed25519}

/-- Only a verified receipt of an ALLOW with the right nonce makes it true. -/
theorem conclude_eq_true {c : ChallengeClient key} {nonce : Nonce} {response : Option Bytes}
    (h : c.conclude decode ed25519 nonce response = .ok true) :
    ∃ payload receipt, response = some payload ∧
      Receipt.fromPayload decode payload = .ok receipt ∧ receipt.nonce = nonce ∧
      receipt.verify ed25519 c.authoritativePublicKey = true ∧ receipt.verdict = .allow := by
  cases response with
  | none => cases h
  | some payload =>
    rw [conclude] at h
    cases hr : Receipt.fromPayload decode payload with
    | error e =>
      rw [hr] at h
      cases h
    | ok receipt =>
      rw [hr] at h
      change (if receipt.nonce ≠ nonce then pure false
        else if !receipt.verify ed25519 c.authoritativePublicKey then pure false
        else pure (decide (receipt.verdict = .allow)) : Except DecodeError Bool) = _ at h
      split_ifs at h with hn hv
      · cases h
      · cases h
      · refine ⟨payload, receipt, rfl, hr, not_not.mp hn, ?_, of_decide_eq_true (Except.ok.inj h)⟩
        simpa using hv

end ChallengeClient

end Dacar

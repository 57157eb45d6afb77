import Dacar.Challenge
import Dacar.PayloadAgreement

/-!
# The challenge in Python

The Authority and the client of the Python port.  Their decoder accepts exactly the wire forms
of challenges that name one grantee; the loop is the one that C++ has too.
-/

namespace Dacar

open Fallible

/-! ## The decoding loop -/

section Decoder

variable {ε α : Type} (error : String → ε) (nonceOf : WireValue → Except ε Nonce)
  (entryOf : WireValue → Except ε α) (granteeHash : α → Hash)

/-- The loop over the entries, with the grantee it has met. -/
def readEntries : Option Hash → List WireValue → Except ε (Option Hash × List α)
  | grantee, [] => pure (grantee, [])
  | grantee, v :: vs => do
    let entry ← entryOf v
    if grantee.any fun g => decide (g ≠ granteeHash entry) then
      throw (error "all challenge entries must share one grantee")
    else
      let rest ← readEntries (some (granteeHash entry)) vs
      pure (rest.1, entry :: rest.2)

def readChallenge : WireValue → Except ε (Nonce × Hash × List α)
  | .array [nonce, entries] => do
    let nonce ← nonceOf nonce
    match entries with
    | .array vs => do
      let decoded ← readEntries error entryOf granteeHash none vs
      match decoded.1 with
      | some grantee => pure (nonce, grantee, decoded.2)
      | none => throw (error "challenge must carry at least one entry")
    | _ => throw (error "challenge entries must be an array")
  | _ => throw (error "challenge payload must be a 2-element MessagePack array")

end Decoder

/-! ## What Python reads as a challenge -/

namespace Python

/-- `_expect_blob(value, length, name)` -/
def expectBlob (length : ℕ) (name : String) : WireValue → Except ValueError (Blob length)
  | .bin b =>
    if h : b.length = length then .ok ⟨b, h⟩
    else .error (.error s!"{name} must be a {length}-byte binary blob")
  | _ => .error (.error s!"{name} must be a {length}-byte binary blob")

/-- One turn of the loop of `Challenge.from_payload`. -/
def DecodedEntry.fromValue : WireValue → Except ValueError Dacar.DecodedEntry
  | .array [saltIdTag, granteeHash, allowRh, denyRh, objHashes] => do
    let saltIdTag ← expectBlob 16 "salt_id_tag" saltIdTag
    let granteeHash ← expectBlob 16 "grantee_hash" granteeHash
    let allowRh ← expectBlob 16 "allow_relation_hash" allowRh
    let denyRh ← expectBlob 16 "deny_relation_hash" denyRh
    match objHashes with
    | .array hs => do
      let objHashes ← hs.mapM (expectBlob 16 "object segment hash")
      pure ⟨saltIdTag, granteeHash, allowRh, denyRh, objHashes⟩
    | _ => throw (.error "object_segment_hashes must be an array")
  | _ => throw (.error "each challenge entry must be a 5-element array")

/-- `Challenge.from_payload`, past the decoder. -/
def DecodedChallenge.fromValue (v : WireValue) : Except ValueError Dacar.DecodedChallenge :=
  (readChallenge .error (expectBlob 32 "nonce") DecodedEntry.fromValue
    Dacar.DecodedEntry.granteeHash v).map fun d => ⟨d.1, d.2.1, d.2.2⟩

/-- `Challenge.from_payload`; what `unpackb` raises goes through. -/
def DecodedChallenge.fromPayload (unpackb : Bytes → Except String WireValue) (data : Bytes) :
    Except ValueError Dacar.DecodedChallenge :=
  match unpackb data with
  | .error message => throw (.error message)
  | .ok v => fromValue v

end Python

/-! ## Wire forms -/

def DecodedEntry.toWire (e : DecodedEntry) : WireValue :=
  .array [.bin e.saltIdTag.val, .bin e.granteeHash.val, .bin e.allowRelationHash.val,
    .bin e.denyRelationHash.val, .array ((e.objectHashes.map Subtype.val).map .bin)]

namespace DecodedChallenge

def toWire (d : DecodedChallenge) : WireValue :=
  .array [.bin d.nonce.val, .array (d.entries.map DecodedEntry.toWire)]

/-- At least one entry, and all on the one grantee. -/
def Shared (d : DecodedChallenge) : Prop :=
  d.entries ≠ [] ∧ ∀ e ∈ d.entries, e.granteeHash = d.grantee

end DecodedChallenge

theorem mapM_eq_some_iff {α β : Type} {f : α → Option β} {g : β → α}
    (h : ∀ a b, f a = some b ↔ a = g b) (as : List α) (bs : List β) :
    as.mapM f = some bs ↔ as = bs.map g := by
  induction as generalizing bs with
  | nil => cases bs <;> simp
  | cons a as ih =>
    simp only [List.mapM_cons, Option.bind_eq_bind, Option.bind_eq_some_iff, Option.pure_def,
      Option.some.injEq, h, ih]
    cases bs with
    | nil => simp
    | cons b bs => simp

theorem toOption_expectBlob (n : ℕ) (name : String) (v : WireValue) :
    (Python.expectBlob n name v).toOption = blobOf n v := by
  cases v with
  | bin b =>
    rw [Python.expectBlob, blobOf]
    split_ifs <;> rfl
  | _ => rfl

theorem mapM_blobOf {n : ℕ} {vs : List WireValue} {bs : List (Blob n)} :
    vs.mapM (blobOf n) = some bs ↔ vs = (bs.map Subtype.val).map .bin := by
  rw [List.map_map]
  exact mapM_eq_some_iff (fun _ _ => blobOf_eq_some) vs bs

theorem pyEntry_eq_some {v : WireValue} {e : DecodedEntry} :
    (Python.DecodedEntry.fromValue v).toOption = some e ↔ v = e.toWire := by
  constructor
  · intro h
    rw [Python.DecodedEntry.fromValue.eq_def] at h
    split at h
    · simp only [toOption_bind, toOption_expectBlob, Option.bind_eq_some_iff, blobOf_eq_some] at h
      obtain ⟨tag, rfl, gh, rfl, allow, rfl, deny, rfl, h⟩ := h
      split at h
      · simp only [toOption_bind, toOption_mapM, toOption_expectBlob, Option.bind_eq_some_iff,
          mapM_blobOf] at h
        obtain ⟨segments, rfl, h⟩ := h
        obtain rfl := Option.some.inj h
        rfl
      · cases h
    · cases h
  · rintro rfl
    rw [DecodedEntry.toWire, Python.DecodedEntry.fromValue]
    simp only [toOption_bind, toOption_mapM, toOption_expectBlob, blobOf_eq_some.mpr rfl,
      Option.bind_some, mapM_blobOf.mpr rfl]
    rfl

/-- What the loops ask of the grantee met so far. -/
theorem any_ne_eq_false {grantee : Option Hash} {gh : Hash} :
    (grantee.any fun g => decide (g ≠ gh)) = false ↔ ∀ g ∈ grantee, g = gh := by
  cases grantee <;> simp

/-! ## What the loop accepts -/

/-- Each grantee hash is the one before, and `met` is the last. -/
def Chained : Option Hash → List Hash → Option Hash → Prop
  | grantee, [], met => met = grantee
  | grantee, gh :: ghs, met => (∀ g ∈ grantee, g = gh) ∧ Chained (some gh) ghs met

theorem chained_some {g g' : Hash} {ghs : List Hash} :
    Chained (some g) ghs (some g') ↔ g' = g ∧ ∀ gh ∈ ghs, gh = g := by
  induction ghs generalizing g with
  | nil => simp [Chained]
  | cons gh ghs ih =>
    rw [Chained, ih]
    constructor
    · rintro ⟨hg, rfl, hrest⟩
      obtain rfl := hg g rfl
      exact ⟨rfl, List.forall_mem_cons.mpr ⟨rfl, hrest⟩⟩
    · rintro ⟨rfl, hall⟩
      obtain ⟨rfl, hrest⟩ := List.forall_mem_cons.mp hall
      exact ⟨fun x hx => (Option.some.inj hx).symm, rfl, hrest⟩

theorem chained_none {g : Hash} {ghs : List Hash} :
    Chained none ghs (some g) ↔ ghs ≠ [] ∧ ∀ gh ∈ ghs, gh = g := by
  cases ghs with
  | nil => simp [Chained]
  | cons gh ghs =>
    rw [Chained, chained_some]
    constructor
    · rintro ⟨-, rfl, hrest⟩
      exact ⟨List.cons_ne_nil _ _, List.forall_mem_cons.mpr ⟨rfl, hrest⟩⟩
    · rintro ⟨-, hall⟩
      obtain ⟨rfl, hrest⟩ := List.forall_mem_cons.mp hall
      exact ⟨fun x hx => (Option.not_mem_none x hx).elim, rfl, hrest⟩

section Loop

variable {ε α : Type} {error : String → ε} {nonceOf : WireValue → Except ε Nonce}
  {entryOf : WireValue → Except ε α} {granteeHash : α → Hash} {wire : α → WireValue}

theorem readEntries_eq_some (hentry : ∀ v e, (entryOf v).toOption = some e ↔ v = wire e)
    {grantee met : Option Hash} {vs : List WireValue} {es : List α} :
    (readEntries error entryOf granteeHash grantee vs).toOption = some (met, es) ↔
      vs = es.map wire ∧ Chained grantee (es.map granteeHash) met := by
  induction vs generalizing grantee es with
  | nil =>
    cases es with
    | nil => simp [readEntries, Chained, Except.toOption, pure, Except.pure, eq_comm]
    | cons e es => simp [readEntries, Except.toOption, pure, Except.pure]
  | cons v vs ih =>
    rw [readEntries, toOption_bind, Option.bind_eq_some_iff]
    constructor
    · rintro ⟨e, he, h⟩
      obtain rfl := (hentry v e).mp he
      split_ifs at h with hg
      · cases h
      · rw [toOption_bind, Option.bind_eq_some_iff] at h
        obtain ⟨⟨met', es'⟩, hrest, h⟩ := h
        obtain ⟨rfl, rfl⟩ := Prod.mk.inj (Option.some.inj h)
        obtain ⟨rfl, hchain⟩ := ih.mp hrest
        exact ⟨rfl, any_ne_eq_false.mp (Bool.eq_false_iff.mpr hg), hchain⟩
    · rintro ⟨hv, hchain⟩
      cases es with
      | nil => cases hv
      | cons e es =>
        obtain ⟨rfl, rfl⟩ := List.cons.inj hv
        obtain ⟨hg, hchain⟩ := hchain
        refine ⟨e, (hentry _ e).mpr rfl, ?_⟩
        rw [if_neg (Bool.eq_false_iff.mp (any_ne_eq_false.mpr hg)), toOption_bind,
          ih.mpr ⟨rfl, hchain⟩]
        rfl

/-- A decoder accepts the wire forms of challenges that name one grantee. -/
theorem readChallenge_eq_some (hnonce : ∀ v, (nonceOf v).toOption = blobOf 32 v)
    (hentry : ∀ v e, (entryOf v).toOption = some e ↔ v = wire e) {v : WireValue} {nonce : Nonce}
    {grantee : Hash} {es : List α} :
    (readChallenge error nonceOf entryOf granteeHash v).toOption = some (nonce, grantee, es) ↔
      v = .array [.bin nonce.val, .array (es.map wire)] ∧
        es ≠ [] ∧ ∀ e ∈ es, granteeHash e = grantee := by
  have hchained : Chained none (es.map granteeHash) (some grantee) ↔
      es ≠ [] ∧ ∀ e ∈ es, granteeHash e = grantee := by
    rw [chained_none, List.forall_mem_map, Ne, List.map_eq_nil_iff]
  constructor
  · intro h
    rw [readChallenge.eq_def] at h
    split at h
    · rw [toOption_bind, hnonce, Option.bind_eq_some_iff] at h
      obtain ⟨nonce', hn, h⟩ := h
      obtain rfl := blobOf_eq_some.mp hn
      split at h
      · rw [toOption_bind, Option.bind_eq_some_iff] at h
        obtain ⟨⟨met, es'⟩, hes, h⟩ := h
        cases met with
        | none => cases h
        | some g =>
          obtain ⟨rfl, hrest⟩ := Prod.mk.inj (Option.some.inj h)
          obtain ⟨rfl, rfl⟩ := Prod.mk.inj hrest
          obtain ⟨rfl, hchain⟩ := (readEntries_eq_some hentry).mp hes
          exact ⟨rfl, hchained.mp hchain⟩
      · cases h
    · cases h
  · rintro ⟨rfl, hshared⟩
    have hes : (readEntries error entryOf granteeHash none (es.map wire)).toOption =
        some (some grantee, es) :=
      (readEntries_eq_some hentry).mpr ⟨rfl, hchained.mpr hshared⟩
    rw [readChallenge, toOption_bind, hnonce, blobOf_eq_some.mpr rfl, Option.bind_some]
    dsimp only
    rw [toOption_bind, hes]
    rfl

end Loop

theorem py_fromValue_eq_some {v : WireValue} {d : DecodedChallenge} :
    (Python.DecodedChallenge.fromValue v).toOption = some d ↔ d.Shared ∧ v = d.toWire := by
  rw [Python.DecodedChallenge.fromValue, toOption_map, Option.map_eq_some_iff]
  constructor
  · rintro ⟨⟨nonce, grantee, es⟩, h, rfl⟩
    obtain ⟨rfl, hshared⟩ := (readChallenge_eq_some (toOption_expectBlob 32 _)
      fun _ _ => pyEntry_eq_some).mp h
    exact ⟨hshared, rfl⟩
  · rintro ⟨hshared, rfl⟩
    exact ⟨(d.nonce, d.grantee, d.entries), (readChallenge_eq_some (toOption_expectBlob 32 _)
      fun _ _ => pyEntry_eq_some).mpr ⟨rfl, hshared⟩, rfl⟩

/-- The Authority reads back what the client meant. -/
theorem py_fromValue_toWire (hmac16 : Hmac16) (c : Challenge) :
    Python.DecodedChallenge.fromValue (c.decoded hmac16).toWire = .ok (c.decoded hmac16) := by
  refine eq_ok_of_toOption (py_fromValue_eq_some.mpr ⟨⟨?_, ?_⟩, rfl⟩)
  · simpa [Challenge.decoded] using c.hashers_ne
  · intro e he
    obtain ⟨h, -, rfl⟩ := List.mem_map.mp he
    rfl

/-! ## Receipts -/

namespace Python

/-- `verdict in (1, 0)` compares with `==`, and so does `Verdict(verdict)`. -/
def Verdict.ofValue : WireValue → Except ValueError Verdict
  | .int n wide =>
    if n = 1 then .ok .allow
    else if n = 0 then .ok .deny
    else .error (.about "unknown verdict byte" (.int n wide))
  | .bool b => .ok (if b then .allow else .deny)
  | .float (.finite q) =>
    if q = 1 then .ok .allow
    else if q = 0 then .ok .deny
    else .error (.about "unknown verdict byte" (.float (.finite q)))
  | v => .error (.about "unknown verdict byte" v)

namespace Receipt

theorem one_le_maxHlc : 1 ≤ maxHlc := by decide

/-- `isinstance(server_hlc, int)`, which booleans are too. -/
def expectServerHlc : WireValue → Except ValueError {n : ℕ // n ≤ maxHlc}
  | .int n _ =>
    if h : 0 ≤ n ∧ n ≤ maxHlc then .ok ⟨n.toNat, toNat_le_maxHlc h⟩
    else .error (.error "server_hlc must be a uint64 integer")
  | .bool b => .ok ⟨b.toNat, b.toNat_le.trans one_le_maxHlc⟩
  | _ => .error (.error "server_hlc must be a uint64 integer")

def fromValue : WireValue → Except ValueError Dacar.Receipt
  | .array [verdict, serverHlc, nonce, signature] => do
    let verdict ← Verdict.ofValue verdict
    let serverHlc ← expectServerHlc serverHlc
    let nonce ← expectBlob 32 "nonce" nonce
    let signature ← expectBlob 64 "signature" signature
    -- the constructor finds nothing more
    pure ⟨verdict, serverHlc.val, nonce, some signature, serverHlc.property⟩
  | _ => throw (.error "receipt payload must be a 4-element MessagePack array")

/-- `Receipt.from_payload`; what `unpackb` raises goes through. -/
def fromPayload (unpackb : Bytes → Except String WireValue) (data : Bytes) :
    Except ValueError Dacar.Receipt :=
  match unpackb data with
  | .error message => throw (.error message)
  | .ok v => fromValue v

end Receipt

end Python

/-! ## The Authority and its client -/

/-- What the transport does with a challenge. -/
inductive Response
  | bytes (receiptPayload : Bytes)
  | nothing
  | exception

/-- JavaScript and Python take silence and an exception alike, for a partition. -/
def Response.received : Response → Option Bytes
  | .bytes receiptPayload => some receiptPayload
  | .nothing | .exception => none

namespace Python

variable {κ : Type*} [DecidableEq κ] {key : Tuple → κ}

/-- What `pack` raises where a field of the clock does not fit. -/
def packError (c : Clock) : ValueError :=
  if c.lastMs > maxPhysical then .error s!"physical_ms must fit in 48 bits, got {c.lastMs}"
  else .error s!"logical must fit in 16 bits, got {c.logical}"

/-- `AuthoritativeServer.handle` up to the signed receipt, at wall-clock reading `phys`. -/
def answer (hmac16 : Hmac16) (unpackb : Bytes → Except String WireValue) (sign : Ed25519Sign)
    (config : Config) (state : StateVector key) (clock : Clock) (phys : ℕ)
    (challengePayload : Bytes) : Except ValueError Dacar.Receipt × Clock :=
  match DecodedChallenge.fromPayload unpackb challengePayload with
  | .error e => (.error e, clock)
  | .ok decoded =>
    let verdict := verdictOf (allowed hmac16 config state decoded)
    match h : (clock.now phys).1 with
    | none => (.error (packError (clock.now phys).2), (clock.now phys).2)
    | some serverHlc =>
      let receipt : Dacar.Receipt := ⟨verdict, serverHlc, decoded.nonce, none, Clock.now_le h⟩
      (.ok (receipt.sign sign), (clock.now phys).2)

theorem answer_eq_ok {hmac16 : Hmac16} {unpackb : Bytes → Except String WireValue}
    {sign : Ed25519Sign} {config : Config} {state : StateVector key} {clock clock' : Clock}
    {phys : ℕ} {payload : Bytes} {receipt : Dacar.Receipt}
    (h : answer hmac16 unpackb sign config state clock phys payload = (.ok receipt, clock')) :
    ∃ decoded, DecodedChallenge.fromPayload unpackb payload = .ok decoded ∧
      receipt.nonce = decoded.nonce ∧
      receipt.verdict = verdictOf (allowed hmac16 config state decoded) := by
  unfold answer at h
  cases hd : DecodedChallenge.fromPayload unpackb payload with
  | error e =>
    rw [hd] at h
    cases h
  | ok decoded =>
    rw [hd] at h
    dsimp only at h
    split at h
    · cases h
    · obtain rfl := Except.ok.inj (Prod.mk.inj h).1
      exact ⟨decoded, rfl, rfl, rfl⟩

/-- What `authorize` makes of what its transport did. -/
def conclude (unpackb : Bytes → Except String WireValue) (ed25519 : Ed25519)
    (c : ChallengeClient key) (nonce : Nonce) : Response → Except ValueError Bool
  | .exception => pure false
  | .nothing => pure false
  | .bytes receiptPayload => do
    -- outside the `try`
    let receipt ← Receipt.fromPayload unpackb receiptPayload
    if receipt.nonce ≠ nonce ∨ !receipt.verify ed25519 c.authoritativePublicKey then pure false
    else pure (decide (receipt.verdict = .allow))

/-- `ChallengeClient.authorize`, with the nonce drawn. -/
def authorize (hmac16 : Hmac16) (unpackb : Bytes → Except String WireValue) (ed25519 : Ed25519)
    (packb : MsgPackEncode) (c : ChallengeClient key) (objectId relation : String)
    (grantee : Hash) (nonce : Nonce) (transport : Bytes → Response) : Except ValueError Bool :=
  if !c.preCheck hmac16 objectId relation grantee then pure false
  else conclude unpackb ed25519 c nonce
    (transport ((c.challenge objectId relation grantee nonce).toPayload hmac16 packb))

/-- A true answer needs a receipt with the nonce of the challenge, which verifies and allows. -/
theorem conclude_eq_true {unpackb : Bytes → Except String WireValue} {ed25519 : Ed25519}
    {c : ChallengeClient key} {nonce : Nonce} {response : Response}
    (h : conclude unpackb ed25519 c nonce response = .ok true) :
    ∃ payload receipt, response = .bytes payload ∧
      Receipt.fromPayload unpackb payload = .ok receipt ∧ receipt.nonce = nonce ∧
      receipt.verify ed25519 c.authoritativePublicKey = true ∧ receipt.verdict = .allow := by
  cases response with
  | exception => cases h
  | nothing => cases h
  | bytes payload =>
    rw [conclude] at h
    cases hreceipt : Receipt.fromPayload unpackb payload with
    | error e =>
      rw [hreceipt] at h
      cases h
    | ok receipt =>
      rw [hreceipt] at h
      change (if receipt.nonce ≠ nonce ∨ !receipt.verify ed25519 c.authoritativePublicKey
        then pure false
        else pure (decide (receipt.verdict = .allow)) : Except ValueError Bool) = _ at h
      split_ifs at h with hbad
      · cases h
      · rw [not_or, not_not] at hbad
        exact ⟨payload, receipt, rfl, hreceipt, hbad.1, by simpa using hbad.2,
          of_decide_eq_true (Except.ok.inj h)⟩

end Python

end Dacar

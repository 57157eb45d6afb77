import Dacar.ChallengeProtocol

/-!
# What a client makes of a response

The three clients send the same challenge and judge the receipt alike.  They differ in
what they read as a receipt, and in what becomes of a response that is none: C++ denies,
Python and JavaScript let the error of the decoder through.
-/

namespace Dacar

open Fallible

variable {κ : Type*} [DecidableEq κ] {key : Tuple → κ}

/-! ## The C++ client -/

namespace Cpp

/-- The integers that `MsgPack::Unpacker` reads from the element it has come to. -/
structure Unpacker where
  /-- The element at the head of the bytes fed to it. -/
  feed : Bytes → Option WireValue
  uint8 : WireValue → Option UInt8
  uint64 : WireValue → Option UInt64

/-- `deserialize` into a `bin_t`. -/
def binOf (message : String) : WireValue → Except String Bytes
  | .bin b => .ok b
  | _ => .error message

def Verdict.ofByte (b : UInt8) : Except String Verdict :=
  if b = Verdict.allow.byte then .ok .allow
  else if b = Verdict.deny.byte then .ok .deny
  else .error "unknown verdict byte"

theorem uint64_le_maxHlc (n : UInt64) : n.toNat ≤ maxHlc := by
  have h := n.toNat_lt
  simp only [maxHlc]
  omega

namespace Receipt

/-- The constructor, which takes an empty signature too. -/
def make (verdict : Verdict) (serverHlc : UInt64) (nonce signature : Bytes) :
    Except String Dacar.Receipt :=
  if hn : nonce.length = 32 then
    if signature = [] then
      .ok ⟨verdict, serverHlc.toNat, ⟨nonce, hn⟩, none, uint64_le_maxHlc serverHlc⟩
    else if hs : signature.length = 64 then
      .ok ⟨verdict, serverHlc.toNat, ⟨nonce, hn⟩, some ⟨signature, hs⟩, uint64_le_maxHlc serverHlc⟩
    else .error "signature must be 64 bytes"
  else .error "nonce must be a 32-byte binary blob"

def fromValue (u : Unpacker) : WireValue → Except String Dacar.Receipt
  | .array [verdict, serverHlc, nonce, signature] => do
    let verdictByte ← (u.uint8 verdict).elim (.error "unknown verdict byte") .ok
    let verdict ← Verdict.ofByte verdictByte
    let serverHlc ← (u.uint64 serverHlc).elim (.error "server_hlc must be a uint64 integer") .ok
    let nonce ← binOf "nonce must be a 32-byte binary blob" nonce
    let signature ← binOf "signature must be a 64-byte binary blob" signature
    make verdict serverHlc nonce signature
  | _ => throw "receipt payload must be a 4-element MessagePack array"

/-- `Receipt::from_payload` -/
def fromPayload (u : Unpacker) (data : Bytes) : Except String Dacar.Receipt :=
  match u.feed data with
  | none => throw "receipt payload must be a 4-element MessagePack array"
  | some v => fromValue u v

end Receipt

/-- `ChallengeClient::authorize` -/
def authorize (hmac16 : Hmac16) (u : Unpacker) (ed25519 : Ed25519) (pack : MsgPackEncode)
    (c : ChallengeClient key) (objectId relation : String) (grantee : Hash) (nonce : Nonce)
    (transport : Bytes → Response) : Except String Bool :=
  if !c.preCheck hmac16 objectId relation grantee then pure false
  else
    match transport ((c.challenge objectId relation grantee nonce).toPayload hmac16 pack) with
    | .exception => pure false
    | .nothing => pure false
    -- an empty byte string is a partition too
    | .bytes [] => pure false
    | .bytes receiptPayload =>
      match Receipt.fromPayload u receiptPayload with
      | .error _ => pure false
      | .ok receipt =>
        if receipt.nonce ≠ nonce ∨ !receipt.verify ed25519 c.authoritativePublicKey then pure false
        else pure (decide (receipt.verdict = .allow))

end Cpp

/-! ## What is a receipt to each port -/

/-- The number that an element is to Python, where a boolean is one. -/
def WireValue.number : WireValue → Option ℚ
  | .int n _ => some n
  | .bool b => some b.toNat
  | .float (.finite q) => some q
  | _ => none

/-- The integer that it is to Python. -/
def WireValue.integer : WireValue → Option ℤ
  | .int n _ => some n
  | .bool b => some b.toNat
  | _ => none

/-- The Number that it is to JavaScript. -/
def WireValue.jsNumber : WireValue → Option ℚ
  | .int n false => some n
  | .float (.finite q) => some q
  | _ => none

theorem byte_toNat_injective : Function.Injective fun a : Verdict => (a.byte.toNat : ℚ) := by
  intro a b h
  have hnat : a.byte.toNat = b.byte.toNat := Nat.cast_injective h
  cases a <;> cases b <;> first | rfl | exact absurd hnat (by decide)

/-- The comparisons with 1 and 0. -/
theorem verdict_of_number {q : ℚ} {a : Verdict} :
    (if q = 1 then some Verdict.allow else if q = 0 then some .deny else none) = some a ↔
      some q = some (a.byte.toNat : ℚ) := by
  rw [Option.some.injEq]
  constructor
  · intro h
    split_ifs at h with h1 h0
    · obtain rfl := Option.some.inj h
      exact h1.trans Nat.cast_one.symm
    · obtain rfl := Option.some.inj h
      exact h0.trans Nat.cast_zero.symm
  · rintro rfl
    cases a with
    | deny => simp [Verdict.byte]
    | allow => simp [Verdict.byte]

theorem pyVerdict_eq_some {v : WireValue} {a : Verdict} :
    (Python.Verdict.ofValue v).toOption = some a ↔ v.number = some (a.byte.toNat : ℚ) := by
  cases v with
  | int n wide =>
    have h1 : (n : ℚ) = 1 ↔ n = 1 := by exact_mod_cast Iff.rfl
    have h0 : (n : ℚ) = 0 ↔ n = 0 := by exact_mod_cast Iff.rfl
    rw [WireValue.number, ← verdict_of_number, Python.Verdict.ofValue, if_congr h1 rfl
      (if_congr h0 rfl rfl)]
    refine iff_of_eq (congrArg (· = some a) ?_)
    split_ifs <;> rfl
  | bool b => cases b <;> cases a <;> simp [Python.Verdict.ofValue, WireValue.number, Verdict.byte,
      Except.toOption]
  | float y =>
    cases y with
    | finite q =>
      rw [WireValue.number, ← verdict_of_number, Python.Verdict.ofValue]
      refine iff_of_eq (congrArg (· = some a) ?_)
      split_ifs <;> rfl
    | _ => constructor <;> intro h <;> cases h
  | _ => constructor <;> intro h <;> cases h

theorem jsVerdict_eq_some {v : WireValue} {a : Verdict} :
    (Verdict.ofValue v.toJs).toOption = some a ↔ v.jsNumber = some (a.byte.toNat : ℚ) := by
  cases v with
  | int n wide =>
    cases wide with
    | true => constructor <;> intro h <;> cases h
    | false =>
      rw [WireValue.jsNumber, ← verdict_of_number, WireValue.toJs, if_neg Bool.false_ne_true,
        Verdict.ofValue]
      refine iff_of_eq (congrArg (· = some a) ?_)
      split_ifs <;> rfl
  | float y =>
    cases y with
    | finite q =>
      rw [WireValue.jsNumber, ← verdict_of_number, WireValue.toJs, Verdict.ofValue]
      refine iff_of_eq (congrArg (· = some a) ?_)
      split_ifs <;> rfl
    | _ => constructor <;> intro h <;> cases h
  | _ => constructor <;> intro h <;> cases h

theorem pyServerHlc_eq_some {v : WireValue} {n : {n : ℕ // n ≤ maxHlc}} :
    (Python.Receipt.expectServerHlc v).toOption = some n ↔ v.integer = some (n.val : ℤ) := by
  cases v with
  | int m wide =>
    rw [Python.Receipt.expectServerHlc, WireValue.integer, Option.some.injEq]
    constructor
    · intro h
      split_ifs at h with hr
      · obtain rfl := Option.some.inj h
        exact (Int.toNat_of_nonneg hr.1).symm
      · cases h
    · rintro rfl
      have hr : (0 : ℤ) ≤ (n.val : ℤ) ∧ (n.val : ℤ) ≤ maxHlc :=
        ⟨Int.natCast_nonneg _, by exact_mod_cast n.property⟩
      rw [dif_pos hr]
      rfl
  | bool b =>
    rw [Python.Receipt.expectServerHlc, WireValue.integer, Option.some.injEq, Nat.cast_inj]
    exact Option.some_inj.trans Subtype.ext_iff
  | _ => constructor <;> intro h <;> cases h

/-- Four elements: a number that is 0 or 1, an integer that fits, and the nonce and the signature
as bytes. -/
theorem pyReceipt_eq_some {v : WireValue} {r : Receipt} :
    (Python.Receipt.fromValue v).toOption = some r ↔
      ∃ verdict hlc sig, v = .array [verdict, hlc, .bin r.nonce.val, .bin sig.val] ∧
        r.signature = some sig ∧ verdict.number = some (r.verdict.byte.toNat : ℚ) ∧
        hlc.integer = some (r.serverHlc : ℤ) := by
  constructor
  · intro h
    rw [Python.Receipt.fromValue.eq_def] at h
    split at h
    · simp only [toOption_bind, toOption_expectBlob, Option.bind_eq_some_iff, blobOf_eq_some,
        pyVerdict_eq_some, pyServerHlc_eq_some] at h
      obtain ⟨verdict, hverdict, n, hn, nonce, rfl, sig, rfl, hr⟩ := h
      obtain rfl := Option.some.inj hr
      exact ⟨_, _, sig, rfl, rfl, hverdict, hn⟩
    · cases h
  · rintro ⟨verdict, hlc, sig, rfl, hsig, hverdict, hn⟩
    have hhlc : (Python.Receipt.expectServerHlc hlc).toOption = some ⟨r.serverHlc, r.hlc_le⟩ :=
      pyServerHlc_eq_some.mpr hn
    simp only [Python.Receipt.fromValue, toOption_bind, toOption_expectBlob,
      pyVerdict_eq_some.mpr hverdict, hhlc, blobOf_eq_some.mpr rfl, Option.bind_some]
    exact congrArg some (Receipt.ext rfl rfl rfl hsig.symm)

/-- The same in JavaScript, but the verdict is a Number, and the HLC may be all that `BigInt()`
takes. -/
theorem jsReceipt_eq_some {v : WireValue} {r : Receipt} :
    (Receipt.fromValue v.toJs).toOption = some r ↔
      ∃ verdict hlc sig, v = .array [verdict, hlc, .bin r.nonce.val, .bin sig.val] ∧
        r.signature = some sig ∧ verdict.jsNumber = some (r.verdict.byte.toNat : ℚ) ∧
        hlc.toJs.toBigInt = some (r.serverHlc : ℤ) := by
  have hfour (verdict hlc nonce sig : WireValue) :
      (Receipt.fromValue (WireValue.array [verdict, hlc, nonce, sig]).toJs).toOption = some r ↔
        (∃ sig', nonce = .bin r.nonce.val ∧ sig = .bin sig'.val ∧ r.signature = some sig' ∧
          verdict.jsNumber = some (r.verdict.byte.toNat : ℚ) ∧
          hlc.toJs.toBigInt = some (r.serverHlc : ℤ)) := by
    rw [WireValue.toJs, WireValue.toJsAll_eq_map]
    simp only [List.map_cons, List.map_nil, Receipt.fromValue, toOption_bind, toOption_expectBytes,
      toOption_expectBigInt, Option.bind_eq_some_iff, blobOf_eq_some, jsVerdict_eq_some]
    constructor
    · rintro ⟨a, hverdict, n, hn, nonce', rfl, sig', rfl, hr⟩
      split_ifs at hr with hrange
      · obtain rfl := Option.some.inj hr
        exact ⟨sig', rfl, rfl, rfl, hverdict, hn.trans
          (congrArg some (Int.toNat_of_nonneg hrange.1).symm)⟩
      · cases hr
    · rintro ⟨sig', rfl, rfl, hsig, hverdict, hn⟩
      have hrange : (0 : ℤ) ≤ (r.serverHlc : ℤ) ∧ (r.serverHlc : ℤ) ≤ maxHlc :=
        ⟨Int.natCast_nonneg _, by exact_mod_cast r.hlc_le⟩
      refine ⟨_, hverdict, _, hn, _, rfl, sig', rfl, ?_⟩
      rw [dif_pos hrange]
      exact congrArg some (Receipt.ext rfl rfl rfl hsig.symm)
  constructor
  · intro h
    obtain ⟨verdict, hlc, nonce, sig, rfl⟩ :
        ∃ verdict hlc nonce sig, v = .array [verdict, hlc, nonce, sig] := by
      cases v with
      | array vs =>
        rcases vs with _ | ⟨a, _ | ⟨b, _ | ⟨c, _ | ⟨d, _ | ⟨x, vs⟩⟩⟩⟩⟩
        all_goals first | exact ⟨_, _, _, _, rfl⟩ | cases h
      | int n wide => cases wide <;> cases h
      | _ => cases h
    obtain ⟨sig', rfl, rfl, hrest⟩ := (hfour _ _ _ _).mp h
    exact ⟨verdict, hlc, sig', rfl, hrest⟩
  · rintro ⟨verdict, hlc, sig, rfl, hrest⟩
    exact (hfour _ _ _ _).mpr ⟨sig, rfl, rfl, hrest⟩

theorem toOption_elim {ε α : Type} (e : ε) (o : Option α) :
    (o.elim (Except.error e) Except.ok).toOption = o := by
  cases o <;> rfl

theorem binOf_eq_some {message : String} {v : WireValue} {b : Bytes} :
    (Cpp.binOf message v).toOption = some b ↔ v = .bin b := by
  constructor
  · intro h
    cases v with
    | bin c => exact congrArg WireValue.bin (Option.some.inj h)
    | _ => cases h
  · rintro rfl
    rfl

theorem ofByte_eq_some {b : UInt8} {a : Verdict} :
    (Cpp.Verdict.ofByte b).toOption = some a ↔ b = a.byte := by
  unfold Cpp.Verdict.ofByte
  constructor
  · intro h
    split_ifs at h with h1 h0
    · obtain rfl := Option.some.inj h
      exact h1
    · obtain rfl := Option.some.inj h
      exact h0
    · cases h
  · rintro rfl
    cases a <;> rfl

/-- The signature is 64 bytes, or none at all. -/
theorem make_eq_some {verdict : Verdict} {serverHlc : UInt64} {nonce signature : Bytes}
    {r : Receipt} : (Cpp.Receipt.make verdict serverHlc nonce signature).toOption = some r ↔
      r.verdict = verdict ∧ r.serverHlc = serverHlc.toNat ∧ r.nonce.val = nonce ∧
        r.signature.elim [] Subtype.val = signature := by
  unfold Cpp.Receipt.make
  constructor
  · intro h
    split_ifs at h with hn hempty hs
    · obtain rfl := Option.some.inj h
      exact ⟨rfl, rfl, rfl, hempty.symm⟩
    · obtain rfl := Option.some.inj h
      exact ⟨rfl, rfl, rfl, rfl⟩
    · cases h
    · cases h
  · rintro ⟨rfl, hhlc, rfl, rfl⟩
    rw [dif_pos r.nonce.property]
    cases hsig : r.signature with
    | none => exact congrArg some (Receipt.ext rfl hhlc.symm rfl hsig.symm)
    | some sig =>
      have hne : sig.val ≠ [] := List.ne_nil_of_length_eq_add_one sig.property
      rw [Option.elim_some, if_neg hne, dif_pos sig.property]
      exact congrArg some (Receipt.ext rfl hhlc.symm rfl hsig.symm)

/-- In C++ the library reads the integers, and an empty signature is one too. -/
theorem cppReceipt_eq_some {u : Cpp.Unpacker} {v : WireValue} {r : Receipt} :
    (Cpp.Receipt.fromValue u v).toOption = some r ↔
      ∃ verdict hlc, v = .array [verdict, hlc, .bin r.nonce.val,
          .bin (r.signature.elim [] Subtype.val)] ∧
        u.uint8 verdict = some r.verdict.byte ∧
        (u.uint64 hlc).map UInt64.toNat = some r.serverHlc := by
  constructor
  · intro h
    rw [Cpp.Receipt.fromValue.eq_def] at h
    split at h
    · rename_i verdict serverHlc nonce signature
      simp only [toOption_bind, toOption_elim, Option.bind_eq_some_iff, binOf_eq_some,
        ofByte_eq_some, make_eq_some] at h
      obtain ⟨byte, hbyte, _, rfl, n, hn, _, rfl, _, rfl, rfl, hhlc, hnonce, hsig⟩ := h
      refine ⟨verdict, serverHlc, ?_, hbyte, ?_⟩
      · rw [hnonce, hsig]
      · rw [hn, hhlc]
        rfl
    · cases h
  · rintro ⟨verdict, hlc, rfl, hverdict, hn⟩
    obtain ⟨n, hn, hhlc⟩ := Option.map_eq_some_iff.mp hn
    simp only [Cpp.Receipt.fromValue, toOption_bind, toOption_elim, Option.bind_eq_some_iff,
      binOf_eq_some, ofByte_eq_some, make_eq_some]
    exact ⟨_, hverdict, _, rfl, n, hn, _, rfl, _, rfl, rfl, hhlc.symm, rfl, rfl⟩

/-! ## One value, three readings -/

theorem number_of_jsNumber {v : WireValue} {q : ℚ} (h : v.jsNumber = some q) :
    v.number = some q := by
  cases v with
  | int n wide =>
    cases wide with
    | true => cases h
    | false => exact h
  | float y =>
    cases y with
    | finite x => exact h
    | _ => cases h
  | _ => cases h

theorem toBigInt_of_integer {v : WireValue} {n : ℤ} (h : v.integer = some n) :
    v.toJs.toBigInt = some n := by
  cases v with
  | int m wide => exact (toBigInt_toJs_int m wide).trans h
  | bool b =>
    obtain rfl := Option.some.inj h
    cases b <;> rfl
  | _ => cases h

theorem number_of_integer {v : WireValue} {n : ℤ} (h : v.integer = some n) :
    v.number = some (n : ℚ) := by
  cases v with
  | int m wide =>
    obtain rfl := Option.some.inj h
    rfl
  | bool b =>
    obtain rfl := Option.some.inj h
    cases b <;> rfl
  | _ => cases h

/-- A value that both ports take for a receipt is the same receipt to both. -/
theorem receipt_alike {v : WireValue} {r r' : Receipt}
    (h : (Python.Receipt.fromValue v).toOption = some r)
    (h' : (Receipt.fromValue v.toJs).toOption = some r') : r = r' := by
  obtain ⟨verdict, hlc, sig, rfl, hsig, hverdict, hn⟩ := pyReceipt_eq_some.mp h
  obtain ⟨verdict', hlc', sig', hv, hsig', hverdict', hn'⟩ := jsReceipt_eq_some.mp h'
  simp only [WireValue.array.injEq, List.cons.injEq, WireValue.bin.injEq, and_true] at hv
  obtain ⟨rfl, rfl, hnonce, hbytes⟩ := hv
  have hnumber := hverdict.symm.trans (number_of_jsNumber hverdict')
  have hinteger := (toBigInt_of_integer hn).symm.trans hn'
  refine Receipt.ext (byte_toNat_injective (Option.some.inj hnumber))
    (Nat.cast_injective (Option.some.inj hinteger)) (Subtype.ext hnonce) ?_
  rw [hsig, hsig', Subtype.ext hbytes]

/-- If it reads a number into an integer type that has it, it reads that number. -/
structure Cpp.Unpacker.Exact (u : Cpp.Unpacker) : Prop where
  uint8 : ∀ v (n : ℕ) b, n < 2 ^ 8 → v.number = some (n : ℚ) → u.uint8 v = some b → b.toNat = n
  uint64 : ∀ v (n : ℕ) b, n < 2 ^ 64 → v.number = some (n : ℚ) → u.uint64 v = some b → b.toNat = n

/-- What Python takes for a receipt C++ takes for the same one, if for any. -/
theorem cpp_receipt_alike {u : Cpp.Unpacker} (hu : u.Exact) {v : WireValue} {r r' : Receipt}
    (h : (Python.Receipt.fromValue v).toOption = some r)
    (h' : (Cpp.Receipt.fromValue u v).toOption = some r') : r' = r := by
  obtain ⟨verdict, hlc, sig, rfl, hsig, hverdict, hn⟩ := pyReceipt_eq_some.mp h
  obtain ⟨verdict', hlc', hv, hverdict', hn'⟩ := cppReceipt_eq_some.mp h'
  simp only [WireValue.array.injEq, List.cons.injEq, WireValue.bin.injEq, and_true] at hv
  obtain ⟨rfl, rfl, hnonce, hbytes⟩ := hv
  have hbyte := hu.uint8 _ _ _ r.verdict.byte.toNat_lt hverdict hverdict'
  obtain ⟨n, hn', hhlc⟩ := Option.map_eq_some_iff.mp hn'
  have hlt : r.serverHlc < 2 ^ 64 := lt_of_le_of_lt r.hlc_le (by decide)
  have hint := hu.uint64 _ r.serverHlc n hlt (number_of_integer hn) hn'
  refine Receipt.ext (byte_toNat_injective (congrArg Nat.cast hbyte)) (hhlc.symm.trans hint)
    (Subtype.ext hnonce.symm) ?_
  cases hsig' : r'.signature with
  | none =>
    rw [hsig'] at hbytes
    exact absurd hbytes (List.ne_nil_of_length_eq_add_one sig.property)
  | some sig' =>
    rw [hsig'] at hbytes
    rw [hsig, Subtype.ext hbytes]

/-! ## One call, three clients -/

/-- The libraries under the clients. -/
structure ClientPlatform where
  hmac16 : Hmac16
  ed25519 : Ed25519
  encode : MsgPackEncode
  unpackb : Bytes → Except String WireValue
  msgPackDecode : MsgPackDecode
  unpacker : Cpp.Unpacker

/-- Where two of the MessagePack libraries read the same bytes, they read the same value. -/
structure ClientPlatform.Conforms (p : ClientPlatform) : Prop where
  javascript : ∀ data v w, p.unpackb data = .ok v → p.msgPackDecode data = .ok w → w = v.toJs
  cpp : ∀ data v w, p.unpackb data = .ok v → p.unpacker.feed data = some w → w = v
  exact : p.unpacker.Exact

/-- A call of `authorize` with the nonce it draws and the transport it is given. -/
structure AuthorizeCall {κ : Type*} [DecidableEq κ] (key : Tuple → κ) where
  client : ChallengeClient key
  objectId : String
  relation : String
  grantee : Hash
  nonce : Nonce
  transport : Bytes → Response

namespace AuthorizeCall

variable (p : ClientPlatform) (x : AuthorizeCall key)

def preCheck : Bool := x.client.preCheck p.hmac16 x.objectId x.relation x.grantee

def response : Response :=
  x.transport
    ((x.client.challenge x.objectId x.relation x.grantee x.nonce).toPayload p.hmac16 p.encode)

/-- The outcome in each port, `none` where the call throws. -/
def python : Option Bool :=
  (Python.authorize p.hmac16 p.unpackb p.ed25519 p.encode x.client x.objectId x.relation x.grantee
    x.nonce x.transport).toOption

def javascript : Option Bool :=
  (x.client.authorize p.hmac16 p.msgPackDecode p.ed25519 p.encode x.objectId x.relation x.grantee
    x.nonce fun payload => (x.transport payload).received).toOption

def cpp : Option Bool :=
  (Cpp.authorize p.hmac16 p.unpacker p.ed25519 p.encode x.client x.objectId x.relation x.grantee
    x.nonce x.transport).toOption

/-- The receipt that each port reads from a response. -/
def pythonReads (payload : Bytes) : Option Receipt :=
  (Python.Receipt.fromPayload p.unpackb payload).toOption

def javascriptReads (payload : Bytes) : Option Receipt :=
  (Receipt.fromPayload p.msgPackDecode payload).toOption

def cppReads : Bytes → Option Receipt
  | [] => none
  | payload => (Cpp.Receipt.fromPayload p.unpacker payload).toOption

/-- The client's own nonce, a valid signature, ALLOW. -/
def accepts (r : Receipt) : Bool :=
  decide (r.nonce = x.nonce) && r.verify p.ed25519 x.client.authoritativePublicKey &&
    decide (r.verdict = .allow)

/-- A boolean, and `true` exactly for a request allowed here and a receipt to accept. -/
def FailsClosed (reads : Bytes → Option Receipt) (outcome : Option Bool) : Prop :=
  ∃ b, outcome = some b ∧ (b = true ↔ x.preCheck p = true ∧
    ∃ payload r, x.response p = .bytes payload ∧ reads payload = some r ∧ x.accepts p r = true)

variable {p x}

theorem judge_eq (r : Receipt) :
    (if r.nonce ≠ x.nonce ∨ !r.verify p.ed25519 x.client.authoritativePublicKey then false
      else decide (r.verdict = .allow)) = x.accepts p r := by
  unfold accepts
  split_ifs with h
  · rcases h with hn | hv
    · simp [hn]
    · simp_all
  · rw [not_or, not_not] at h
    simp_all

variable (p x) in
/-- What a call comes to when `unread` is what becomes of a response that is no receipt. -/
def outcome (reads : Bytes → Option Receipt) (unread : Option Bool) : Option Bool :=
  if x.preCheck p then
    match x.response p with
    | .bytes payload =>
      match reads payload with
      | some r => some (x.accepts p r)
      | none => unread
    | .nothing | .exception => some false
  else some false

theorem python_eq : x.python p = x.outcome p (pythonReads p) none := by
  unfold python Python.authorize outcome preCheck response
  cases x.client.preCheck p.hmac16 x.objectId x.relation x.grantee with
  | false => rfl
  | true =>
    rw [if_neg (by decide), if_pos rfl]
    cases x.transport ((x.client.challenge x.objectId x.relation x.grantee x.nonce).toPayload
      p.hmac16 p.encode) with
    | nothing => rfl
    | exception => rfl
    | bytes payload =>
      dsimp only [pythonReads, Python.conclude]
      cases Python.Receipt.fromPayload p.unpackb payload with
      | error e => rfl
      | ok r =>
        change _ = some (x.accepts p r)
        rw [← judge_eq]
        exact congrArg Except.toOption (apply_ite pure _ _ _).symm

theorem cpp_eq : x.cpp p = x.outcome p (cppReads p) (some false) := by
  unfold cpp Cpp.authorize outcome preCheck response
  cases x.client.preCheck p.hmac16 x.objectId x.relation x.grantee with
  | false => rfl
  | true =>
    rw [if_neg (by decide), if_pos rfl]
    cases x.transport ((x.client.challenge x.objectId x.relation x.grantee x.nonce).toPayload
      p.hmac16 p.encode) with
    | nothing => rfl
    | exception => rfl
    | bytes payload =>
      cases payload with
      | nil => rfl
      | cons b payload =>
        dsimp only [cppReads]
        cases Cpp.Receipt.fromPayload p.unpacker (b :: payload) with
        | error e => rfl
        | ok r =>
          dsimp only
          rw [← apply_ite pure, judge_eq]
          rfl

theorem javascript_eq : x.javascript p = x.outcome p (javascriptReads p) none := by
  unfold javascript ChallengeClient.authorize outcome preCheck response
  cases x.client.preCheck p.hmac16 x.objectId x.relation x.grantee with
  | false => rfl
  | true =>
    rw [if_neg (by decide), if_pos rfl]
    dsimp only
    cases x.transport ((x.client.challenge x.objectId x.relation x.grantee x.nonce).toPayload
      p.hmac16 p.encode) with
    | nothing => rfl
    | exception => rfl
    | bytes payload =>
      dsimp only [javascriptReads, Response.received, ChallengeClient.conclude]
      cases Receipt.fromPayload p.msgPackDecode payload with
      | error e => rfl
      | ok r =>
        change Except.toOption (if r.nonce ≠ x.nonce then pure false
          else if !r.verify p.ed25519 x.client.authoritativePublicKey then pure false
          else pure (decide (r.verdict = .allow))) = some (x.accepts p r)
        rw [← judge_eq, ite_or]
        split_ifs <;> rfl

/-! ## Failing closed -/

/-- A call that never reads a receipt comes to `false`. -/
theorem outcome_of_no_bytes {reads : Bytes → Option Receipt} {unread : Option Bool}
    (h : x.preCheck p = false ∨ (x.response p).received = none) :
    x.outcome p reads unread = some false := by
  unfold outcome
  split_ifs with hpre
  · have hnone := h.resolve_left (by simp [hpre])
    cases hr : x.response p with
    | bytes payload =>
      rw [hr] at hnone
      cases hnone
    | nothing => rfl
    | exception => rfl
  · rfl

theorem outcome_of_bytes {reads : Bytes → Option Receipt} {unread : Option Bool} {payload : Bytes}
    (hpre : x.preCheck p = true) (hr : x.response p = .bytes payload) :
    x.outcome p reads unread = (reads payload).elim unread fun r => some (x.accepts p r) := by
  unfold outcome
  rw [if_pos hpre, hr]
  dsimp only
  cases reads payload <;> rfl

theorem failsClosed_of_no_bytes {reads : Bytes → Option Receipt} {unread : Option Bool}
    (h : x.preCheck p = false ∨ (x.response p).received = none) :
    x.FailsClosed p reads (x.outcome p reads unread) := by
  refine ⟨false, outcome_of_no_bytes h, ?_⟩
  constructor
  · intro hf
    cases hf
  · rintro ⟨hpre, payload, r, hr, -⟩
    rcases h with h | h
    · rw [hpre] at h
      cases h
    · rw [hr] at h
      cases h

/-- Once bytes have come, only a reading that fails can make the call throw. -/
theorem failsClosed_iff_of_bytes {reads : Bytes → Option Receipt} {unread : Option Bool}
    {payload : Bytes} (hpre : x.preCheck p = true) (hr : x.response p = .bytes payload) :
    x.FailsClosed p reads (x.outcome p reads unread) ↔
      (reads payload).isSome = true ∨ unread = some false := by
  rw [outcome_of_bytes hpre hr]
  unfold FailsClosed
  cases hread : reads payload with
  | none =>
    simp only [Option.elim_none, hpre, hr, true_and, Option.isSome_none, Bool.false_eq_true,
      false_or]
    constructor
    · rintro ⟨b, hb, hiff⟩
      cases b with
      | false => exact hb
      | true =>
        obtain ⟨payload', r, hr', hread', -⟩ := hiff.mp rfl
        obtain rfl := Response.bytes.inj hr'
        rw [hread] at hread'
        cases hread'
    · intro hu
      refine ⟨false, hu, fun hf => Bool.noConfusion hf, ?_⟩
      rintro ⟨payload', r, hr', hread', -⟩
      obtain rfl := Response.bytes.inj hr'
      rw [hread] at hread'
      cases hread'
  | some r =>
    refine iff_of_true ⟨x.accepts p r, rfl, ?_⟩ (Or.inl rfl)
    constructor
    · intro ha
      exact ⟨hpre, payload, r, hr, hread, ha⟩
    · rintro ⟨-, payload', r', hr', hread', ha⟩
      obtain rfl := Response.bytes.inj (hr.symm.trans hr')
      obtain rfl := Option.some.inj (hread.symm.trans hread')
      exact ha

/-- By what the ports read, whatever that is. -/
theorem failsClosed_iff_reads (p : ClientPlatform) (x : AuthorizeCall key) :
    (x.FailsClosed p (pythonReads p) (x.python p) ∧
      x.FailsClosed p (javascriptReads p) (x.javascript p) ∧
      x.FailsClosed p (cppReads p) (x.cpp p) ∧
      x.python p = x.javascript p ∧ x.javascript p = x.cpp p) ↔
    x.preCheck p = false ∨ (x.response p).received = none ∨
      ∃ payload r r', x.response p = .bytes payload ∧
        pythonReads p payload = some r ∧ javascriptReads p payload = some r' ∧
        x.accepts p r = x.accepts p r' ∧
        x.accepts p r' = (cppReads p payload).any (x.accepts p) := by
  rw [python_eq, javascript_eq, cpp_eq]
  by_cases hno : x.preCheck p = false ∨ (x.response p).received = none
  · refine iff_of_true ⟨failsClosed_of_no_bytes hno, failsClosed_of_no_bytes hno,
      failsClosed_of_no_bytes hno, ?_, ?_⟩ (or_assoc.mp (Or.inl hno))
    · rw [outcome_of_no_bytes hno, outcome_of_no_bytes hno]
    · rw [outcome_of_no_bytes hno, outcome_of_no_bytes hno]
  · rw [not_or, Bool.not_eq_false] at hno
    obtain ⟨hpre, hsome⟩ := hno
    cases hr : x.response p with
    | nothing => exact absurd (by rw [hr]; rfl) hsome
    | exception => exact absurd (by rw [hr]; rfl) hsome
    | bytes payload =>
      rw [failsClosed_iff_of_bytes hpre hr, failsClosed_iff_of_bytes hpre hr,
        failsClosed_iff_of_bytes hpre hr, outcome_of_bytes hpre hr, outcome_of_bytes hpre hr,
        outcome_of_bytes hpre hr]
      constructor
      · rintro ⟨hpy | hpy, hjs | hjs, -, heq, heq'⟩
        · obtain ⟨r, hpy⟩ := Option.isSome_iff_exists.mp hpy
          obtain ⟨r', hjs⟩ := Option.isSome_iff_exists.mp hjs
          rw [hpy, hjs] at heq
          rw [hjs] at heq'
          refine Or.inr (Or.inr ⟨payload, r, r', rfl, hpy, hjs, Option.some.inj heq, ?_⟩)
          cases hcpp : cppReads p payload with
          | none =>
            rw [hcpp] at heq'
            exact Option.some.inj heq'
          | some r'' =>
            rw [hcpp] at heq'
            exact Option.some.inj heq'
        · cases hjs
        · cases hpy
        · cases hpy
      · rintro (hf | hf | ⟨payload', r, r', hr', hpy, hjs, heq, heq'⟩)
        · rw [hpre] at hf
          cases hf
        · cases hf
        · obtain rfl := Response.bytes.inj hr'
          rw [hpy, hjs]
          refine ⟨Or.inl rfl, Or.inl rfl, Or.inr rfl, congrArg some heq, ?_⟩
          refine (congrArg some heq').trans ?_
          cases cppReads p payload <;> rfl

/-- What Python and JavaScript both read they read alike, and C++ reads it alike if at all. -/
theorem reads_alike (hp : p.Conforms) {payload : Bytes} {r : Receipt}
    (h : pythonReads p payload = some r) :
    (∀ r', javascriptReads p payload = some r' → r' = r) ∧
      ∀ r', cppReads p payload = some r' → r' = r := by
  unfold pythonReads Python.Receipt.fromPayload at h
  cases hv : p.unpackb payload with
  | error message =>
    rw [hv] at h
    cases h
  | ok v =>
    rw [hv] at h
    refine ⟨fun r' h' => ?_, fun r' h' => ?_⟩
    · unfold javascriptReads Receipt.fromPayload at h'
      cases hw : p.msgPackDecode payload with
      | error e =>
        rw [hw] at h'
        cases h'
      | ok w =>
        rw [hw] at h'
        obtain rfl := hp.javascript payload v w hv hw
        exact (receipt_alike h h').symm
    · cases payload with
      | nil => cases h'
      | cons b payload =>
        change (Cpp.Receipt.fromPayload p.unpacker (b :: payload)).toOption = some r' at h'
        unfold Cpp.Receipt.fromPayload at h'
        cases hw : p.unpacker.feed (b :: payload) with
        | none =>
          rw [hw] at h'
          cases h'
        | some w =>
          rw [hw] at h'
          obtain rfl := hp.cpp (b :: payload) v w hv hw
          exact cpp_receipt_alike hp.exact h h'

/-- The clients fail closed, and alike, unless the pre-check allows and bytes come that are
no receipt to Python or to JavaScript, or an acceptable one that is none to C++. -/
theorem authorize_fails_closed_iff (hp : p.Conforms) (x : AuthorizeCall key) :
    (x.FailsClosed p (pythonReads p) (x.python p) ∧
      x.FailsClosed p (javascriptReads p) (x.javascript p) ∧
      x.FailsClosed p (cppReads p) (x.cpp p) ∧
      x.python p = x.javascript p ∧ x.javascript p = x.cpp p) ↔
    x.preCheck p = false ∨ (x.response p).received = none ∨
      ∃ payload r, x.response p = .bytes payload ∧ pythonReads p payload = some r ∧
        (javascriptReads p payload).isSome = true ∧
        (x.accepts p r = true → (cppReads p payload).isSome = true) := by
  rw [failsClosed_iff_reads]
  refine or_congr_right (or_congr_right ?_)
  constructor
  · rintro ⟨payload, r, r', hr, hpy, hjs, heq, hcpp⟩
    refine ⟨payload, r, hr, hpy, hjs ▸ rfl, fun ha => ?_⟩
    rw [← heq, ha] at hcpp
    exact Option.isSome_of_any hcpp.symm
  · rintro ⟨payload, r, hr, hpy, hjs, hcpp⟩
    obtain ⟨hjs', hcpp'⟩ := reads_alike hp hpy
    obtain ⟨r', hr'⟩ := Option.isSome_iff_exists.mp hjs
    obtain rfl := hjs' r' hr'
    refine ⟨payload, r', r', hr, hpy, hr', rfl, ?_⟩
    cases hread : cppReads p payload with
    | some r'' => exact congrArg (x.accepts p) (hcpp' r'' hread).symm
    | none =>
      rw [hread] at hcpp
      exact Bool.eq_false_iff.mpr fun ha => Bool.false_ne_true (hcpp ha)

end AuthorizeCall

/-! ## A response that is a receipt -/

namespace SignedResponse

def received : WireValue :=
  .array [.int 1 false, .int 65536 true, .bin drawn.val, .bin (padded permission.preimage).val]

/-- An integer that fits its type, and nothing else. -/
def unsigned : WireValue → Option ℕ
  | .int n _ => if 0 ≤ n then some n.toNat else none
  | _ => none

def unpacker : Cpp.Unpacker where
  feed := fun data => if data = permissionPayload then some received else none
  uint8 := fun v => (unsigned v).bind fun n => if n < 2 ^ 8 then some (.ofNat n) else none
  uint64 := fun v => (unsigned v).bind fun n => if n < 2 ^ 64 then some (.ofNat n) else none

def platform : ClientPlatform where
  hmac16 := authority.hmac16
  ed25519 := authority.ed25519
  encode := pack
  unpackb := fun data =>
    if data = permissionPayload then .ok received else .error "incomplete input"
  msgPackDecode := fun data =>
    if data = permissionPayload then .ok received.toJs else .error "Insufficient data"
  unpacker := unpacker

theorem unsigned_number {v : WireValue} {n m : ℕ} (hn : v.number = some (n : ℚ))
    (hm : unsigned v = some m) : m = n := by
  cases v with
  | int k wide =>
    rw [unsigned] at hm
    split_ifs at hm with hk
    obtain rfl := Option.some.inj hm
    have hkn : k = (n : ℤ) := by exact_mod_cast Option.some.inj hn
    rw [hkn, Int.toNat_natCast]
  | _ => cases hm

theorem platform_conforms : platform.Conforms where
  javascript data v w hv hw := by
    simp only [platform] at hv hw
    split_ifs at hv hw
    rw [← Except.ok.inj hv, ← Except.ok.inj hw]
  cpp data v w hv hw := by
    simp only [platform, unpacker] at hv hw
    split_ifs at hv hw
    rw [← Except.ok.inj hv, ← Option.some.inj hw]
  exact :=
    { uint8 := by
        intro v n b hn hv hb
        obtain ⟨m, hm, hb⟩ := Option.bind_eq_some_iff.mp hb
        obtain rfl := unsigned_number hv hm
        rw [if_pos hn] at hb
        rw [← Option.some.inj hb]
        exact UInt8.toNat_ofNat_of_lt' hn
      uint64 := by
        intro v n b hn hv hb
        obtain ⟨m, hm, hb⟩ := Option.bind_eq_some_iff.mp hb
        obtain rfl := unsigned_number hv hm
        rw [if_pos hn] at hb
        rw [← Option.some.inj hb]
        exact UInt64.toNat_ofNat_of_lt' hn }

def call : AuthorizeCall Tuple.key where
  client := client
  objectId := "lamp"
  relation := "use"
  grantee := Engine.identity 2
  nonce := drawn
  transport := fun _ => .bytes permissionPayload

/-- The Authority's ALLOW is one to all three. -/
theorem signed_response_allowed :
    (call.FailsClosed platform (AuthorizeCall.pythonReads platform) (call.python platform) ∧
      call.FailsClosed platform (AuthorizeCall.javascriptReads platform)
        (call.javascript platform) ∧
      call.FailsClosed platform (AuthorizeCall.cppReads platform) (call.cpp platform) ∧
      call.python platform = call.javascript platform ∧
      call.javascript platform = call.cpp platform) ∧
    call.cpp platform = some true :=
  ⟨(AuthorizeCall.authorize_fails_closed_iff platform_conforms call).mpr
    (.inr (.inr ⟨permissionPayload, permission, rfl, by decide +kernel, by decide +kernel,
      fun _ => by decide +kernel⟩)), by decide +kernel⟩

end SignedResponse

/-! ## A response that is no receipt -/

namespace NilResponse

/-- The byte `0xc0` is the MessagePack nil. -/
def platform : ClientPlatform where
  hmac16 := authority.hmac16
  ed25519 := authority.ed25519
  encode := pack
  unpackb := fun data => if data = [0xc0] then .ok .nil else .error "incomplete input"
  msgPackDecode := fun data => if data = [0xc0] then .ok .null else .error "Insufficient data"
  unpacker := ⟨fun data => if data = [0xc0] then some .nil else none, fun _ => none, fun _ => none⟩

def call : AuthorizeCall Tuple.key where
  client := client
  objectId := "lamp"
  relation := "use"
  grantee := Engine.identity 2
  nonce := drawn
  transport := fun _ => .bytes [0xc0]

/-- Allowed by the pre-check and answered with nil, the request is denied by C++ alone. -/
theorem nil_response_throws :
    call.python platform = none ∧ call.javascript platform = none ∧
      call.cpp platform = some false ∧
      ¬ (call.FailsClosed platform (AuthorizeCall.pythonReads platform) (call.python platform) ∧
        call.FailsClosed platform (AuthorizeCall.javascriptReads platform)
          (call.javascript platform) ∧
        call.FailsClosed platform (AuthorizeCall.cppReads platform) (call.cpp platform) ∧
        call.python platform = call.javascript platform ∧
        call.javascript platform = call.cpp platform) := by
  have hpy : call.python platform = none := by decide +kernel
  refine ⟨hpy, by decide +kernel, by decide +kernel, ?_⟩
  rintro ⟨⟨b, hb, -⟩, -⟩
  rw [hpy] at hb
  cases hb

end NilResponse

end Dacar

import Dacar.Provenance
import Dacar.WireValue

/-!
# The Python receiver

The Python receiver asks its resolver before it ingests an operation, and again while it
does.  On request it says on stderr why a Delta was refused; what it says is left out here,
what it computes in order to say it is not.
-/

namespace Dacar.Python

/-- The libraries under the receiver. -/
structure Platform where
  unpackb : Bytes → Except String WireValue
  ed25519 : Ed25519

/-- The members' raw Ed25519 keys. -/
structure IssuerKeyset where
  memberPublicKeys : List SigningKey
  threshold : ℕ
  threshold_pos : 1 ≤ threshold
  enough : threshold ≤ memberPublicKeys.length

/-- `Operation.verify_keyset` -/
def verifyKeyset (ed25519 : Ed25519) (op : Operation) (keyset : IssuerKeyset) : Bool :=
  verifyThreshold ed25519 op keyset.memberPublicKeys keyset.threshold

/-- What a resolver gives for an issuer: it raises, or knows no keyset, or gives one. -/
abbrev KeyResolver := Hash → Option (Option IssuerKeyset)

/-- The world while one operation is looked at: the resolver as it answers the first time
and the second, and the wall clock. -/
structure Moment where
  known : KeyResolver
  resolver : KeyResolver
  physicalNowMs : ℤ

abbrev World := ℕ → Moment

def now (options : ApplyOptions) (m : Moment) : ℤ := options.nowMs.getD m.physicalNowMs

/-- `Operation.from_payload` -/
def Operation.fromPayload (unpackb : Bytes → Except String WireValue) (data : Bytes) :
    Except ValueError Dacar.Operation :=
  match unpackb data with
  | .error message => .error (.error message)
  | .ok v => fromValue v

variable (p : Platform) (w : World)

/-- `verify_operation` -/
def verifyOperation (op : Dacar.Operation) : Option (Option IssuerKeyset) → Option Bool
  | none => none
  | some none => some false
  | some (some keyset) => some (verifyKeyset p.ed25519 op keyset)

/-! ## What logging computes -/

/-- Why a refused operation is said to be refused. -/
inductive Reason
  | stale
  | signature

/-- A thousand times the least number that rounds past the largest float. -/
@[irreducible] def overflowMs : ℕ := 1000 * (2 ^ 1024 - 2 ^ 970)

/-- `n / 1000` of integers is a float, or an `OverflowError`. -/
def dividesByThousand (n : ℤ) : Bool := decide (n.natAbs < overflowMs)

/-- The lines after `ingest`; `none` when they raise. -/
def diagnose (options : ApplyOptions) (horizonMs : ℤ) (op : Dacar.Operation) : Option Reason :=
  match options.nowMs with
  -- `physical_now_ms` is not imported: a `NameError`
  | none => none
  | some now =>
    if (physical op.hlc : ℤ) < now - horizonMs then
      if dividesByThousand (now - physical op.hlc) && dividesByThousand horizonMs then some .stale
      else none
    else some .signature

namespace DeltaReceiver

open Dacar (DeltaReceiver)

variable {κ : Type*} [DecidableEq κ] {key : Tuple → κ}

/-- `StateVector.ingest` -/
def ingest (m : Moment) (options : ApplyOptions) (op : Dacar.Operation) (s : StateVector key) :
    Option Bool × StateVector key :=
  match verifyOperation p op (m.resolver op.tuple.issuer) with
  | none => (none, s)
  | some false => (some false, s)
  | some true =>
    let applied := s.apply op (now options m) options.maxFutureMs
    (some applied.1, applied.2)

def applyPayload (options : ApplyOptions) (logRejections : Bool) (payload : Bytes)
    (r : DeltaReceiver key) : Settled key Bool :=
  match Operation.fromPayload p.unpackb payload with
  | .error _ => (some false, r)
  | .ok op =>
    let m := w r.ingested
    let r' : DeltaReceiver key := { r with ingested := r.ingested + 1 }
    match m.known op.tuple.issuer with
    | none => (none, r')
    | some none => (some false, r')
    | some (some _) =>
      match ingest p m options op r.state with
      | (none, s) => (none, { r' with state := s })
      | (some result, s) =>
        if logRejections && !result then
          ((diagnose options s.deletionHorizonMs op).map fun _ => result, { r' with state := s })
        else (some result, { r' with state := s })

/-- The loop of `apply_payloads`. -/
def applyItems (options : ApplyOptions) :
    List WireValue → ℕ → DeltaReceiver key → Settled key ℕ
  | [], applied, r => (some applied, r)
  | .bin item :: items, applied, r =>
    match applyPayload p w options false item r with
    | (none, r') => (none, r')
    | (some ok, r') => applyItems options items (if ok then applied + 1 else applied) r'
  | _ :: items, applied, r => applyItems options items applied r

def applyPayloads (options : ApplyOptions) (payload : Bytes) (r : DeltaReceiver key) :
    Settled key ℕ :=
  match p.unpackb payload with
  | .ok (.array items) => applyItems p w options items 0 r
  | _ => (some 0, r)

def handlePush (data : Bytes) (r : DeltaReceiver key) : Settled key ℕ :=
  if data.isEmpty then (some 0, r)
  else
    match applyPayload p w {} false data r with
    | (none, r') => (none, r')
    | (some true, r') => (some 1, r')
    | (some false, r') =>
      match applyPayloads p w {} data r' with
      | (none, r'') => (some 0, r'')
      | settled => settled

end DeltaReceiver

/-! ## A resolver that does not raise -/

/-- The resolver answers, whenever it is asked. -/
structure Answers (w : World) : Prop where
  known : ∀ n issuer, (w n).known issuer ≠ none
  resolver : ∀ n issuer, (w n).resolver issuer ≠ none

variable {κ : Type*} [DecidableEq κ] {key : Tuple → κ}

/-- The resolver's keyset signed the operation, and the state takes it. -/
def Ingested (m : Moment) (options : ApplyOptions) (s : StateVector key) (op : Dacar.Operation) :
    Prop :=
  verifyOperation p op (m.resolver op.tuple.issuer) = some true ∧
    s.Admits op (now options m) options.maxFutureMs

instance (m : Moment) (options : ApplyOptions) (s : StateVector key) (op : Dacar.Operation) :
    Decidable (Ingested p m options s op) :=
  inferInstanceAs (Decidable (_ ∧ _))

variable {p w}

omit [DecidableEq κ] in
theorem horizon_nonneg (s : StateVector key) : 0 ≤ s.deletionHorizonMs :=
  Int.mul_nonneg (Int.natCast_nonneg _) (Int.natCast_nonneg _)

namespace DeltaReceiver

open Dacar (DeltaReceiver)

theorem ingest_eq {m : Moment} {options : ApplyOptions} {op : Dacar.Operation}
    (hm : m.resolver op.tuple.issuer ≠ none) (s : StateVector key) :
    ingest p m options op s =
      if Ingested p m options s op then (some true, s.record op) else (some false, s) := by
  obtain ⟨keyset?, hr⟩ := Option.ne_none_iff_exists'.mp hm
  obtain ⟨verified, hv⟩ : ∃ verified,
      verifyOperation p op (m.resolver op.tuple.issuer) = some verified := by
    rw [hr]
    cases keyset? with
    | none => exact ⟨false, rfl⟩
    | some keyset => exact ⟨_, rfl⟩
  unfold ingest
  rw [hv]
  cases verified with
  | false =>
    rw [if_neg fun h => absurd (hv.symm.trans h.1) (by decide)]
  | true =>
    dsimp only
    rw [StateVector.apply_eq]
    by_cases hadmits : s.Admits op (now options m) options.maxFutureMs
    · rw [if_pos hadmits, if_pos ⟨hv, hadmits⟩]
    · rw [if_neg hadmits, if_neg fun h => hadmits h.2]

variable (p w) in
/-- An operation of a known issuer that is refused, where the lines that say why raise: no
clock reading is given, or one too far ahead for a float of seconds. -/
def LogRaises (options : ApplyOptions) (payload : Bytes) (r : DeltaReceiver key) : Prop :=
  ∃ op, Operation.fromPayload p.unpackb payload = .ok op ∧
    (∃ keyset, (w r.ingested).known op.tuple.issuer = some (some keyset)) ∧
    ¬ Ingested p (w r.ingested) options r.state op ∧
    (options.nowMs = none ∨ ∃ now, options.nowMs = some now ∧
      (physical op.hlc : ℤ) < now - r.state.deletionHorizonMs ∧
      overflowMs ≤ now - physical op.hlc)

theorem diagnose_eq_none {options : ApplyOptions} {horizonMs : ℤ} {op : Dacar.Operation}
    (hh : 0 ≤ horizonMs) : diagnose options horizonMs op = none ↔
      options.nowMs = none ∨ ∃ now, options.nowMs = some now ∧
        (physical op.hlc : ℤ) < now - horizonMs ∧ overflowMs ≤ now - physical op.hlc := by
  unfold diagnose
  cases options.nowMs with
  | none => simp
  | some now =>
    dsimp only
    split_ifs with hstale hfloat
    · rw [Bool.and_eq_true, dividesByThousand, decide_eq_true_eq] at hfloat
      have hlt : now - physical op.hlc < overflowMs := by omega
      simp [hlt]
    · -- the horizon divides where the age does, since it is the smaller
      have hage : (overflowMs : ℤ) ≤ now - physical op.hlc := by
        by_contra hlt
        refine hfloat (Bool.and_eq_true_iff.mpr ⟨decide_eq_true ?_, decide_eq_true ?_⟩)
        · omega
        · omega
      simp [hstale, hage]
    · simp [hstale]

section Equations

variable {options : ApplyOptions} {log : Bool} {payload : Bytes} {r : DeltaReceiver key}
  {op : Dacar.Operation}

theorem applyPayload_of_error {e : ValueError}
    (h : Operation.fromPayload p.unpackb payload = .error e) :
    applyPayload p w options log payload r = (some false, r) := by
  unfold applyPayload
  rw [h]

theorem applyPayload_of_unknown (h : Operation.fromPayload p.unpackb payload = .ok op)
    (hknown : (w r.ingested).known op.tuple.issuer = some none) :
    applyPayload p w options log payload r = (some false, ⟨r.state, r.ingested + 1⟩) := by
  unfold applyPayload
  rw [h]
  dsimp only
  rw [hknown]

theorem applyPayload_of_known (hw : Answers w)
    (h : Operation.fromPayload p.unpackb payload = .ok op) {keyset : IssuerKeyset}
    (hknown : (w r.ingested).known op.tuple.issuer = some (some keyset)) :
    applyPayload p w options log payload r =
      if Ingested p (w r.ingested) options r.state op then
        (some true, ⟨r.state.record op, r.ingested + 1⟩)
      else
        (if log then (diagnose options r.state.deletionHorizonMs op).map fun _ => false
          else some false, ⟨r.state, r.ingested + 1⟩) := by
  unfold applyPayload
  rw [h]
  dsimp only
  rw [hknown]
  dsimp only
  rw [ingest_eq (hw.resolver _ _)]
  split_ifs <;> simp_all

end Equations

/-- Logging changes nothing, and nothing raises, unless the lines that say why a known
issuer's operation was refused raise themselves. -/
theorem logging_transparent_iff (hw : Answers w) (options : ApplyOptions) (payload : Bytes)
    (r : DeltaReceiver key) :
    (applyPayload p w options true payload r = applyPayload p w options false payload r ∧
      (applyPayload p w options true payload r).1.isSome = true ∧
      (applyPayload p w options false payload r).1.isSome = true) ↔
      ¬ LogRaises p w options payload r := by
  cases h : Operation.fromPayload p.unpackb payload with
  | error e =>
    rw [applyPayload_of_error h, applyPayload_of_error h]
    refine iff_of_true ⟨rfl, rfl, rfl⟩ ?_
    rintro ⟨op, hop, -⟩
    cases h.symm.trans hop
  | ok op =>
    obtain ⟨keyset?, hknown⟩ := Option.ne_none_iff_exists'.mp (hw.known r.ingested op.tuple.issuer)
    cases keyset? with
    | none =>
      rw [applyPayload_of_unknown h hknown, applyPayload_of_unknown h hknown]
      refine iff_of_true ⟨rfl, rfl, rfl⟩ ?_
      rintro ⟨op', hop, ⟨keyset, hk⟩, -⟩
      obtain rfl := Except.ok.inj (h.symm.trans hop)
      cases hknown.symm.trans hk
    | some keyset =>
      have hraises : LogRaises p w options payload r ↔
          ¬ Ingested p (w r.ingested) options r.state op ∧
            diagnose options r.state.deletionHorizonMs op = none := by
        rw [diagnose_eq_none (horizon_nonneg r.state)]
        constructor
        · rintro ⟨op', hop, -, hrest⟩
          obtain rfl := Except.ok.inj (h.symm.trans hop)
          exact hrest
        · intro hrest
          exact ⟨op, h, ⟨keyset, hknown⟩, hrest⟩
      rw [applyPayload_of_known hw h hknown, applyPayload_of_known hw h hknown, hraises]
      by_cases hin : Ingested p (w r.ingested) options r.state op
      · simp [hin]
      · cases hd : diagnose options r.state.deletionHorizonMs op <;> simp [hin]

end DeltaReceiver

/-! ## A forged Delta at the wall clock -/

section Forged

/-- The grant of the first millisecond, signed by one byte over and over. -/
def grantWire (sig : UInt8) : WireValue :=
  .array [.bin grantedTuple.issuer.val, .bin grantedTuple.grantee.val, .int 1 false,
    .int 65536 true, .bin grantedTuple.relationHash.val, .array [], .bool true,
    .array [.bin (Blob.fill 64 sig).val]]

/-- The same grant with a signature that is not valid. -/
def forgedPayload : Bytes :=
  pack (.array [.bytes grantedTuple.issuer.val, .bytes grantedTuple.grantee.val,
    .number (.finite 1), .bigint 65536, .bytes grantedTuple.relationHash.val, .array [],
    .bool true, .array [.bytes (Blob.fill 64 8).val]])

def onlyKeyPlatform : Platform where
  unpackb := fun data =>
    if data = grantPayload then .ok (grantWire 9)
    else if data = forgedPayload then .ok (grantWire 8)
    else .error "Unpack failed: incomplete input"
  ed25519 := onlyKey

def onlyKeyset : IssuerKeyset where
  memberPublicKeys := [Blob.fill 32 7]
  threshold := 1
  threshold_pos := Nat.le_refl 1
  enough := Nat.le_refl 1

def onlyKeyWorld : World := fun _ => {
  known := fun _ => some (some onlyKeyset)
  resolver := fun _ => some (some onlyKeyset)
  physicalNowMs := 1 }

def blankReceiver : DeltaReceiver Tuple.key := ⟨.empty defaultDeletionHorizonDays, 0⟩

theorem onlyKeyWorld_answers : Answers onlyKeyWorld :=
  ⟨fun _ _ => Option.some_ne_none _, fun _ _ => Option.some_ne_none _⟩

/-- The signature is bad, and the line that would say so raises. -/
theorem forged_delta_raises :
    (DeltaReceiver.applyPayload onlyKeyPlatform onlyKeyWorld {} false forgedPayload
        blankReceiver).1 = some false ∧
      (DeltaReceiver.applyPayload onlyKeyPlatform onlyKeyWorld {} true forgedPayload
        blankReceiver).1 = none := by
  constructor <;> decide +kernel

/-- The valid grant is applied with logging as without. -/
theorem logging_transparent_iff_granted :
    DeltaReceiver.applyPayload onlyKeyPlatform onlyKeyWorld {} true grantPayload blankReceiver =
        DeltaReceiver.applyPayload onlyKeyPlatform onlyKeyWorld {} false grantPayload
          blankReceiver ∧
      (DeltaReceiver.applyPayload onlyKeyPlatform onlyKeyWorld {} true grantPayload
        blankReceiver).1.isSome = true ∧
      (DeltaReceiver.applyPayload onlyKeyPlatform onlyKeyWorld {} false grantPayload
        blankReceiver).1.isSome = true := by
  refine (DeltaReceiver.logging_transparent_iff onlyKeyWorld_answers _ _ _).mpr ?_
  rintro ⟨op, hop, -, hrefused, -⟩
  have hread : (Operation.fromPayload onlyKeyPlatform.unpackb grantPayload).toOption.all
      (fun op => decide (Ingested onlyKeyPlatform (onlyKeyWorld 0) {} blankReceiver.state op)) =
      true := by decide +kernel
  rw [hop] at hread
  exact hrefused (of_decide_eq_true hread)

end Forged

end Dacar.Python

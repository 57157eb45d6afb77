import Dacar.BatchDelta
import Dacar.Cpp.OperationPayload

/-!
# The C++ receiver

In a batch an element that is no byte string is skipped without moving the cursor, so what
follows it is never reached.
-/

namespace Dacar

/-! ## A port from what it reads -/

namespace Port

variable {κ : Type} [DecidableEq κ] {key : Tuple → κ}
variable (operation : Bytes → Option Operation) (elements : Bytes → Option (List Bytes))
  (authentic : ℕ → Operation → Bool) (now : ApplyOptions → ℕ → ℤ)

/-- Takes the operation of a payload if that passes. -/
def take (options : ApplyOptions) (payload : Bytes) (r : DeltaReceiver key) : Settled key Bool :=
  let taken := (operation payload).filter fun op => authentic r.ingested op &&
    decide (r.state.Admits op (now options r.ingested) options.maxFutureMs)
  (some taken.isSome, ⟨taken.elim r.state r.state.record,
    if (operation payload).isSome then r.ingested + 1 else r.ingested⟩)

def takeAll (options : ApplyOptions) (payload : Bytes) (r : DeltaReceiver key) : Settled key ℕ :=
  (elements payload).elim (some 0, r) fun bs =>
    Batch.run (take operation authentic now options) bs 0 r

/-- The port that reads bytes and operations so. -/
def ofReadings : Port key where
  operation := operation
  elements := elements
  authentic := authentic
  now := now
  applyPayload := take operation authentic now
  applyPayloads := takeAll operation elements authentic now
  handlePush data r :=
    if data.isEmpty then (some 0, r)
    else
      match take operation authentic now {} data r with
      | (none, r') => (none, r')
      | (some true, r') => (some 1, r')
      | (some false, r') =>
        match takeAll operation elements authentic now {} data r' with
        | (none, r'') => (some 0, r'')
        | settled => settled
  cmdApply data r :=
    if data.isEmpty then (none, r)
    else
      match take operation authentic now {} data r with
      | (none, r') => (none, r')
      | (some true, r') => (some 1, r')
      | (some false, r') => takeAll operation elements authentic now {} data r'

variable {operation elements authentic now}

theorem ofReadings_lawful
    (hinside : ∀ data, ∀ payloads ∈ elements data, ∀ b ∈ payloads, b.length < data.length)
    (hlong : ∀ data op, operation data = some op → 16 < data.length)
    (hshort : ∀ data op, operation data = some op →
      ∀ payloads ∈ elements data, ∀ b ∈ payloads, b.length ≤ 16) :
    (ofReadings operation elements authentic now : Port key).Lawful where
  applyPayload _ _ _ := rfl
  applyPayloads _ _ _ := rfl
  handlePush _ _ := rfl
  cmdApply _ _ := rfl
  inside := hinside
  long := hlong
  short := hshort

end Port

namespace Cpp

open Fallible

/-! ## The receiver -/

/-- The world while one operation is ingested: the resolver, which throws, knows no keyset or
gives one, and the wall clock. -/
structure Moment where
  resolver : Hash → Option (Option Python.IssuerKeyset)
  wall : ℕ

abbrev World := ℕ → Moment

/-- A receiver, and how many operations it has ingested so far. -/
structure DeltaReceiver {κ : Type*} [DecidableEq κ] (hash : Tuple → κ) where
  state : StateVector hash
  ingested : ℕ

/-- What a call leads to; the result is `none` when it throws. -/
abbrev Settled {κ : Type*} [DecidableEq κ] (hash : Tuple → κ) (α : Type) :=
  Option α × DeltaReceiver hash

/-- `verify_operation`; a resolver that is an empty function knows no keyset. -/
def verifyOperation (ed25519 : Ed25519) (op : Operation) :
    Option (Option Python.IssuerKeyset) → Option Bool
  | none => none
  | some none => some false
  | some (some keyset) =>
    some (verifyThreshold ed25519 op keyset.memberPublicKeys keyset.threshold)

namespace DeltaReceiver

variable {κ : Type} [DecidableEq κ] {hash : Tuple → κ} {σ : Type}
variable (u : Cursor σ) (ed25519 : Ed25519) (w : World)

/-- `StateVector::ingest` -/
def ingest (nowMs maxFutureMs : ℤ) (op : Operation) (r : DeltaReceiver hash) :
    Settled hash Bool :=
  let m := w r.ingested
  let r' : DeltaReceiver hash := { r with ingested := r.ingested + 1 }
  match verifyOperation ed25519 op (m.resolver op.tuple.issuer) with
  | none => (none, r')
  | some false => (some false, r')
  | some true =>
    let applied := r.state.apply op m.wall nowMs maxFutureMs
    (some applied.1, { r' with state := applied.2 })

def applyPayload (nowMs maxFutureMs : ℤ) (payload : Bytes) (r : DeltaReceiver hash) :
    Settled hash Bool :=
  if payload.isEmpty then (some false, r)
  else
    match fromPayload u payload with
    | .error _ => (some false, r)
    | .ok op => r.ingest ed25519 w nowMs maxFutureMs op

/-- The loop of `apply_payloads`, with so many turns to come. -/
def applyElements (nowMs maxFutureMs : ℤ) : ℕ → σ → ℕ → DeltaReceiver hash → Settled hash ℕ
  | 0, _, applied, r => (some applied, r)
  | count + 1, s, applied, r =>
    let read := u.deserializeBin s
    match read.1 with
    | none => applyElements nowMs maxFutureMs count read.2 applied r
    | some b =>
      match r.applyPayload u ed25519 w nowMs maxFutureMs b with
      | (none, r') => (none, r')
      | (some ok, r') =>
        applyElements nowMs maxFutureMs count read.2 (if ok then applied + 1 else applied) r'

/-- The cursor behind the header of a batch, and the number of its elements. -/
def openBatch (payload : Bytes) : Option (ℕ × σ) :=
  if payload.isEmpty then none
  else
    match u.feed payload with
    | none => none
    | some s => if !u.isArray s then none else some (u.unpackArraySize s)

def applyPayloads (nowMs maxFutureMs : ℤ) (payload : Bytes) (r : DeltaReceiver hash) :
    Settled hash ℕ :=
  match openBatch u payload with
  | none => (some 0, r)
  | some batch => applyElements u ed25519 w nowMs maxFutureMs batch.1 batch.2 0 r

/-- `pack_payloads` -/
def packPayloads (packer : WireValue → Bytes) (payloads : List Bytes) : Bytes :=
  packer (.array (payloads.map .bin))

/-- The number that `handle_push` acks; the first `apply_payload` is outside of the `try`. -/
def handlePush (nowMs maxFutureMs : ℤ) (request : Bytes) (r : DeltaReceiver hash) :
    Settled hash ℕ :=
  if request.isEmpty then (some 0, r)
  else
    match r.applyPayload u ed25519 w nowMs maxFutureMs request with
    | (none, r') => (none, r')
    | (some true, r') => (some 1, r')
    | (some false, r') =>
      match r'.applyPayloads u ed25519 w nowMs maxFutureMs request with
      | (none, r'') => (some 0, r'')
      | settled => settled

end DeltaReceiver

/-! ## The elements that are reached -/

section Elements

variable {σ : Type} (u : Cursor σ)

/-- The byte strings that so many turns of the loop come to. -/
def gather : ℕ → σ → List Bytes
  | 0, _ => []
  | count + 1, s =>
    let read := u.deserializeBin s
    match read.1 with
    | none => gather count read.2
    | some b => b :: gather count read.2

def elements (payload : Bytes) : Option (List Bytes) :=
  (DeltaReceiver.openBatch u payload).map fun batch => gather u batch.1 batch.2

/-- The byte strings before the first element that is none. -/
def leading : List WireValue → List Bytes
  | .bin b :: vs => b :: leading vs
  | _ => []

/-- The byte strings after it. -/
def behind : List WireValue → List Bytes
  | .bin _ :: vs => behind vs
  | vs => vs.filterMap WireValue.asBytes

theorem leading_append_behind (vs : List WireValue) :
    leading vs ++ behind vs = vs.filterMap WireValue.asBytes := by
  induction vs with
  | nil => rfl
  | cons v vs ih =>
    cases v with
    | bin b =>
      have hbytes : WireValue.asBytes (.bin b) = some b := rfl
      rw [leading, behind, List.filterMap_cons_some hbytes, List.cons_append, ih]
    | _ => rfl

theorem leading_of_ne {v : WireValue} (hv : ∀ b, v ≠ .bin b) (vs : List WireValue) :
    leading (v :: vs) = [] := by
  cases v with
  | bin b => exact absurd rfl (hv b)
  | _ => rfl

theorem mem_of_mem_leading {vs : List WireValue} {b : Bytes} (h : b ∈ leading vs) :
    .bin b ∈ vs := by
  have hmem : b ∈ vs.filterMap WireValue.asBytes := by
    rw [← leading_append_behind]
    exact List.mem_append_left _ h
  exact mem_of_mem_filterMap (fun _ _ => WireValue.eq_of_asBytes) hmem

variable {u} {At : σ → List WireValue → Prop}

/-- Before an object that is no byte string all turns to come are spent. -/
theorem gather_stuck (hu : u.Lawful At) {v : WireValue} (hv : ∀ b, v ≠ .bin b)
    {rest : List WireValue} (count : ℕ) {s : σ} (hs : At s (v :: rest)) :
    gather u count s = [] := by
  induction count generalizing s with
  | zero => rfl
  | succ count ih =>
    obtain ⟨hnone, hstay⟩ := hu.deserializeBin_fails s v rest hs hv
    rw [gather, hnone]
    exact ih hstay

theorem gather_eq (hu : u.Lawful At) (vs : List WireValue) {rest : List WireValue} {s : σ}
    (hs : At s (vs ++ rest)) : gather u vs.length s = leading vs := by
  induction vs generalizing s with
  | nil => rfl
  | cons v vs ih =>
    by_cases hv : ∃ b, v = .bin b
    · obtain ⟨b, rfl⟩ := hv
      obtain ⟨hread, hnext⟩ := hu.deserializeBin s b _ hs
      rw [List.length_cons, gather, leading, hread]
      exact congrArg (b :: ·) (ih hnext)
    · have hne : ∀ b, v ≠ .bin b := fun b h => hv ⟨b, h⟩
      rw [gather_stuck hu hne _ hs, leading_of_ne hne]

theorem elements_eq (hu : u.Lawful At) {payload : Bytes} {s : σ} {vs rest : List WireValue}
    (hne : payload ≠ []) (hfeed : u.feed payload = some s) (hs : At s (.array vs :: rest)) :
    elements u payload = some (leading vs) := by
  obtain ⟨hsize, hnext⟩ := hu.unpackArraySize s vs rest hs
  have harray : u.isArray s = true := (hu.isArray s _ rest hs).mpr ⟨vs, rfl⟩
  rw [elements, DeltaReceiver.openBatch, if_neg (by simpa using hne), hfeed]
  dsimp only
  rw [harray, if_neg (by decide), Option.map_some, hsize, gather_eq hu vs hnext]

end Elements

/-! ## The receiver on the map -/

/-- The payload is not empty, and what lies in an array it holds is shorter than it is. -/
def Cursor.Framed {σ : Type} (u : Cursor σ) (At : σ → List WireValue → Prop) : Prop :=
  ∀ data s, data ≠ [] → u.feed data = some s → ∃ v rest, At s (v :: rest) ∧
    ∀ vs b, v = .array vs → .bin b ∈ vs → b.length < data.length

section Framed

variable {σ : Type} {u : Cursor σ} {At : σ → List WireValue → Prop}

/-- An array that is opened. -/
theorem exists_array (hu : u.Lawful At) (hf : u.Framed At) {data : Bytes} {s : σ}
    (hne : data ≠ []) (hfeed : u.feed data = some s) (harray : u.isArray s = true) :
    ∃ vs rest, At s (.array vs :: rest) ∧ ∀ b, .bin b ∈ vs → b.length < data.length := by
  obtain ⟨v, rest, hs, hshort⟩ := hf data s hne hfeed
  obtain ⟨vs, rfl⟩ := (hu.isArray s v rest hs).mp harray
  exact ⟨vs, rest, hs, fun b => hshort vs b rfl⟩

theorem exists_array_of_fromPayload (hu : u.Lawful At) (hf : u.Framed At) {data : Bytes}
    {op : Operation} (h : fromPayload u data = .ok op) :
    ∃ s vs rest, data ≠ [] ∧ u.feed data = some s ∧ At s (.array vs :: rest) ∧
      (∀ b, .bin b ∈ vs → b.length < data.length) ∧
      ∃ v tail, vs = .bin op.tuple.issuer.val :: .bin op.tuple.grantee.val :: v :: tail ∧
        ∀ b, v ≠ .bin b := by
  unfold fromPayload at h
  split_ifs at h with hempty
  have hne : data ≠ [] := by simpa using hempty
  cases hfeed : u.feed data with
  | none =>
    rw [hfeed] at h
    cases h
  | some s =>
    rw [hfeed] at h
    dsimp only at h
    split_ifs at h with harray height
    obtain ⟨vs, rest, hs, hshort⟩ := exists_array hu hf hne hfeed (by simpa using harray)
    obtain ⟨hsize, hnext⟩ := hu.unpackArraySize s vs rest hs
    have hlen : vs.length = 8 := by
      rw [← hsize]
      simpa using height
    exact ⟨s, vs, rest, hne, rfl, hs, hshort, exists_head_of_readOperation hu hnext hlen h⟩

theorem exists_array_of_elements (hu : u.Lawful At) (hf : u.Framed At) {data : Bytes}
    {bs : List Bytes} (h : elements u data = some bs) :
    ∃ vs, bs = leading vs ∧ ∀ b, .bin b ∈ vs → b.length < data.length := by
  have hopen := h
  unfold elements DeltaReceiver.openBatch at hopen
  split_ifs at hopen with hempty
  · cases hopen
  · have hne : data ≠ [] := by simpa using hempty
    cases hfeed : u.feed data with
    | none =>
      rw [hfeed] at hopen
      cases hopen
    | some s =>
      rw [hfeed] at hopen
      dsimp only at hopen
      split_ifs at hopen with harray
      · cases hopen
      · obtain ⟨vs, rest, hs, hshort⟩ := exists_array hu hf hne hfeed (by simpa using harray)
        rw [elements_eq hu hne hfeed hs] at h
        exact ⟨vs, (Option.some.inj h).symm, hshort⟩

end Framed

section Refines

variable {κ : Type} [DecidableEq κ] {hash : Tuple → κ} {σ : Type}
variable (u : Cursor σ) (ed25519 : Ed25519) (w : World)

/-- The receiver as the other ports would write it. -/
def port : Port hash :=
  .ofReadings (fun b => (fromPayload u b).toOption) (elements u)
    (fun n op =>
      decide (verifyOperation ed25519 op ((w n).resolver op.tuple.issuer) = some true))
    fun options n => options.nowMs.getD (w n).wall

/-- The arguments that stand for "now" and "no bound". -/
def applyOptions (nowMs maxFutureMs : ℤ) : ApplyOptions where
  nowMs := if nowMs < 0 then none else some nowMs
  maxFutureMs := StateVector.skewBound maxFutureMs

def DeltaReceiver.onMap (r : DeltaReceiver hash) : Dacar.DeltaReceiver hash :=
  ⟨r.state.toStateVector, r.ingested⟩

def Settled.onMap {α : Type} (x : Settled hash α) : Dacar.Settled hash α := (x.1, x.2.onMap)

/-- The resolver never throws. -/
def World.Answers (w : World) : Prop := ∀ n issuer, (w n).resolver issuer ≠ none

variable {u ed25519 w} {At : σ → List WireValue → Prop}

theorem port_lawful (hu : u.Lawful At) (hf : u.Framed At) :
    (port u ed25519 w : Port hash).Lawful := by
  refine Port.ofReadings_lawful ?_ ?_ ?_
  · intro data payloads hp b hb
    obtain ⟨vs, rfl, hshort⟩ := exists_array_of_elements hu hf hp
    exact hshort b (mem_of_mem_leading hb)
  · intro data op hop
    obtain ⟨s, vs, rest, -, -, -, hshort, v, tail, rfl, -⟩ :=
      exists_array_of_fromPayload hu hf (eq_ok_of_toOption hop)
    have hissuer := hshort op.tuple.issuer.val List.mem_cons_self
    rwa [op.tuple.issuer.property] at hissuer
  · intro data op hop payloads hp b hb
    obtain ⟨s, vs, rest, hne, hfeed, hs, -, v, tail, rfl, hv⟩ :=
      exists_array_of_fromPayload hu hf (eq_ok_of_toOption hop)
    rw [elements_eq hu hne hfeed hs, Option.mem_some_iff] at hp
    obtain rfl := hp
    rw [leading, leading, leading_of_ne hv, List.mem_cons, List.mem_singleton] at hb
    rcases hb with rfl | rfl
    · exact op.tuple.issuer.property.le
    · exact op.tuple.grantee.property.le

theorem now_applyOptions (nowMs maxFutureMs : ℤ) (wall : ℕ) :
    (applyOptions nowMs maxFutureMs).nowMs.getD wall =
      (StateVector.clockReading wall nowMs : ℤ) := by
  unfold applyOptions StateVector.clockReading
  split_ifs with h
  · rfl
  · exact (Int.toNat_of_nonneg (not_lt.mp h)).symm

theorem fromPayload_nil : fromPayload u [] = .error "payload is empty" := rfl

/-- `ingest` is the write of the map where the operation is authentic and admitted. -/
theorem ingest_refines (hw : w.Answers) (nowMs maxFutureMs : ℤ) (op : Operation)
    (r : DeltaReceiver hash) :
    (r.ingest ed25519 w nowMs maxFutureMs op).onMap =
      if verifyOperation ed25519 op ((w r.ingested).resolver op.tuple.issuer) = some true ∧
          r.onMap.state.Admits op (StateVector.clockReading (w r.ingested).wall nowMs)
            (StateVector.skewBound maxFutureMs) then
        (some true, ⟨r.onMap.state.record op, r.ingested + 1⟩)
      else (some false, ⟨r.onMap.state, r.ingested + 1⟩) := by
  unfold DeltaReceiver.ingest
  cases ha : (w r.ingested).resolver op.tuple.issuer with
  | none => exact absurd ha (hw _ _)
  | some keyset? =>
    have hverify : verifyOperation ed25519 op (some keyset?) ≠ none := by
      cases keyset? with
      | none => exact Option.some_ne_none _
      | some keyset => exact Option.some_ne_none _
    obtain ⟨verified, hv⟩ := Option.ne_none_iff_exists'.mp hverify
    dsimp only
    rw [ha, hv]
    cases verified with
    | false =>
      rw [if_neg fun h => by cases h.1]
      rfl
    | true =>
      have happly := StateVector.toStateVector_apply r.state op (w r.ingested).wall nowMs
        maxFutureMs
      rw [Dacar.StateVector.apply_eq] at happly
      have hstate : r.onMap.state = r.state.toStateVector := rfl
      dsimp only
      rw [hstate]
      unfold Settled.onMap DeltaReceiver.onMap
      dsimp only
      by_cases hadmits : r.state.toStateVector.Admits op
          (StateVector.clockReading (w r.ingested).wall nowMs) (StateVector.skewBound maxFutureMs)
      · rw [if_pos hadmits] at happly
        obtain ⟨happlied, hwritten⟩ := Prod.mk.inj happly
        rw [if_pos ⟨rfl, hadmits⟩, ← happlied, ← hwritten]
      · rw [if_neg hadmits] at happly
        obtain ⟨happlied, hwritten⟩ := Prod.mk.inj happly
        rw [if_neg fun h => hadmits h.2, ← happlied, ← hwritten]

theorem applyPayload_refines (hw : w.Answers) (nowMs maxFutureMs : ℤ) (payload : Bytes)
    (r : DeltaReceiver hash) :
    (r.applyPayload u ed25519 w nowMs maxFutureMs payload).onMap =
      (port u ed25519 w).applyPayload (applyOptions nowMs maxFutureMs) payload r.onMap := by
  have hport : (port u ed25519 w).applyPayload (applyOptions nowMs maxFutureMs) payload r.onMap =
      (some ((port u ed25519 w).passing (applyOptions nowMs maxFutureMs) r.onMap.state r.ingested
          payload).isSome,
        ⟨((port u ed25519 w).passing (applyOptions nowMs maxFutureMs) r.onMap.state r.ingested
          payload).elim r.onMap.state r.onMap.state.record,
          (port u ed25519 w : Port hash).next payload r.ingested⟩) := rfl
  rw [hport]
  cases ho : fromPayload u payload with
  | error e =>
    have hnone : (port u ed25519 w : Port hash).operation payload = none :=
      congrArg Except.toOption ho
    rw [Port.passing_of_none hnone, Port.next_of_none hnone, DeltaReceiver.applyPayload]
    split_ifs
    · rfl
    · rw [ho]
      rfl
  | ok op =>
    have hop : (port u ed25519 w : Port hash).operation payload = some op :=
      congrArg Except.toOption ho
    have hne : ¬ payload.isEmpty = true := by
      intro h
      rw [List.isEmpty_iff.mp h, fromPayload_nil] at ho
      cases ho
    rw [DeltaReceiver.applyPayload, if_neg hne, ho, Port.next_of_some hop]
    dsimp only
    rw [ingest_refines hw]
    have hnow : (port u ed25519 w : Port hash).now (applyOptions nowMs maxFutureMs) r.ingested =
        (StateVector.clockReading (w r.ingested).wall nowMs : ℤ) := now_applyOptions ..
    split_ifs with hpass
    · rw [Port.passing_eq_some hop (decide_eq_true hpass.1) (hnow ▸ hpass.2)]
      rfl
    · rw [Port.passing_eq_none hop fun h => hpass ⟨of_decide_eq_true h.1, hnow ▸ h.2⟩]
      rfl

theorem applyElements_eq_run (nowMs maxFutureMs : ℤ) (count : ℕ) (s : σ) (n : ℕ)
    (r : DeltaReceiver hash) :
    DeltaReceiver.applyElements u ed25519 w nowMs maxFutureMs count s n r =
      Batch.run (fun b r => r.applyPayload u ed25519 w nowMs maxFutureMs b) (gather u count s) n
        r := by
  induction count generalizing s n r with
  | zero => rfl
  | succ count ih =>
    rw [DeltaReceiver.applyElements, gather]
    cases (u.deserializeBin s).1 with
    | none => exact ih _ n r
    | some b =>
      dsimp only
      rw [Batch.run]
      cases r.applyPayload u ed25519 w nowMs maxFutureMs b with
      | mk result r' =>
        cases result with
        | none => rfl
        | some ok => exact ih _ _ r'

theorem applyPayloads_refines (hw : w.Answers) (nowMs maxFutureMs : ℤ) (payload : Bytes)
    (r : DeltaReceiver hash) :
    (r.applyPayloads u ed25519 w nowMs maxFutureMs payload).onMap =
      (port u ed25519 w).applyPayloads (applyOptions nowMs maxFutureMs) payload r.onMap := by
  have hport : (port u ed25519 w).applyPayloads (applyOptions nowMs maxFutureMs) payload r.onMap =
      (elements u payload).elim (some 0, r.onMap) fun bs =>
        Batch.run ((port u ed25519 w).applyPayload (applyOptions nowMs maxFutureMs)) bs 0
          r.onMap := rfl
  rw [hport, elements, DeltaReceiver.applyPayloads]
  cases DeltaReceiver.openBatch u payload with
  | none => rfl
  | some batch =>
    rw [Option.map_some, Option.elim_some,
      Batch.run_map (f := DeltaReceiver.onMap) fun b r =>
        (applyPayload_refines hw nowMs maxFutureMs b r).symm]
    dsimp only
    rw [applyElements_eq_run]
    rfl

/-- The endpoint takes its own clock and the default bound. -/
theorem handlePush_refines (hw : w.Answers) (request : Bytes) (r : DeltaReceiver hash) :
    (r.handlePush u ed25519 w (-1) defaultMaxFutureMs request).onMap =
      (port u ed25519 w).handlePush request r.onMap := by
  have hport : (port u ed25519 w).handlePush request r.onMap =
      if request.isEmpty then (some 0, r.onMap)
      else
        match (port u ed25519 w).applyPayload (applyOptions (-1) defaultMaxFutureMs) request
            r.onMap with
        | (none, r') => (none, r')
        | (some true, r') => (some 1, r')
        | (some false, r') =>
          match (port u ed25519 w).applyPayloads (applyOptions (-1) defaultMaxFutureMs) request
              r' with
          | (none, r'') => (some 0, r'')
          | settled => settled := rfl
  rw [hport, DeltaReceiver.handlePush, ← applyPayload_refines hw]
  split_ifs
  · rfl
  · cases r.applyPayload u ed25519 w (-1) defaultMaxFutureMs request with
    | mk result r' =>
      cases result with
      | none => rfl
      | some ok =>
        cases ok with
        | true => rfl
        | false =>
          have hall : (r'.applyPayloads u ed25519 w (-1) defaultMaxFutureMs request).onMap = _ :=
            applyPayloads_refines hw (-1) defaultMaxFutureMs request r'
          unfold Settled.onMap at hall ⊢
          dsimp only
          rw [← hall]
          cases r'.applyPayloads u ed25519 w (-1) defaultMaxFutureMs request with
          | mk result r'' =>
            cases result with
            | none => rfl
            | some n => rfl

/-- A batch comes to the byte strings before its first element that is none.  It comes to what
all its byte strings come to, each by itself, just when nothing behind that element would have
been taken. -/
theorem batch_stops (hu : u.Lawful At) (hf : u.Framed At) (hw : w.Answers)
    {payload : Bytes} {s : σ} {vs rest : List WireValue} (hne : payload ≠ [])
    (hfeed : u.feed payload = some s) (hs : At s (.array vs :: rest)) (nowMs maxFutureMs : ℤ)
    (r : DeltaReceiver hash) :
    let P : Port hash := port u ed25519 w
    let options := applyOptions nowMs maxFutureMs
    let after := r.applyPayloads u ed25519 w nowMs maxFutureMs payload
    (after.1 = some (P.accepted options r.onMap (leading vs)).length ∧
      after.2.state.toStateVector = (P.accepted options r.onMap (leading vs)).foldl
        Dacar.StateVector.record r.state.toStateVector) ∧
    (after.1 = some (P.accepted options r.onMap (vs.filterMap WireValue.asBytes)).length ↔
      P.accepted options ⟨r.state.toStateVector,
        (leading vs).foldl (fun n b => P.next b n) r.ingested⟩ (behind vs) = []) := by
  intro P options after
  have hbatch : after.onMap = _ := (applyPayloads_refines hw nowMs maxFutureMs payload r).trans
    (Port.applyPayloads_eq (port_lawful hu hf) r.onMap (elements_eq hu hne hfeed hs))
  have hcount : after.1 = some (P.accepted options r.onMap (leading vs)).length :=
    congrArg Prod.fst hbatch
  refine ⟨⟨hcount, congrArg (fun x => x.2.state) hbatch⟩, ?_⟩
  rw [hcount, ← leading_append_behind]
  unfold Port.accepted
  rw [Batch.picks_append, List.length_append, Option.some.injEq, ← List.length_eq_zero_iff]
  exact left_eq_add

end Refines

/-! ## A grant behind a nil -/

section Scene

/-- The grant twice, with a nil between. -/
def splitBatch : Bytes := pack (.array [.bytes grantPayload, .null, .bytes grantPayload])

def splitReader : Cursor (List WireValue) :=
  { objectReader with
    feed := fun b =>
      if b = splitBatch then some [.array [.bin grantPayload, .nil, .bin grantPayload]]
      else if b = grantPayload then some [Python.grantWire 9]
      else none }

theorem splitReader_lawful : splitReader.Lawful Eq := { objectReader_lawful with }

theorem splitReader_framed : splitReader.Framed Eq := by
  intro data s _ hfeed
  change (if data = splitBatch then some [.array [.bin grantPayload, .nil, .bin grantPayload]]
    else if data = grantPayload then some [Python.grantWire 9] else none) = some s at hfeed
  split_ifs at hfeed with hsplit hgrant
  · obtain rfl := Option.some.inj hfeed
    refine ⟨_, [], rfl, ?_⟩
    rintro vs b ⟨⟩ hb
    obtain rfl : b = grantPayload := by simpa using hb
    rw [hsplit]
    decide +kernel
  · obtain rfl := Option.some.inj hfeed
    refine ⟨_, [], rfl, ?_⟩
    rintro vs b ⟨⟩ hb
    have hlong : 16 < data.length := by
      rw [hgrant]
      decide +kernel
    exact (grant_fields_short (by simpa using hb)).trans_lt hlong

def onlyKeyWorld : World := fun _ => ⟨fun _ => some (some Python.onlyKeyset), 1⟩

theorem onlyKeyWorld_answers : onlyKeyWorld.Answers := fun _ _ => Option.some_ne_none _

def blankReceiver : DeltaReceiver Tuple.key := ⟨.empty defaultDeletionHorizonDays, 0⟩

def splitPort : Port Tuple.key := port splitReader onlyKey onlyKeyWorld

/-- Of the two grants the first one is taken. -/
theorem batch_stops_split :
    (blankReceiver.applyPayloads splitReader onlyKey onlyKeyWorld (-1) defaultMaxFutureMs
        splitBatch).1 = some 1 ∧
      (blankReceiver.applyPayloads splitReader onlyKey onlyKeyWorld (-1) defaultMaxFutureMs
        splitBatch).1 ≠ some (splitPort.accepted (applyOptions (-1) defaultMaxFutureMs)
          blankReceiver.onMap [grantPayload, grantPayload]).length := by
  have hfeed : splitReader.feed splitBatch =
      some [.array [.bin grantPayload, .nil, .bin grantPayload]] := by
    unfold splitReader
    dsimp only
    rw [if_pos rfl]
  have hstops := @batch_stops _ _ _ _ splitReader onlyKey _ _ splitReader_lawful
    splitReader_framed onlyKeyWorld_answers _ _ _ _ (by decide +kernel) hfeed rfl (-1)
    defaultMaxFutureMs blankReceiver
  refine ⟨hstops.1.1.trans (by decide +kernel), fun h => ?_⟩
  have hnone := congrArg List.length (hstops.2.mp h)
  revert hnone
  decide +kernel

end Scene

end Cpp

end Dacar

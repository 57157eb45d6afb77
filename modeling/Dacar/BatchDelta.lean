import Dacar.Batch
import Dacar.PayloadAgreement
import Dacar.PythonDelta

/-!
# One Delta or a batch

A push is tried as one Delta and then, if that applied nothing, as a batch of them.  Every
element of a batch is judged by itself, and a Delta that was refused holds no byte string
long enough to be a Delta.
-/

namespace Dacar

open Fallible

variable {κ : Type*} [DecidableEq κ] {key : Tuple → κ}

/-- The `apply` command on the bytes it has read, up to the saving of the state; it takes no
empty payload. -/
def DeltaReceiver.cmdApply (p : Platform) (w : World) (data : Bytes) (r : DeltaReceiver key) :
    Settled key ℕ :=
  if data.isEmpty then (none, r)
  else
    match r.applyPayload p w {} data with
    | (none, r') => (none, r')
    | (some true, r') => (some 1, r')
    | (some false, r') => r'.applyPayloads p w {} data

def Python.DeltaReceiver.cmdApply (p : Python.Platform) (w : Python.World) (data : Bytes)
    (r : Dacar.DeltaReceiver key) : Settled key ℕ :=
  if data.isEmpty then (none, r)
  else
    match applyPayload p w {} false data r with
    | (none, r') => (none, r')
    | (some true, r') => (some 1, r')
    | (some false, r') => applyPayloads p w {} data r'

/-! ## A port -/

/-- What a receiver makes of bytes, in either port. -/
structure Port (key : Tuple → κ) where
  /-- The Operation that the bytes encode. -/
  operation : Bytes → Option Operation
  /-- The byte strings in the array that the bytes encode. -/
  elements : Bytes → Option (List Bytes)
  /-- What resolver and signatures say of the `n`-th operation the receiver looks at. -/
  authentic : ℕ → Operation → Bool
  now : ApplyOptions → ℕ → ℤ
  applyPayload : ApplyOptions → Bytes → DeltaReceiver key → Settled key Bool
  applyPayloads : ApplyOptions → Bytes → DeltaReceiver key → Settled key ℕ
  handlePush : Bytes → DeltaReceiver key → Settled key ℕ
  cmdApply : Bytes → DeltaReceiver key → Settled key ℕ

namespace Port

variable (P : Port key)

/-- The operation of a payload that decodes, authenticates and passes intake by itself, as
the `n`-th the receiver looks at. -/
def passing (options : ApplyOptions) (s : StateVector key) (n : ℕ) (payload : Bytes) :
    Option Operation :=
  (P.operation payload).filter fun op =>
    P.authentic n op && decide (s.Admits op (P.now options n) options.maxFutureMs)

/-- Only what decodes is looked at. -/
def next (payload : Bytes) (n : ℕ) : ℕ := if (P.operation payload).isSome then n + 1 else n

/-- The operations of a batch that pass, each by itself. -/
def accepted (options : ApplyOptions) (r : DeltaReceiver key) (payloads : List Bytes) :
    List Operation :=
  Batch.picks P.next (P.passing options r.state) r.ingested payloads

/-- A batch comes to its accepted operations, a push to its one operation or to the batch it
is read as; and a refused operation is no batch. -/
structure Isolates : Prop where
  batch : ∀ options payload payloads r, P.elements payload = some payloads →
    P.applyPayloads options payload r =
      (some (P.accepted options r payloads).length,
        ⟨(P.accepted options r payloads).foldl StateVector.record r.state,
          payloads.foldl (fun n b => P.next b n) r.ingested⟩)
  garbage : ∀ options payload r, P.elements payload = none →
    P.applyPayloads options payload r = (some 0, r)
  push : ∀ data r,
    (∃ op, P.passing {} r.state r.ingested data = some op ∧
      P.handlePush data r = (some 1, ⟨r.state.record op, r.ingested + 1⟩)) ∨
    (P.passing {} r.state r.ingested data = none ∧
      P.handlePush data r = P.applyPayloads {} data ⟨r.state, P.next data r.ingested⟩)
  refused : ∀ data op r, P.operation data = some op →
    P.passing {} r.state r.ingested data = none →
    P.handlePush data r = (some 0, ⟨r.state, r.ingested + 1⟩)
  command : ∀ data r, (P.cmdApply data r).2 = (P.handlePush data r).2

/-- At one clock reading and with one resolver the operations that pass are a filter of the
batch. -/
theorem accepted_of_fixed {options : ApplyOptions} {r : DeltaReceiver key}
    (hauthentic : ∀ n op, P.authentic n op = P.authentic r.ingested op)
    (hnow : ∀ n, P.now options n = P.now options r.ingested) (payloads : List Bytes) :
    P.accepted options r payloads =
      payloads.filterMap (P.passing options r.state r.ingested) := by
  have hpassing : P.passing options r.state = fun _ => P.passing options r.state r.ingested := by
    funext n payload
    unfold passing
    simp only [hauthentic n, hnow n]
  rw [accepted, hpassing, Batch.picks_const]

/-- How the entry points of a port come down to `applyPayload`, and how long operations and
the byte strings in them are. -/
structure Lawful : Prop where
  applyPayload : ∀ options payload (r : DeltaReceiver key),
    P.applyPayload options payload r =
      (some (P.passing options r.state r.ingested payload).isSome,
        ⟨(P.passing options r.state r.ingested payload).elim r.state r.state.record,
          P.next payload r.ingested⟩)
  applyPayloads : ∀ options payload r, P.applyPayloads options payload r =
    (P.elements payload).elim (some 0, r) fun bs => Batch.run (P.applyPayload options) bs 0 r
  handlePush : ∀ data r, P.handlePush data r =
    if data.isEmpty then (some 0, r)
    else
      match P.applyPayload {} data r with
      | (none, r') => (none, r')
      | (some true, r') => (some 1, r')
      | (some false, r') =>
        match P.applyPayloads {} data r' with
        | (none, r'') => (some 0, r'')
        | settled => settled
  cmdApply : ∀ data r, P.cmdApply data r =
    if data.isEmpty then (none, r)
    else
      match P.applyPayload {} data r with
      | (none, r') => (none, r')
      | (some true, r') => (some 1, r')
      | (some false, r') => P.applyPayloads {} data r'
  inside : ∀ data, ∀ payloads ∈ P.elements data, ∀ b ∈ payloads, b.length < data.length
  long : ∀ data op, P.operation data = some op → 16 < data.length
  short : ∀ data op, P.operation data = some op →
    ∀ payloads ∈ P.elements data, ∀ b ∈ payloads, b.length ≤ 16

/-- Operations and batches sit in the arrays that the port's decoder reads, and the byte
strings there are shorter than what they are read from. -/
structure Framed {V : Type*} (decodes : Bytes → List V → Prop) (bin : Bytes → V) : Prop where
  unique : ∀ data items items', decodes data items → decodes data items' → items = items'
  shorter : ∀ data items b, decodes data items → bin b ∈ items → b.length < data.length
  batch : ∀ data, ∀ payloads ∈ P.elements data,
    ∃ items, decodes data items ∧ ∀ b ∈ payloads, bin b ∈ items
  /-- An operation has its issuer in it, and no byte string of more than 16 bytes. -/
  operation : ∀ data op, P.operation data = some op →
    ∃ items, decodes data items ∧ bin op.tuple.issuer.val ∈ items ∧
      ∀ b, bin b ∈ items → b.length ≤ 16

section Framed

variable {P} {V : Type*} {decodes : Bytes → List V → Prop} {bin : Bytes → V}

theorem Framed.inside (h : P.Framed decodes bin) (data : Bytes) :
    ∀ payloads ∈ P.elements data, ∀ b ∈ payloads, b.length < data.length := by
  intro payloads hp b hb
  obtain ⟨items, hd, hbin⟩ := h.batch data payloads hp
  exact h.shorter data items b hd (hbin b hb)

theorem Framed.long (h : P.Framed decodes bin) (data : Bytes) (op : Operation)
    (hop : P.operation data = some op) : 16 < data.length := by
  obtain ⟨items, hd, hissuer, -⟩ := h.operation data op hop
  have hlt := h.shorter data items _ hd hissuer
  rwa [op.tuple.issuer.property] at hlt

theorem Framed.short (h : P.Framed decodes bin) (data : Bytes) (op : Operation)
    (hop : P.operation data = some op) :
    ∀ payloads ∈ P.elements data, ∀ b ∈ payloads, b.length ≤ 16 := by
  intro payloads hp b hb
  obtain ⟨items, hd, hbin⟩ := h.batch data payloads hp
  obtain ⟨items', hd', -, hshort⟩ := h.operation data op hop
  obtain rfl := h.unique data items items' hd hd'
  exact hshort b (hbin b hb)

end Framed

variable {P}

theorem passing_congr {options : ApplyOptions} {s t : StateVector key}
    (h : s.deletionHorizonMs = t.deletionHorizonMs) :
    P.passing options s = P.passing options t := by
  have hadmits : ∀ op now, s.Admits op now options.maxFutureMs ↔
      t.Admits op now options.maxFutureMs := by
    intro op now
    unfold StateVector.Admits
    rw [h]
  funext n payload
  simp only [passing, hadmits]

theorem passing_of_none {options : ApplyOptions} {s : StateVector key} {n : ℕ} {payload : Bytes}
    (h : P.operation payload = none) : P.passing options s n payload = none := by
  rw [passing, h]
  rfl

section Passing

variable {options : ApplyOptions} {s : StateVector key} {n : ℕ} {payload : Bytes} {op : Operation}

theorem passing_eq_some (h : P.operation payload = some op) (ha : P.authentic n op = true)
    (hs : s.Admits op (P.now options n) options.maxFutureMs) :
    P.passing options s n payload = some op := by
  rw [passing, h, Option.filter_some, if_pos (by simp [ha, hs])]

theorem passing_eq_none (h : P.operation payload = some op)
    (hno : ¬ (P.authentic n op = true ∧ s.Admits op (P.now options n) options.maxFutureMs)) :
    P.passing options s n payload = none := by
  rw [passing, h, Option.filter_some, if_neg (by simpa using hno)]

end Passing

theorem next_of_some {payload : Bytes} {n : ℕ} {op : Operation}
    (h : P.operation payload = some op) : P.next payload n = n + 1 := by
  rw [next, h]
  rfl

theorem next_of_none {payload : Bytes} {n : ℕ} (h : P.operation payload = none) :
    P.next payload n = n := by
  rw [next, h]
  rfl

theorem foldl_next_of_none {payloads : List Bytes} (h : ∀ b ∈ payloads, P.operation b = none)
    {n : ℕ} : payloads.foldl (fun n b => P.next b n) n = n := by
  induction payloads with
  | nil => rfl
  | cons b payloads ih =>
    rw [List.foldl_cons, next_of_none (h b List.mem_cons_self)]
    exact ih fun c hc => h c (List.mem_cons_of_mem b hc)

theorem applyPayloads_eq (h : P.Lawful) {options : ApplyOptions} {payload : Bytes}
    {payloads : List Bytes} (r : DeltaReceiver key) (hp : P.elements payload = some payloads) :
    P.applyPayloads options payload r =
      (some (P.accepted options r payloads).length,
        ⟨(P.accepted options r payloads).foldl StateVector.record r.state,
          payloads.foldl (fun n b => P.next b n) r.ingested⟩) := by
  rw [h.applyPayloads, hp]
  -- what is admitted depends on the state by its horizon only, which no write changes
  have hstep : ∀ b s n, s.deletionHorizonMs = r.state.deletionHorizonMs →
      P.applyPayload options b ⟨s, n⟩ =
        (some (P.passing options r.state n b).isSome,
          ⟨(P.passing options r.state n b).elim s s.record, P.next b n⟩) := by
    intro b s n hs
    rw [h.applyPayload, ← passing_congr hs]
  have hrun := Batch.run_eq hstep (fun s op hs => hs) payloads 0 r.ingested rfl
  rw [Nat.zero_add] at hrun
  exact hrun

theorem operation_nil (h : P.Lawful) : P.operation [] = none := by
  apply Option.eq_none_iff_forall_ne_some.mpr
  intro op hop
  exact absurd (h.long [] op hop) (Nat.not_lt_zero 16)

theorem elements_nil (h : P.Lawful) : ∀ payloads ∈ P.elements [], payloads = [] := by
  intro payloads hp
  apply List.eq_nil_iff_forall_not_mem.mpr
  intro b hb
  exact absurd (h.inside [] payloads hp b hb) (Nat.not_lt_zero _)

/-- Nothing in an operation is one. -/
theorem operation_of_mem (h : P.Lawful) {data : Bytes} {op : Operation}
    (hop : P.operation data = some op) : ∀ payloads ∈ P.elements data, ∀ b ∈ payloads,
      P.operation b = none := by
  intro payloads hp b hb
  apply Option.eq_none_iff_forall_ne_some.mpr
  intro op' hop'
  exact absurd (h.long b op' hop') (Nat.not_lt.mpr (h.short data op hop payloads hp b hb))

/-- The receiver that a refused payload leaves. -/
theorem applyPayload_of_refused (h : P.Lawful) {options : ApplyOptions} {data : Bytes}
    {r : DeltaReceiver key} (hp : P.passing options r.state r.ingested data = none) :
    P.applyPayload options data r = (some false, ⟨r.state, P.next data r.ingested⟩) := by
  rw [h.applyPayload, hp]
  rfl

theorem applyPayloads_settles (h : P.Lawful) (options : ApplyOptions) (payload : Bytes)
    (r : DeltaReceiver key) : ∃ n r', P.applyPayloads options payload r = (some n, r') := by
  cases hp : P.elements payload with
  | none => exact ⟨0, r, by rw [h.applyPayloads, hp]; rfl⟩
  | some payloads => exact ⟨_, _, applyPayloads_eq h r hp⟩

theorem handlePush_of_refused (h : P.Lawful) {data : Bytes} {r : DeltaReceiver key}
    (hp : P.passing {} r.state r.ingested data = none) :
    P.handlePush data r = P.applyPayloads {} data ⟨r.state, P.next data r.ingested⟩ := by
  rw [h.handlePush, applyPayload_of_refused h hp]
  cases data with
  | nil =>
    -- an empty push is turned away, and an empty batch has nothing in it
    rw [List.isEmpty_nil, if_pos rfl, next_of_none (operation_nil h), h.applyPayloads]
    cases he : P.elements [] with
    | none => rfl
    | some payloads =>
      rw [elements_nil h payloads he]
      rfl
  | cons b data =>
    rw [List.isEmpty_cons, if_neg Bool.false_ne_true]
    obtain ⟨n, r', hbatch⟩ :=
      applyPayloads_settles h {} (b :: data) ⟨r.state, P.next (b :: data) r.ingested⟩
    dsimp only
    rw [hbatch]

/-- Nothing in a refused operation is applied. -/
theorem applyPayloads_of_operation (h : P.Lawful) {data : Bytes} {op : Operation}
    (hop : P.operation data = some op) (r : DeltaReceiver key) :
    P.applyPayloads {} data r = (some 0, r) := by
  cases he : P.elements data with
  | none =>
    rw [h.applyPayloads, he]
    rfl
  | some payloads =>
    have hinner := operation_of_mem h hop payloads he
    have hnone : P.accepted {} r payloads = [] :=
      Batch.picks_eq_nil fun n b hb => passing_of_none (hinner b hb)
    rw [applyPayloads_eq h r he, hnone, foldl_next_of_none hinner]
    rfl

theorem isolates (h : P.Lawful) : P.Isolates where
  batch _ _ _ r hp := applyPayloads_eq h r hp
  garbage _ _ _ hp := by
    rw [h.applyPayloads, hp]
    rfl
  push data r := by
    cases hp : P.passing {} r.state r.ingested data with
    | none => exact .inr ⟨rfl, handlePush_of_refused h hp⟩
    | some op =>
      have hop : P.operation data = some op := (Option.filter_eq_some_iff.mp hp).1
      have hne : data ≠ [] := by
        rintro rfl
        rw [operation_nil h] at hop
        cases hop
      refine .inl ⟨op, rfl, ?_⟩
      rw [h.handlePush, if_neg (by simpa using hne), h.applyPayload, hp, next, hop]
      rfl
  refused data op r hop hp := by
    rw [handlePush_of_refused h hp, applyPayloads_of_operation h hop, next, hop]
    rfl
  command data r := by
    rw [h.cmdApply, h.handlePush]
    split_ifs
    · rfl
    · split
      · rfl
      · rfl
      · rename_i r' _
        obtain ⟨n, r'', hbatch⟩ := applyPayloads_settles h {} data r'
        rw [hbatch]

end Port

/-! ## The JavaScript receiver -/

section JavaScript

variable (p : Platform) (w : World)

def batchOf (payload : Bytes) : Option (List Bytes) :=
  match p.msgPackDecode payload with
  | .ok (.array items) => some (items.filterMap JsValue.asBytes)
  | _ => none

def javascriptPort : Port key where
  operation b := (Operation.fromPayload p.msgPackDecode b).toOption
  elements := batchOf p
  authentic n op := decide (verifyOperation p op ((w n).resolver op.tuple.issuer) = some true)
  now options n := options.now (w n)
  applyPayload options b r := r.applyPayload p w options b
  applyPayloads options b r := r.applyPayloads p w options b
  handlePush data r := r.handlePush p w (some data)
  cmdApply data r := r.cmdApply p w data

variable {p w}

theorem js_applyPayload_eq (hw : ∀ n issuer, (w n).resolver issuer ≠ .throws)
    (options : ApplyOptions) (payload : Bytes) (r : DeltaReceiver key) :
    r.applyPayload p w options payload =
      (some ((javascriptPort p w).passing options r.state r.ingested payload).isSome,
        ⟨((javascriptPort p w).passing options r.state r.ingested payload).elim r.state
            r.state.record, (javascriptPort p w : Port key).next payload r.ingested⟩) := by
  unfold DeltaReceiver.applyPayload
  cases ho : Operation.fromPayload p.msgPackDecode payload with
  | error e =>
    have hnone : (javascriptPort p w : Port key).operation payload = none :=
      congrArg Except.toOption ho
    rw [Port.passing_of_none hnone, Port.next_of_none hnone]
    rfl
  | ok op =>
    have hop : (javascriptPort p w : Port key).operation payload = some op :=
      congrArg Except.toOption ho
    have hverify : verifyOperation p op ((w r.ingested).resolver op.tuple.issuer) ≠ none := by
      cases ha : (w r.ingested).resolver op.tuple.issuer with
      | throws => exact absurd ha (hw _ _)
      | unknown => exact Option.some_ne_none _
      | keyset ks => exact Option.some_ne_none _
    obtain ⟨verified, hv⟩ := Option.ne_none_iff_exists'.mp hverify
    unfold DeltaReceiver.ingest
    dsimp only
    rw [hv, Port.next_of_some hop]
    cases verified with
    | false =>
      have hno : ¬ ((javascriptPort p w : Port key).authentic r.ingested op = true ∧
          r.state.Admits op (options.now (w r.ingested)) options.maxFutureMs) := fun h =>
        absurd (hv.symm.trans (of_decide_eq_true h.1)) (by decide)
      rw [Port.passing_eq_none hop hno]
      rfl
    | true =>
      dsimp only
      rw [StateVector.apply_eq]
      by_cases hadmits : r.state.Admits op (options.now (w r.ingested)) options.maxFutureMs
      · rw [if_pos hadmits, Port.passing_eq_some hop (decide_eq_true hv) hadmits]
        rfl
      · rw [if_neg hadmits, Port.passing_eq_none hop fun h => hadmits h.2]
        rfl

theorem applyItems_eq_run (options : ApplyOptions) (items : List JsValue) (n : ℕ)
    (r : DeltaReceiver key) :
    DeltaReceiver.applyItems p w options items n r =
      Batch.run (fun b r => r.applyPayload p w options b) (items.filterMap JsValue.asBytes) n
        r := by
  induction items generalizing n r with
  | nil => rfl
  | cons item items ih =>
    cases item with
    | bytes b =>
      have hbytes : JsValue.asBytes (.bytes b) = some b := rfl
      rw [DeltaReceiver.applyItems, List.filterMap_cons_some hbytes, Batch.run]
      cases r.applyPayload p w options b with
      | mk result r' =>
        cases result with
        | none => rfl
        | some ok => exact ih _ r'
    | null | bool | number | bigint | string | array | object => exact ih n r

theorem eq_of_expectBytes {n : ℕ} {name : String} {b : Bytes} {blob : Blob n}
    (h : (expectBytes n name (.bytes b)).toOption = some blob) : b = blob.val := by
  rw [expectBytes] at h
  split_ifs at h
  · exact congrArg Subtype.val (Option.some.inj h)
  · cases h

theorem length_of_expectBytes {n : ℕ} {name : String} {b : Bytes} {blob : Blob n}
    (h : (expectBytes n name (.bytes b)).toOption = some blob) : b.length ≤ n := by
  rw [eq_of_expectBytes h]
  exact blob.property.le

/-- The elements of an operation: its issuer, and no byte string of more than 16 bytes. -/
theorem bytes_of_fromValue {v : JsValue} {op : Operation}
    (h : (Operation.fromValue v).toOption = some op) :
    ∃ items, v = .array items ∧ .bytes op.tuple.issuer.val ∈ items ∧
      ∀ b, .bytes b ∈ items → b.length ≤ 16 := by
  rw [Operation.fromValue.eq_def] at h
  split at h
  · rename_i issuer grantee action hlc relationHash objectHashes wildcard signatures
    rw [toOption_bind, Option.bind_eq_some_iff] at h
    obtain ⟨a, haction, h⟩ := h
    split at h
    · simp only [pure_bind, toOption_bind, Option.bind_eq_some_iff, tupleMake_eq_some,
        operationMake_eq_some] at h
      obtain ⟨r, hr, os, hos, flag, hflag, g, hg, i, hi, t, ⟨-, -, -, -, rfl⟩, n, hn, -, -, rfl,
        -⟩ := h
      refine ⟨_, rfl, ?_, ?_⟩
      · cases issuer with
        | bytes b =>
          rw [eq_of_expectBytes hi]
          exact List.mem_cons_self
        | _ => cases hi
      · intro b hb
        simp only [List.mem_cons, List.not_mem_nil, or_false] at hb
        rcases hb with rfl | rfl | rfl | rfl | rfl | rfl | rfl | hb
        · exact length_of_expectBytes hi
        · exact length_of_expectBytes hg
        · cases haction
        · -- `BigInt` reads at most one byte
          rcases b with _ | ⟨x, _ | ⟨y, b⟩⟩
          · exact Nat.zero_le _
          · exact Nat.succ_le_of_lt (by decide)
          · cases hn
        · exact length_of_expectBytes hr
        · -- the bytes of a byte string are Numbers, which are no hashes
          cases b with
          | nil => exact Nat.zero_le _
          | cons x b => cases hos
        · cases hflag
        · cases hb
    · cases h
  · cases h

theorem fromPayload_eq_some {data : Bytes} {op : Operation} :
    (Operation.fromPayload p.msgPackDecode data).toOption = some op ↔
      ∃ v, p.msgPackDecode data = .ok v ∧ (Operation.fromValue v).toOption = some op := by
  unfold Operation.fromPayload
  cases p.msgPackDecode data with
  | error e => exact iff_of_false (fun h => by cases h) fun ⟨v, hv, _⟩ => by cases hv
  | ok v => simp

theorem JsValue.eq_of_asBytes {v : JsValue} {b : Bytes} (h : v.asBytes = some b) :
    v = .bytes b := by
  cases v with
  | bytes c => exact congrArg JsValue.bytes (Option.some.inj h)
  | _ => cases h

theorem mem_of_mem_filterMap {α β : Type} {f : α → Option β} {g : β → α}
    (hf : ∀ a b, f a = some b → a = g b) {as : List α} {b : β} (h : b ∈ as.filterMap f) :
    g b ∈ as := by
  obtain ⟨a, ha, hb⟩ := List.mem_filterMap.mp h
  exact hf a b hb ▸ ha

theorem batchOf_eq_some {data : Bytes} {payloads : List Bytes}
    (h : batchOf p data = some payloads) :
    ∃ items, p.msgPackDecode data = .ok (.array items) ∧
      ∀ b ∈ payloads, .bytes b ∈ items := by
  unfold batchOf at h
  split at h
  · rename_i items hd
    obtain rfl := Option.some.inj h
    exact ⟨items, hd, fun b hb => mem_of_mem_filterMap (fun _ _ => JsValue.eq_of_asBytes) hb⟩
  · cases h

theorem applyPayloads_eq_run (options : ApplyOptions) (payload : Bytes) (r : DeltaReceiver key) :
    r.applyPayloads p w options payload = (batchOf p payload).elim (some 0, r)
      fun bs => Batch.run (fun b r => r.applyPayload p w options b) bs 0 r := by
  unfold DeltaReceiver.applyPayloads batchOf
  cases p.msgPackDecode payload with
  | error e => rfl
  | ok v =>
    cases v with
    | array items => exact applyItems_eq_run options items 0 r
    | _ => rfl

theorem javascript_framed
    (hbin : ∀ data items b, p.msgPackDecode data = .ok (.array items) → .bytes b ∈ items →
      b.length < data.length) :
    (javascriptPort p w : Port key).Framed
      (fun data items => p.msgPackDecode data = .ok (.array items)) JsValue.bytes where
  unique _ _ _ hd hd' := JsValue.array.inj (Except.ok.inj (hd.symm.trans hd'))
  shorter := hbin
  batch _ _ hp := batchOf_eq_some hp
  operation data op hop := by
    obtain ⟨v, hd, hv⟩ := fromPayload_eq_some.mp hop
    obtain ⟨items, rfl, hitems⟩ := bytes_of_fromValue hv
    exact ⟨items, hd, hitems⟩

theorem javascript_lawful (hw : ∀ n issuer, (w n).resolver issuer ≠ .throws)
    (hbin : ∀ data items b, p.msgPackDecode data = .ok (.array items) → .bytes b ∈ items →
      b.length < data.length) : (javascriptPort p w : Port key).Lawful where
  applyPayload := js_applyPayload_eq hw
  applyPayloads := applyPayloads_eq_run
  handlePush _ _ := rfl
  cmdApply _ _ := rfl
  inside := (javascript_framed hbin).inside
  long := (javascript_framed hbin).long
  short := (javascript_framed hbin).short

end JavaScript

/-! ## The Python receiver -/

def WireValue.asBytes : WireValue → Option Bytes
  | .bin b => some b
  | _ => none

theorem WireValue.eq_of_asBytes {v : WireValue} {b : Bytes} (h : v.asBytes = some b) :
    v = .bin b := by
  cases v with
  | bin c => exact congrArg WireValue.bin (Option.some.inj h)
  | _ => cases h

namespace Python

variable (p : Platform) (w : World)

def batchOf (payload : Bytes) : Option (List Bytes) :=
  match p.unpackb payload with
  | .ok (.array items) => some (items.filterMap WireValue.asBytes)
  | _ => none

def port : Port key where
  operation b := (Operation.fromPayload p.unpackb b).toOption
  elements := batchOf p
  -- the issuer is looked up before the signatures are
  authentic n op := ((w n).known op.tuple.issuer).any Option.isSome &&
    decide (verifyOperation p op ((w n).resolver op.tuple.issuer) = some true)
  now options n := now options (w n)
  applyPayload options b r := DeltaReceiver.applyPayload p w options false b r
  applyPayloads options b r := DeltaReceiver.applyPayloads p w options b r
  handlePush data r := DeltaReceiver.handlePush p w data r
  cmdApply data r := DeltaReceiver.cmdApply p w data r

variable {p w}

theorem applyPayload_eq (hw : Answers w) (options : ApplyOptions) (payload : Bytes)
    (r : Dacar.DeltaReceiver key) :
    DeltaReceiver.applyPayload p w options false payload r =
      (some ((port p w).passing options r.state r.ingested payload).isSome,
        ⟨((port p w).passing options r.state r.ingested payload).elim r.state r.state.record,
          (port p w : Port key).next payload r.ingested⟩) := by
  cases ho : Operation.fromPayload p.unpackb payload with
  | error e =>
    have hnone : (port p w : Port key).operation payload = none := congrArg Except.toOption ho
    rw [DeltaReceiver.applyPayload_of_error ho, Port.passing_of_none hnone, Port.next_of_none hnone]
    rfl
  | ok op =>
    have hop : (port p w : Port key).operation payload = some op := congrArg Except.toOption ho
    rw [Port.next_of_some hop]
    obtain ⟨keyset?, hknown⟩ := Option.ne_none_iff_exists'.mp (hw.known r.ingested op.tuple.issuer)
    have hauthentic : (port p w : Port key).authentic r.ingested op = (keyset?.isSome &&
        decide (verifyOperation p op ((w r.ingested).resolver op.tuple.issuer) = some true)) := by
      change (((w r.ingested).known op.tuple.issuer).any Option.isSome && _) = _
      rw [hknown, Option.any_some]
    cases keyset? with
    | none =>
      rw [DeltaReceiver.applyPayload_of_unknown ho hknown, Port.passing_eq_none hop (by
        rw [hauthentic]
        exact fun h => Bool.false_ne_true h.1)]
      rfl
    | some keyset =>
      rw [Option.isSome_some, Bool.true_and] at hauthentic
      rw [DeltaReceiver.applyPayload_of_known hw ho hknown]
      by_cases hin : Ingested p (w r.ingested) options r.state op
      · rw [if_pos hin, Port.passing_eq_some hop (hauthentic.trans (decide_eq_true hin.1)) hin.2]
        rfl
      · rw [if_neg hin, if_neg Bool.false_ne_true, Port.passing_eq_none hop fun h =>
          hin ⟨of_decide_eq_true (hauthentic.symm.trans h.1), h.2⟩]
        rfl

theorem applyItems_eq_run (options : ApplyOptions) (items : List WireValue) (n : ℕ)
    (r : Dacar.DeltaReceiver key) :
    DeltaReceiver.applyItems p w options items n r =
      Batch.run (fun b r => DeltaReceiver.applyPayload p w options false b r)
        (items.filterMap WireValue.asBytes) n r := by
  induction items generalizing n r with
  | nil => rfl
  | cons item items ih =>
    cases item with
    | bin b =>
      have hbytes : WireValue.asBytes (.bin b) = some b := rfl
      rw [DeltaReceiver.applyItems, List.filterMap_cons_some hbytes, Batch.run]
      cases DeltaReceiver.applyPayload p w options false b r with
      | mk result r' =>
        cases result with
        | none => rfl
        | some ok => exact ih _ r'
    | nil | bool | int | float | str | array | map | ext => exact ih n r

theorem applyPayloads_eq_run (options : ApplyOptions) (payload : Bytes)
    (r : Dacar.DeltaReceiver key) :
    DeltaReceiver.applyPayloads p w options payload r = (batchOf p payload).elim (some 0, r)
      fun bs => Batch.run (fun b r => DeltaReceiver.applyPayload p w options false b r) bs 0 r := by
  unfold DeltaReceiver.applyPayloads batchOf
  cases p.unpackb payload with
  | error e => rfl
  | ok v =>
    cases v with
    | array items => exact applyItems_eq_run options items 0 r
    | _ => rfl

theorem batchOf_eq_some {data : Bytes} {payloads : List Bytes}
    (h : batchOf p data = some payloads) :
    ∃ items, p.unpackb data = .ok (.array items) ∧ ∀ b ∈ payloads, .bin b ∈ items := by
  unfold batchOf at h
  split at h
  · rename_i items hd
    obtain rfl := Option.some.inj h
    exact ⟨items, hd, fun b hb => mem_of_mem_filterMap (fun _ _ => WireValue.eq_of_asBytes) hb⟩
  · cases h

theorem fromPayload_eq_some {data : Bytes} {op : Dacar.Operation} :
    (Operation.fromPayload p.unpackb data).toOption = some op ↔
      ∃ v, p.unpackb data = .ok v ∧ (Operation.fromValue v).toOption = some op := by
  unfold Operation.fromPayload
  cases p.unpackb data with
  | error e => exact iff_of_false (fun h => by cases h) fun ⟨v, hv, _⟩ => by cases hv
  | ok v => simp

/-- The elements of an operation: its issuer, and no byte string of more than 16 bytes. -/
theorem bytes_of_fromValue {v : WireValue} {op : Dacar.Operation}
    (h : (Operation.fromValue v).toOption = some op) :
    ∃ items, v = .array items ∧ .bin op.tuple.issuer.val ∈ items ∧
      ∀ b, .bin b ∈ items → b.length ≤ 16 := by
  have hshape := h
  rw [Operation.fromValue.eq_def] at hshape
  split at hshape
  · rename_i issuer grantee action hlc relationHash objectHashes wildcard signatures
    have hreads := pyFromValue_eq_some.mp h
    obtain rfl := blobOf_eq_some.mp hreads.issuer
    obtain rfl := blobOf_eq_some.mp hreads.grantee
    obtain rfl := blobOf_eq_some.mp hreads.relationHash
    refine ⟨_, rfl, List.mem_cons_self, ?_⟩
    intro b hb
    simp only [List.mem_cons, WireValue.bin.injEq, List.not_mem_nil, or_false] at hb
    rcases hb with rfl | rfl | rfl | rfl | rfl | rfl | rfl | rfl
    · exact op.tuple.issuer.property.le
    · exact op.tuple.grantee.property.le
    · cases hreads.action
    · cases hreads.hlc
    · exact op.tuple.relationHash.property.le
    · cases hreads.objectHashes
    · cases hreads.wildcard
    · cases hreads.signatures
  · cases hshape

theorem framed
    (hbin : ∀ data items b, p.unpackb data = .ok (.array items) → .bin b ∈ items →
      b.length < data.length) :
    (port p w : Port key).Framed (fun data items => p.unpackb data = .ok (.array items))
      WireValue.bin where
  unique _ _ _ hd hd' := WireValue.array.inj (Except.ok.inj (hd.symm.trans hd'))
  shorter := hbin
  batch _ _ hp := batchOf_eq_some hp
  operation data op hop := by
    obtain ⟨v, hd, hv⟩ := fromPayload_eq_some.mp hop
    obtain ⟨items, rfl, hitems⟩ := bytes_of_fromValue hv
    exact ⟨items, hd, hitems⟩

theorem lawful (hw : Answers w)
    (hbin : ∀ data items b, p.unpackb data = .ok (.array items) → .bin b ∈ items →
      b.length < data.length) : (port p w : Port key).Lawful where
  applyPayload := applyPayload_eq hw
  applyPayloads := applyPayloads_eq_run
  handlePush _ _ := rfl
  cmdApply _ _ := rfl
  inside := (framed hbin).inside
  long := (framed hbin).long
  short := (framed hbin).short

end Python

/-- In both ports a batch comes to the operations in it that pass by themselves, a push or an
`apply` to its one operation or to the batch, and a refused operation to nothing. -/
theorem batch_isolated {p : Platform} {w : World} {p' : Python.Platform} {w' : Python.World}
    (hw : ∀ n issuer, (w n).resolver issuer ≠ .throws)
    (hbin : ∀ data items b, p.msgPackDecode data = .ok (.array items) → .bytes b ∈ items →
      b.length < data.length)
    (hw' : Python.Answers w')
    (hbin' : ∀ data items b, p'.unpackb data = .ok (.array items) → .bin b ∈ items →
      b.length < data.length) :
    (javascriptPort p w : Port key).Isolates ∧ (Python.port p' w' : Port key).Isolates :=
  ⟨Port.isolates (javascript_lawful hw hbin), Port.isolates (Python.lawful hw' hbin')⟩

/-! ## An operation with an operation for its issuer -/

section Nested

/-- Eight elements, as an operation has, but the first is a whole Delta. -/
def nestedPayload : Bytes :=
  pack (.array [.bytes grantPayload, .bytes grantedTuple.grantee.val, .number (.finite 1),
    .bigint 65536, .bytes grantedTuple.relationHash.val, .array [], .bool true,
    .array [.bytes (Blob.fill 64 9).val]])

open Python (blankReceiver)

/-- It is no operation, and the batch it is read as applies the Delta in it. -/
theorem nested_operation_applied :
    (Operation.fromPayload onlyKeyPlatform.msgPackDecode nestedPayload).toOption = none ∧
      (blankReceiver.handlePush onlyKeyPlatform onlyKeyWorld (some nestedPayload)).1 = some 1 ∧
      (blankReceiver.handlePush onlyKeyPlatform onlyKeyWorld
        (some nestedPayload)).2.state.isActive grantedTuple.key = true ∧
      blankReceiver.state.isActive grantedTuple.key = false := by
  refine ⟨?_, ?_, ?_, ?_⟩ <;> decide +kernel

end Nested

/-! ## One grant -/

section OneGrant

def grantValue : JsValue :=
  .array [.bytes grantedTuple.issuer.val, .bytes grantedTuple.grantee.val,
    .number (.finite 1), .bigint 65536, .bytes grantedTuple.relationHash.val, .array [],
    .bool true, .array [.bytes (Blob.fill 64 9).val]]

def oneGrantPlatform : Platform where
  msgPackDecode := fun data =>
    if data = grantPayload then .ok grantValue else .error "Insufficient data"
  ed25519 := onlyKey
  textDecoder := fun _ => ""

theorem grant_fields_short {b : Bytes} (h : b = grantedTuple.issuer.val ∨
    b = grantedTuple.grantee.val ∨ b = grantedTuple.relationHash.val) : b.length ≤ 16 := by
  rcases h with rfl | rfl | rfl
  · exact grantedTuple.issuer.property.le
  · exact grantedTuple.grantee.property.le
  · exact grantedTuple.relationHash.property.le

theorem oneGrant_shorter (data : Bytes) (items : List JsValue) (b : Bytes)
    (hd : oneGrantPlatform.msgPackDecode data = .ok (.array items)) (hb : .bytes b ∈ items) :
    b.length < data.length := by
  rw [oneGrantPlatform] at hd
  dsimp only at hd
  split_ifs at hd with hdata
  · obtain rfl := JsValue.array.inj (Except.ok.inj hd)
    have hlong : 16 < data.length := by
      rw [hdata]
      decide +kernel
    exact (grant_fields_short (by simpa using hb)).trans_lt hlong

theorem grantWire_shorter (data : Bytes) (items : List WireValue) (b : Bytes)
    (hd : Python.onlyKeyPlatform.unpackb data = .ok (.array items)) (hb : .bin b ∈ items) :
    b.length < data.length := by
  rw [Python.onlyKeyPlatform] at hd
  dsimp only at hd
  split_ifs at hd with hgrant hforged
  · obtain rfl := WireValue.array.inj (Except.ok.inj hd)
    have hlong : 16 < data.length := by
      rw [hgrant]
      decide +kernel
    exact (grant_fields_short (by simpa using hb)).trans_lt hlong
  · obtain rfl := WireValue.array.inj (Except.ok.inj hd)
    have hlong : 16 < data.length := by
      rw [hforged]
      decide +kernel
    exact (grant_fields_short (by simpa using hb)).trans_lt hlong

theorem batch_isolated_grant :
    (javascriptPort oneGrantPlatform onlyKeyWorld : Port Tuple.key).Isolates ∧
      (Python.port Python.onlyKeyPlatform Python.onlyKeyWorld : Port Tuple.key).Isolates :=
  batch_isolated (fun _ _ h => by cases h) oneGrant_shorter Python.onlyKeyWorld_answers
    grantWire_shorter

end OneGrant

end Dacar

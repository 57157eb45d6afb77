import Dacar.Delta

/-!
# Provenance of the state

Five entry points and two nested decoders lead into the state, all of them through
`ingest`.  So one relation says what any call can do to a receiver: ingest operations
decoded from the byte strings the call delivers, one after the other, recording those
that are authentic and fresh.
-/

namespace Dacar

open Relation

section Accepted

variable (p : Platform)

/-- Exactly `N` signatures, each valid under a different member key. -/
structure SignedBy (ks : IssuerKeyset) (op : Operation) : Prop where
  count : op.signatures.length = ks.threshold
  keys : ∃ keys : List RnsPublicKey, keys.Nodup ∧ (∀ k ∈ keys, k ∈ ks.memberPublicKeys) ∧
    List.Forall₂ (fun k sig => op.validUnder p.ed25519 k.ed25519 sig = true) keys op.signatures

/-- What it takes to be recorded at a moment: the payload decodes to the operation, the
keyset the resolver gives for its issuer signed it, and it is neither too far ahead nor
past the horizon. -/
structure Accepted (m : Moment) (horizonMs : ℤ) (options : ApplyOptions) (payload : Bytes)
    (op : Operation) : Prop where
  decoded : Operation.fromPayload p.msgPackDecode payload = .ok op
  signed : ∃ ks, m.resolver op.tuple.issuer = .keyset ks ∧ SignedBy p ks op
  notAhead : ∀ f ∈ options.maxFutureMs, (physical op.hlc : ℤ) ≤ options.now m + f
  notStale : options.now m - horizonMs ≤ physical op.hlc

variable {p}

theorem signedBy_of_verifyKeyset {op : Operation} {ks : IssuerKeyset}
    (h : op.verifyKeyset p.ed25519 ks = true) : SignedBy p ks op := by
  obtain ⟨-, hlen, hmatch⟩ := GreedyMatch.threshold_eq_true.mp h
  obtain ⟨used, hused⟩ := Option.isSome_iff_exists.mp hmatch
  obtain ⟨keys, hmem, hvalid, hnodup, -, -⟩ := GreedyMatch.matchAll_sound hused
  rw [List.map_id] at hnodup
  exact ⟨by exact_mod_cast hlen, keys, hnodup, hmem, hvalid⟩

theorem verifyOperation_eq_true {op : Operation} {answer : KeyAnswer}
    (h : verifyOperation p op answer = some true) :
    ∃ ks, answer = .keyset ks ∧ SignedBy p ks op := by
  cases answer with
  | throws => cases h
  | unknown => cases h
  | keyset ks => exact ⟨ks, rfl, signedBy_of_verifyKeyset (Option.some.inj h)⟩

end Accepted

/-! ## One call -/

variable (p : Platform) (w : World)
variable {κ : Type*} [DecidableEq κ] {key : Tuple → κ}

/-- One operation is ingested: recorded if it is accepted, and otherwise dropped. -/
inductive Ingests (options : ApplyOptions) (deltas : List Bytes) :
    DeltaReceiver key → DeltaReceiver key → Prop
  | recorded {r : DeltaReceiver key} {payload : Bytes} {op : Operation} (hp : payload ∈ deltas)
      (h : Accepted p (w r.ingested) r.state.deletionHorizonMs options payload op) :
      Ingests options deltas r ⟨r.state.record op, r.ingested + 1⟩
  | dropped {r : DeltaReceiver key} :
      Ingests options deltas r { r with ingested := r.ingested + 1 }

namespace DeltaReceiver

variable {p w} {options : ApplyOptions} {deltas : List Bytes}

theorem ingests_ingest {payload : Bytes} {op : Operation} (hp : payload ∈ deltas)
    (hd : Operation.fromPayload p.msgPackDecode payload = .ok op) (r : DeltaReceiver key) :
    Ingests p w options deltas r (r.ingest p w options op).2 := by
  unfold ingest
  cases hv : verifyOperation p op ((w r.ingested).resolver op.tuple.issuer) with
  | none =>
    simp only [hv]
    exact .dropped
  | some verified =>
    cases verified with
    | false =>
      simp only [hv]
      exact .dropped
    | true =>
      simp only [hv, StateVector.apply_eq]
      split_ifs with hadmit
      · exact .recorded hp ⟨hd, verifyOperation_eq_true hv, hadmit.1, hadmit.2⟩
      · exact .dropped

theorem reaches_applyPayload {payload : Bytes} (hp : payload ∈ deltas) (r : DeltaReceiver key) :
    ReflTransGen (Ingests p w options deltas) r (r.applyPayload p w options payload).2 := by
  unfold applyPayload
  cases hd : Operation.fromPayload p.msgPackDecode payload with
  | error e => exact .refl
  | ok op => exact .single (ingests_ingest hp hd r)

theorem reaches_applyItems {items : List JsValue}
    (hitems : ∀ b, JsValue.bytes b ∈ items → b ∈ deltas) (applied : ℕ) (r : DeltaReceiver key) :
    ReflTransGen (Ingests p w options deltas) r (applyItems p w options items applied r).2 := by
  induction items generalizing applied r with
  | nil => exact .refl
  | cons item items ih =>
    have hrest : ∀ b, JsValue.bytes b ∈ items → b ∈ deltas :=
      fun b hb => hitems b (List.mem_cons_of_mem item hb)
    cases item with
    | bytes b =>
      have hhead : ReflTransGen (Ingests p w options deltas) r
          (r.applyPayload p w options b).2 := reaches_applyPayload (hitems b List.mem_cons_self) r
      rw [applyItems]
      generalize r.applyPayload p w options b = settled at hhead ⊢
      obtain ⟨result, r'⟩ := settled
      cases result with
      | none => exact hhead
      | some ok => exact hhead.trans (ih hrest _ r')
    | null | bool | number | bigint | string | array | object => exact ih hrest applied r

theorem reaches_applyEach {payloads : List Bytes} (hp : ∀ b ∈ payloads, b ∈ deltas)
    (results : List Bool) (r : DeltaReceiver key) :
    ReflTransGen (Ingests p w {} deltas) r (applyEach p w payloads results r).2 := by
  induction payloads generalizing results r with
  | nil => exact .refl
  | cons payload payloads ih =>
    have hhead : ReflTransGen (Ingests p w {} deltas) r (r.applyPayload p w {} payload).2 :=
      reaches_applyPayload (hp payload List.mem_cons_self) r
    have hrest : ∀ b ∈ payloads, b ∈ deltas := fun b hb => hp b (List.mem_cons_of_mem payload hb)
    rw [applyEach]
    generalize r.applyPayload p w {} payload = settled at hhead ⊢
    obtain ⟨result, r'⟩ := settled
    cases result with
    | none => exact hhead
    | some ok => exact hhead.trans (ih hrest _ r')

end DeltaReceiver

inductive Call
  | applyPayload (payload : Bytes) (options : ApplyOptions)
  | applyPayloads (payload : Bytes) (options : ApplyOptions)
  | handlePush (data : Option Bytes)
  | handleMessage (message : Option LxmfMessage)

namespace Call

/-- The byte strings in a batch. -/
def elements (payload : Bytes) : List Bytes :=
  match p.msgPackDecode payload with
  | .ok (.array items) => items.filterMap JsValue.asBytes
  | _ => []

/-- The byte strings a call can take for a Delta. -/
def deltas : Call → List Bytes
  | .applyPayload payload _ => [payload]
  | .applyPayloads payload _ => elements p payload
  | .handlePush none => []
  | .handlePush (some data) => data :: elements p data
  | .handleMessage message =>
    if messageTitle p message = lxmfBatchTitle then elements p (messageContent message)
    else if messageTitle p message = lxmfDeliveryTitle then [messageContent message]
    else []

/-- The transports leave every option at its default. -/
def options : Call → ApplyOptions
  | .applyPayload _ options | .applyPayloads _ options => options
  | .handlePush _ | .handleMessage _ => {}

/-- The receiver after a call. -/
def perform (r : DeltaReceiver key) : Call → DeltaReceiver key
  | .applyPayload payload options => (r.applyPayload p w options payload).2
  | .applyPayloads payload options => (r.applyPayloads p w options payload).2
  | .handlePush data => (r.handlePush p w data).2
  | .handleMessage message => (r.handleMessage p w message).2

end Call

namespace DeltaReceiver

variable {p w}

theorem mem_elements {payload b : Bytes} {items : List JsValue}
    (hd : p.msgPackDecode payload = .ok (.array items)) (hb : JsValue.bytes b ∈ items) :
    b ∈ Call.elements p payload := by
  rw [Call.elements, hd]
  exact List.mem_filterMap.mpr ⟨.bytes b, hb, rfl⟩

theorem reaches_applyPayloads {options : ApplyOptions} {deltas : List Bytes} {payload : Bytes}
    (hp : ∀ b ∈ Call.elements p payload, b ∈ deltas) (r : DeltaReceiver key) :
    ReflTransGen (Ingests p w options deltas) r (r.applyPayloads p w options payload).2 := by
  unfold applyPayloads
  split
  · rename_i items hd
    exact reaches_applyItems (fun b hb => hp b (mem_elements hd hb)) 0 r
  · exact .refl

theorem reaches_handlePush (data : Option Bytes) (r : DeltaReceiver key) :
    ReflTransGen (Ingests p w {} ((Call.handlePush data).deltas p)) r
      (r.handlePush p w data).2 := by
  cases data with
  | none => exact .refl
  | some data =>
    unfold handlePush
    dsimp only
    split_ifs with hempty
    · exact .refl
    have hsingle : ReflTransGen (Ingests p w {} ((Call.handlePush (some data)).deltas p)) r
        (r.applyPayload p w {} data).2 := reaches_applyPayload List.mem_cons_self r
    generalize r.applyPayload p w {} data = settled at hsingle ⊢
    obtain ⟨result, r'⟩ := settled
    match result with
    | none | some true => exact hsingle
    | some false =>
      -- not one Delta: the same bytes once more, as a batch
      have hbatch : ReflTransGen (Ingests p w {} ((Call.handlePush (some data)).deltas p)) r'
          (r'.applyPayloads p w {} data).2 :=
        reaches_applyPayloads (fun _ hb => List.mem_cons_of_mem _ hb) r'
      dsimp only
      generalize r'.applyPayloads p w {} data = settled at hbatch ⊢
      obtain ⟨result, r''⟩ := settled
      cases result with
      | none => exact hsingle.trans hbatch
      | some n => exact hsingle.trans hbatch

/-- A strict batch is made of the byte strings that a lenient reading finds. -/
theorem decodeBatch_eq_ok {content : Bytes} {payloads : List Bytes}
    (h : decodeBatch p content = .ok payloads) : payloads = Call.elements p content := by
  unfold decodeBatch at h
  unfold Call.elements
  cases hd : p.msgPackDecode content with
  | error e =>
    rw [hd] at h
    cases h
  | ok v =>
    rw [hd] at h
    match v with
    | .array (item :: items) =>
      dsimp only at h ⊢
      split_ifs at h
      exact (Except.ok.inj h).symm
    | .array [] | .null | .bool _ | .number _ | .bigint _ | .string _ | .bytes _ | .object _ =>
      cases h

theorem reaches_handleMessage (message : Option LxmfMessage) (r : DeltaReceiver key) :
    ReflTransGen (Ingests p w {} ((Call.handleMessage message).deltas p)) r
      (r.handleMessage p w message).2 := by
  unfold handleMessage
  dsimp only
  split_ifs with hother hbatch
  · exact .refl
  · cases hd : decodeBatch p (messageContent message) with
    | error e => exact .refl
    | ok payloads =>
      refine reaches_applyEach (fun b hb => ?_) [] r
      rw [Call.deltas, if_pos hbatch, ← decodeBatch_eq_ok hd]
      exact hb
  · have htitle : messageTitle p message = lxmfDeliveryTitle := by
      by_contra hne
      exact hother ⟨hne, hbatch⟩
    refine reaches_applyPayload ?_ r
    rw [Call.deltas, if_neg hbatch, if_pos htitle]
    exact List.mem_cons_self

/-- Whatever the call, all it does to the receiver is ingest its own Deltas. -/
theorem reaches_perform (call : Call) (r : DeltaReceiver key) :
    ReflTransGen (Ingests p w call.options (call.deltas p)) r (call.perform p w r) := by
  cases call with
  | applyPayload payload options => exact reaches_applyPayload List.mem_cons_self r
  | applyPayloads payload options => exact reaches_applyPayloads (fun _ hb => hb) r
  | handlePush data => exact reaches_handlePush data r
  | handleMessage message => exact reaches_handleMessage message r

end DeltaReceiver

/-! ## Whole runs -/

/-- Where a timestamp comes from: one of the Deltas, accepted at a moment from `first` on
and before `last`. -/
def Delivered (horizonMs : ℤ) (options : ApplyOptions) (deltas : List Bytes) (first last : ℕ)
    (action : Action) (t : Tuple) (ts : ℕ) : Prop :=
  ∃ payload ∈ deltas, ∃ n, first ≤ n ∧ n < last ∧ ∃ op,
    Accepted p (w n) horizonMs options payload op ∧
      op.tuple = t ∧ op.action = action ∧ op.hlc = ts

theorem Delivered.mono {p : Platform} {w : World} {horizonMs : ℤ} {options : ApplyOptions}
    {deltas : List Bytes} {first last last' : ℕ} {action : Action} {t : Tuple} {ts : ℕ}
    (h : Delivered p w horizonMs options deltas first last action t ts) (hle : last ≤ last') :
    Delivered p w horizonMs options deltas first last' action t ts := by
  obtain ⟨payload, hp, n, hn, hlt, hop⟩ := h
  exact ⟨payload, hp, n, hn, hlt.trans_le hle, hop⟩

namespace DeltaReceiver

variable {p w} {options : ApplyOptions} {deltas : List Bytes}

theorem ingested_le {r r' : DeltaReceiver key}
    (h : ReflTransGen (Ingests p w options deltas) r r') : r.ingested ≤ r'.ingested := by
  induction h with
  | refl => exact le_refl _
  | tail _ hstep ih => cases hstep <;> exact Nat.le_succ_of_le ih

theorem horizon_eq {r r' : DeltaReceiver key}
    (h : ReflTransGen (Ingests p w options deltas) r r') :
    r'.state.deletionHorizonMs = r.state.deletionHorizonMs := by
  induction h with
  | refl => rfl
  | tail _ hstep ih => cases hstep <;> exact ih

/-- Every timestamp was there before or came with a Delta ingested in between. -/
theorem timestamp_of_reaches {r r' : DeltaReceiver Tuple.key}
    (h : ReflTransGen (Ingests p w options deltas) r r') {action : Action} {t : Tuple} {ts : ℕ}
    (hts : r'.state.timestamp action t = some ts) :
    r.state.timestamp action t = some ts ∨
      Delivered p w r.state.deletionHorizonMs options deltas r.ingested r'.ingested action t
        ts := by
  induction h with
  | refl => exact .inl hts
  | @tail r' r'' hreach hstep ih =>
    have hle := ingested_le hreach
    cases hstep with
    | dropped => exact (ih hts).imp_right fun hd => hd.mono (Nat.le_succ _)
    | @recorded payload op hp hacc =>
      rcases StateVector.timestamp_record hts with hold | ⟨hkey, ha, hhlc⟩
      · exact (ih hold).imp_right fun hd => hd.mono (Nat.le_succ _)
      · -- the key is the whole pre-image of the tuple
        have ht : op.tuple = t := Tuple.key_injective hkey
        rw [horizon_eq hreach] at hacc
        exact .inr ⟨payload, hp, _, hle, Nat.lt_succ_self _, op, hacc, ht, ha, hhlc⟩

/-- Without an accepted Delta the state stays as it is. -/
theorem state_of_none_delivered {r r' : DeltaReceiver key}
    (h : ReflTransGen (Ingests p w options deltas) r r')
    (hnone : ∀ action t ts, ¬ Delivered p w r.state.deletionHorizonMs options deltas r.ingested
      r'.ingested action t ts) :
    r'.state = r.state := by
  induction h with
  | refl => rfl
  | @tail r' r'' hreach hstep ih =>
    have hle := ingested_le hreach
    have hsame : r'.state = r.state := by
      refine ih fun action t ts hd => hnone action t ts (hd.mono ?_)
      cases hstep <;> exact Nat.le_succ _
    cases hstep with
    | dropped => exact hsame
    | @recorded payload op hp hacc =>
      rw [horizon_eq hreach] at hacc
      exact absurd ⟨payload, hp, _, hle, Nat.lt_succ_self _, op, hacc, rfl, rfl, rfl⟩
        (hnone op.action op.tuple op.hlc)

end DeltaReceiver

/-- A receiver that starts empty, after a sequence of calls. -/
def received (key : Tuple → κ) (days : ℕ) (calls : List Call) : DeltaReceiver key :=
  calls.foldl (Call.perform p w) ⟨.empty days, 0⟩

/-- Where the next call takes it. -/
theorem reaches_received (days : ℕ) (calls : List Call) (call : Call) :
    ReflTransGen (Ingests p w call.options (call.deltas p)) (received p w key days calls)
      (received p w key days (calls ++ [call])) := by
  have hlast : received p w key days (calls ++ [call]) =
      call.perform p w (received p w key days calls) := by
    rw [received, List.foldl_append]
    rfl
  rw [hlast]
  exact DeltaReceiver.reaches_perform call _

theorem received_horizon (days : ℕ) (calls : List Call) :
    (received p w key days calls).state.deletionHorizonMs = days * msPerDay := by
  induction calls using List.reverseRecOn with
  | nil => rfl
  | append_singleton calls call ih =>
    rw [DeltaReceiver.horizon_eq (reaches_received p w days calls call), ih]

/-- Every timestamp of the state came with a Delta of one of the calls, signed by the
keyset that the resolver gave for the tuple's issuer and fresh when it was applied; and a
call that delivers no such Delta leaves the state alone. -/
theorem state_provenance (days : ℕ) (calls : List Call) :
    (∀ action t ts, (received p w Tuple.key days calls).state.timestamp action t = some ts →
      ∃ before call after, calls = before ++ call :: after ∧
        Delivered p w (days * msPerDay) call.options (call.deltas p)
          (received p w Tuple.key days before).ingested
          (received p w Tuple.key days (before ++ [call])).ingested action t ts) ∧
    ∀ call : Call,
      (∀ action t ts, ¬ Delivered p w (days * msPerDay) call.options (call.deltas p)
        (received p w Tuple.key days calls).ingested
        (received p w Tuple.key days (calls ++ [call])).ingested action t ts) →
      (received p w Tuple.key days (calls ++ [call])).state =
        (received p w Tuple.key days calls).state := by
  constructor
  · induction calls using List.reverseRecOn with
    | nil =>
      intro action t ts h
      cases h
    | append_singleton calls call ih =>
      intro action t ts h
      rcases DeltaReceiver.timestamp_of_reaches (reaches_received p w days calls call) h with
        hold | hnew
      · obtain ⟨before, c, after, rfl, hd⟩ := ih action t ts hold
        exact ⟨before, c, after ++ [call], by simp, hd⟩
      · rw [received_horizon] at hnew
        exact ⟨calls, call, [], rfl, hnew⟩
  · intro call hnone
    refine DeltaReceiver.state_of_none_delivered (reaches_received p w days calls call) ?_
    rw [received_horizon]
    exact hnone

/-! ## One Delta -/

section OneDelta

def grantedTuple : Tuple where
  relationHash := Blob.fill 16 0
  objectHashes := []
  wildcard := true
  grantee := Blob.fill 16 1
  issuer := Blob.fill 16 2
  segments_le := Nat.zero_le _

/-- A grant of it at the first millisecond. -/
def grantPayload : Bytes :=
  pack (.array [.bytes grantedTuple.issuer.val, .bytes grantedTuple.grantee.val,
    .number (.finite 1), .bigint 65536, .bytes grantedTuple.relationHash.val, .array [],
    .bool true, .array [.bytes (Blob.fill 64 9).val]])

def onlyKeyPlatform : Platform where
  msgPackDecode := unpackAll
  ed25519 := onlyKey
  textDecoder := fun _ => ""

/-- Every issuer has the one key. -/
def onlyKeyWorld : World := fun _ => {
  resolver := fun _ => .keyset {
    memberPublicKeys := sameHalf.take 1
    threshold := 1
    threshold_pos := le_refl 1
    enough := le_refl 1 }
  physicalNowMs := 1 }

theorem state_provenance_granted :
    ∃ before call after, [Call.applyPayload grantPayload {}] = before ++ call :: after ∧
      Delivered onlyKeyPlatform onlyKeyWorld (defaultDeletionHorizonDays * msPerDay) call.options
        (call.deltas onlyKeyPlatform)
        (received onlyKeyPlatform onlyKeyWorld Tuple.key
          defaultDeletionHorizonDays before).ingested
        (received onlyKeyPlatform onlyKeyWorld Tuple.key
          defaultDeletionHorizonDays (before ++ [call])).ingested
        .grant grantedTuple 65536 :=
  (state_provenance onlyKeyPlatform onlyKeyWorld defaultDeletionHorizonDays
    [.applyPayload grantPayload {}]).1 .grant grantedTuple 65536 (by decide +kernel)

end OneDelta

end Dacar

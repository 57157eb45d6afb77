import Dacar.Convergence
import Dacar.Cpp.Delta
import Dacar.LossyLink
import Dacar.MessagePack
import Dacar.Cli.Outbox

/-!
# Pushing over a direct link

The pusher sends its Deltas one request each and learns from the ack how many of them the node
applied; it takes a Delta out of the outbox only after such an ack.  Requests and answers may
get lost, the pusher retries, and others push to the node in between.
-/

namespace Dacar

open LossyLink Relation

variable {κ : Type} [DecidableEq κ] {key : Tuple → κ} {σ : Type}

/-! ## The node -/

/-- The `delta` endpoint of a node. -/
structure DeltaEndpoint (key : Tuple → κ) (σ : Type) where
  /-- The Operation that the bytes encode. -/
  operation : Bytes → Option Operation
  /-- The byte strings of the batch that the bytes encode. -/
  elements : Bytes → Option (List Bytes)
  handlePush : Bytes → σ → Option ℕ × σ
  packAck : ℕ → Bytes
  state : σ → StateVector key

namespace DeltaEndpoint

variable (E : DeltaEndpoint key σ)

/-- `syncRequestHandler`: a push that throws is not answered. -/
def respond (data : Bytes) (s : σ) : Option Bytes × σ :=
  ((E.handlePush data s).1.map E.packAck, (E.handlePush data s).2)

/-- The bytes are the operation, or a batch with it. -/
def Delivers (data : Bytes) (op : Operation) : Prop :=
  E.operation data = some op ∨
    E.operation data = none ∧ ∃ bs ∈ E.elements data, ∃ b ∈ bs, E.operation b = some op

/-- A push records operations that its bytes deliver, and acks their number. -/
structure Lawful : Prop where
  push : ∀ data s, ∃ ops : List Operation, (∀ op ∈ ops, E.Delivers data op) ∧
    (E.handlePush data s).1 = some ops.length ∧
    E.state (E.handlePush data s).2 = Cli.recordAll ops (E.state s)

/-- An operation of the bytes is in the state, or a later one in its place. -/
def Merged (data : Bytes) (s : σ) : Prop :=
  ∃ op, E.Delivers data op ∧ Cli.Holds (E.state s) op

variable {E}

theorem Lawful.merged (h : E.Lawful) {data : Bytes} {s : σ} {n : ℕ} (hn : 0 < n)
    (hack : (E.handlePush data s).1 = some n) : E.Merged data (E.handlePush data s).2 := by
  obtain ⟨ops, hops, hlen, hstate⟩ := h.push data s
  rw [hlen, Option.some.injEq] at hack
  obtain ⟨op, hop⟩ := List.exists_mem_of_length_pos (hack ▸ hn)
  exact ⟨op, hops op hop, hstate ▸ Cli.holds_recordAll hop (E.state s)⟩

theorem Lawful.keeps (h : E.Lawful) {data : Bytes} {s : σ} (other : Bytes)
    (hm : E.Merged data s) : E.Merged data (E.handlePush other s).2 := by
  obtain ⟨ops, -, -, hstate⟩ := h.push other s
  obtain ⟨op, hdelivers, hholds⟩ := hm
  exact ⟨op, hdelivers, hstate ▸ hholds.recordAll ops⟩

end DeltaEndpoint

/-! ## The receivers of the ports as nodes -/

namespace Port

variable (P : Port key)

def endpoint (packAck : ℕ → Bytes) : DeltaEndpoint key (DeltaReceiver key) where
  operation := P.operation
  elements := P.elements
  handlePush := P.handlePush
  packAck := packAck
  state := DeltaReceiver.state

variable {P}

theorem operation_of_passing {options : ApplyOptions} {s : StateVector key} {n : ℕ}
    {payload : Bytes} {op : Operation} (h : P.passing options s n payload = some op) :
    P.operation payload = some op := (Option.filter_eq_some_iff.mp h).1

theorem endpoint_lawful (h : P.Isolates) (packAck : ℕ → Bytes) : (P.endpoint packAck).Lawful where
  push data r := by
    rcases h.push data r with ⟨op, hpass, hpush⟩ | ⟨hpass, hpush⟩
    · exact ⟨[op], by simpa using .inl (operation_of_passing hpass), congrArg Prod.fst hpush,
        congrArg (fun r => r.2.state) hpush⟩
    · cases hop : P.operation data with
      | some op =>
        have hrefused := h.refused data op r hop hpass
        exact ⟨[], by simp, congrArg Prod.fst hrefused, congrArg (fun r => r.2.state) hrefused⟩
      | none =>
        cases hel : P.elements data with
        | none =>
          have hnone := hpush.trans (h.garbage {} data _ hel)
          exact ⟨[], by simp, congrArg Prod.fst hnone, congrArg (fun r => r.2.state) hnone⟩
        | some payloads =>
          have hbatch := hpush.trans (h.batch {} data payloads _ hel)
          refine ⟨_, fun op hmem => .inr ⟨hop, payloads, hel, ?_⟩, congrArg Prod.fst hbatch,
            congrArg (fun r => r.2.state) hbatch⟩
          obtain ⟨b, hb, n, hpick⟩ := Batch.mem_picks hmem
          exact ⟨b, hb, operation_of_passing hpick⟩

end Port

namespace Cpp

variable {τ : Type} (u : Cursor τ) (ed25519 : Ed25519) (w : World)

def endpoint (packAck : ℕ → Bytes) : DeltaEndpoint key (DeltaReceiver key) where
  operation b := (fromPayload u b).toOption
  elements := elements u
  handlePush data r := r.handlePush u ed25519 w (-1) defaultMaxFutureMs data
  -- the number is cast to a `uint32_t`
  packAck n := packAck (n % 2 ^ 32)
  state r := r.state.toStateVector

variable {u ed25519 w} {At : τ → List WireValue → Prop}

/-- The node is the one on the map, as far as its acks and its state tell. -/
theorem handlePush_endpoint (hw : w.Answers) (packAck : ℕ → Bytes) (data : Bytes)
    (r : DeltaReceiver key) :
    (((endpoint u ed25519 w packAck).handlePush data r).1,
        (endpoint u ed25519 w packAck).state ((endpoint u ed25519 w packAck).handlePush data r).2) =
      (((port u ed25519 w).handlePush data r.onMap).1,
        ((port u ed25519 w).handlePush data r.onMap).2.state) :=
  congrArg (fun x => (x.1, x.2.state)) (handlePush_refines hw data r)

theorem endpoint_lawful (hu : u.Lawful At) (hf : u.Framed At) (hw : w.Answers)
    (packAck : ℕ → Bytes) : (endpoint u ed25519 w packAck : DeltaEndpoint key _).Lawful where
  push data r := by
    obtain ⟨hack, hstate⟩ := Prod.mk.inj (handlePush_endpoint hw packAck data r)
    have hport : (port u ed25519 w : Port key).Isolates := Port.isolates (port_lawful hu hf)
    obtain ⟨ops, hops, hcount, hrecorded⟩ :=
      (Port.endpoint_lawful hport packAck).push data r.onMap
    exact ⟨ops, hops, hack.trans hcount, hstate.trans hrecorded⟩

end Cpp

/-! ## The pusher -/

/-- `d.get(name)`: of two fields with one name Python keeps the later. -/
def Python.dictGet (fields : List (WireValue × WireValue)) (name : String) : Option WireValue :=
  (fields.reverse.find? fun f =>
    match f.1 with
    | .str s => s == name
    | _ => false).map Prod.snd

/-- Who pushes, with its MessagePack decoder. -/
inductive Pusher
  | javascript (decode : MsgPackDecode)
  | python (unpackb : Bytes → Except String WireValue)

/-- `unpackAck`: the count in an ack, if there is an ack and it has one. -/
def Pusher.unpackAck (pusher : Pusher) (data : Option Bytes) : Option ℕ :=
  match data with
  | none => none
  | some data =>
    if data.isEmpty then none
    else
      match pusher with
      | .javascript decode =>
        match decode data with
        | .ok (.object fields) =>
          match fields.lookup "applied" with
          | some (.number (.finite q)) => if q.den = 1 ∧ 0 ≤ q then some q.num.toNat else none
          | _ => none
        | _ => none
      | .python unpackb =>
        match unpackb data with
        | .ok (.map fields) =>
          match Python.dictGet fields "applied" with
          | some (.int n _) => if n < 0 then none else some n.toNat
          | _ => none
        | _ => none

/-- The decoder of the pusher reads the acks of the node. -/
def Pusher.ReadsAcks (packAck : ℕ → Bytes) : Pusher → Prop
  | .javascript decode => ∀ n < 2 ^ 32,
    decode (packAck n) = .ok (.object [("applied", .number (.finite n))])
  | .python unpackb => ∀ n < 2 ^ 32,
    ∃ wide, unpackb (packAck n) = .ok (.map [(.str "applied", .int n wide)])

/-- What stands between the pusher and the node: no path to it, no link, or a link with what
becomes of the first request on it, the second, and so on. -/
inductive Network
  | noPath
  | noLink
  | link (fates : ℕ → Fate)

section Push

variable (E : DeltaEndpoint key σ) (pusher : Pusher)

/-- A request that is answered, and whether the answer says that something was applied. -/
def acknowledge (payload : Bytes) (s : σ) : Bool × σ :=
  ((pusher.unpackAck (E.respond payload s).1).any fun applied => decide (1 ≤ applied),
    (E.respond payload s).2)

/-- `pushOne`: without an answer it is `false`. -/
def pushOne (fate : Fate) (payload : Bytes) (s : σ) : Bool × σ :=
  request (acknowledge E pusher) fate payload s

/-- The requests of a push, with what becomes of them. -/
def attempts (fates : ℕ → Fate) (payloads : List Bytes) : List (Bytes × Fate) :=
  payloads.zipIdx.map fun p => (p.1, fates p.2)

/-- `pushDeltas`: it throws without a path, and opens one link for all requests. -/
def pushDeltas (payloads : List Bytes) (network : Network) (s : σ) : Cli.Transport × σ :=
  match network with
  | .noPath => (none, s)
  | .noLink => (some (payloads.map fun _ => false), s)
  | .link fates =>
    let sent := requests (acknowledge E pusher) (attempts fates payloads) s
    (some sent.1, sent.2)

end Push

/-- Everything that takes part: the store the pusher works on, the node, and the payloads that
pushes have taken out of the outbox. -/
structure PushSystem (key : Tuple → κ) (σ : Type) where
  store : Cli.Store key
  node : σ
  left : List Bytes

/-- The list that `push` sends. -/
def sendList (a : Cli.PublishArgs) (s : Cli.Store key) : List Bytes :=
  (Cli.appendMissing (a.sources s) ([], false)).1

/-- `cmd_push`: the transport of the command is the link to the node. -/
def cmdPush (E : DeltaEndpoint key σ) (pusher : Pusher) (a : Cli.PublishArgs) (network : Network)
    (S : PushSystem key σ) : PushSystem key σ :=
  let pushed := pushDeltas E pusher (sendList a S.store) network S.node
  let store := ((Cli.publish { a with transport := pushed.1 }).run S.store).store
  { store := store
    node := if a.refused then S.node else pushed.2
    left := S.left ++ (S.store .outbox).filter fun p => !(store .outbox).contains p }

/-- Pushes, other commands of the pusher, and pushes of others to the node, in any order. -/
inductive PushStep (E : DeltaEndpoint key σ) (pusher : Pusher) :
    PushSystem key σ → PushSystem key σ → Prop
  | push (a : Cli.PublishArgs) (network : Network) (S : PushSystem key σ) :
    PushStep E pusher S (cmdPush E pusher a network S)
  | command (c : Cli.Call) (S : PushSystem key σ) :
    PushStep E pusher S { S with store := (c.command.run S.store).store }
  | other (data : Bytes) (S : PushSystem key σ) :
    PushStep E pusher S { S with node := (E.handlePush data S.node).2 }

/-! ## Nothing leaves the outbox unmerged -/

section Merged

variable {E : DeltaEndpoint key σ} {pusher : Pusher}

omit [DecidableEq κ] in
/-- An ack that counts nothing is not taken for one that does. -/
theorem unpackAck_zero (h : pusher.ReadsAcks E.packAck) {n : ℕ}
    (hn : pusher.unpackAck (some (E.packAck 0)) = some n) : n = 0 := by
  unfold Pusher.unpackAck at hn
  dsimp only at hn
  split_ifs at hn
  cases pusher with
  | javascript decode =>
    dsimp only at hn
    rw [h 0 (by norm_num)] at hn
    exact (Option.some.inj hn).symm
  | python unpackb =>
    dsimp only at hn
    obtain ⟨wide, hread⟩ := h 0 (by norm_num)
    rw [hread] at hn
    exact (Option.some.inj hn).symm

theorem merged_of_acknowledge (hE : E.Lawful) (hread : pusher.ReadsAcks E.packAck)
    {payload : Bytes} {s : σ} (h : (acknowledge E pusher payload s).1 = true) :
    E.Merged payload (acknowledge E pusher payload s).2 := by
  obtain ⟨ops, -, hack, -⟩ := hE.push payload s
  obtain ⟨n, hn, hone⟩ := (Option.any_eq_true _ _).mp h
  refine hE.merged (n := ops.length) (Nat.pos_of_ne_zero fun hzero => ?_) hack
  rw [DeltaEndpoint.respond, hack, hzero, Option.map_some] at hn
  rw [unpackAck_zero hread hn] at hone
  exact absurd hone (by decide)

theorem map_fst_attempts (fates : ℕ → Fate) (payloads : List Bytes) :
    (attempts fates payloads).map Prod.fst = payloads := by
  unfold attempts
  rw [List.map_map]
  exact List.zipIdx_map_fst 0 payloads

theorem acceptedOf_false (payloads : List Bytes) :
    Cli.acceptedOf payloads (payloads.map fun _ => false) = [] := by
  unfold Cli.acceptedOf
  induction payloads with
  | nil => rfl
  | cons p ps ih =>
    rw [List.map_cons, List.zip_cons_cons, List.filter_cons_of_neg Bool.false_ne_true]
    exact ih

/-- What a push is told to be accepted is merged at the node. -/
theorem merged_of_accepted (hE : E.Lawful) (hread : pusher.ReadsAcks E.packAck)
    (payloads : List Bytes) (network : Network) (s : σ) {accepted : List Bool}
    (h : (pushDeltas E pusher payloads network s).1 = some accepted) :
    ∀ p ∈ Cli.acceptedOf payloads accepted,
      E.Merged p (pushDeltas E pusher payloads network s).2 := by
  cases network with
  | noPath => cases h
  | noLink =>
    obtain rfl := Option.some.inj h
    rw [acceptedOf_false]
    exact fun p hp => nomatch hp
  | link fates =>
    obtain rfl := Option.some.inj h
    have hdone := done_of_acknowledged E.Merged
      (fun _ _ h => merged_of_acknowledge hE hread h)
      (fun _ other _ hm => hE.keeps other hm) (attempts fates payloads) s
    rwa [acknowledged, map_fst_attempts] at hdone

theorem keeps_of_push (hE : E.Lawful) (payloads : List Bytes) (network : Network) {p : Bytes}
    {s : σ} (h : E.Merged p s) : E.Merged p (pushDeltas E pusher payloads network s).2 := by
  cases network with
  | noPath => exact h
  | noLink => exact h
  | link fates =>
    exact requests_keeps (E.Merged p)
      (fun other _ hm => hE.keeps other hm) (attempts fates payloads) h

/-- What a push takes out of the outbox is merged at the node it leaves. -/
theorem merged_of_left (hE : E.Lawful) (hread : pusher.ReadsAcks E.packAck) (a : Cli.PublishArgs)
    (network : Network) (S : PushSystem key σ) {p : Bytes} (hp : p ∈ S.store .outbox)
    (hleft : p ∉ (cmdPush E pusher a network S).store .outbox) :
    E.Merged p (cmdPush E pusher a network S).node := by
  unfold cmdPush at hleft ⊢
  dsimp only at hleft ⊢
  rw [(Cli.publish_run _ S.store).2, Cli.mem_outbox_afterPublish, not_and, not_not] at hleft
  have haccepted := hleft hp
  unfold Cli.PublishArgs.accepted at haccepted
  split_ifs at haccepted with hrefused
  · cases haccepted
  · rw [if_neg (show ¬ a.refused = true from hrefused)]
    unfold Cli.PublishArgs.acceptedAmong at haccepted
    cases hflags : (pushDeltas E pusher (sendList a S.store) network S.node).1 with
    | none =>
      rw [hflags] at haccepted
      cases haccepted
    | some accepted =>
      rw [hflags] at haccepted
      exact merged_of_accepted hE hread _ network S.node hflags p haccepted

/-- Every payload that pushes took out of the outbox is merged at the node. -/
def PushSystem.Sound (E : DeltaEndpoint key σ) (S : PushSystem key σ) : Prop :=
  ∀ p ∈ S.left, E.Merged p S.node

theorem PushStep.sound (hE : E.Lawful) (hread : pusher.ReadsAcks E.packAck)
    {S S' : PushSystem key σ} (hstep : PushStep E pusher S S') (h : S.Sound E) : S'.Sound E := by
  cases hstep with
  | push a network =>
    intro p hp
    rcases List.mem_append.mp hp with hp | hp
    · unfold cmdPush
      dsimp only
      split_ifs
      · exact h p hp
      · exact keeps_of_push hE _ network (h p hp)
    · obtain ⟨hout, hleft⟩ := List.mem_filter.mp hp
      refine merged_of_left hE hread a network S hout fun hin => ?_
      unfold cmdPush at hin
      rw [List.contains_iff_mem.mpr hin] at hleft
      cases hleft
  | command c => exact h
  | other data => exact fun p hp => hE.keeps data (h p hp)

/-- Whatever gets lost on the links, and whatever the pusher and others do in between: a payload
that a push took out of the outbox is merged at the node, and stays so. -/
def PushSafe (E : DeltaEndpoint key σ) (pusher : Pusher) : Prop :=
  ∀ S₀ S : PushSystem key σ, S₀.left = [] → ReflTransGen (PushStep E pusher) S₀ S →
    ∀ p ∈ S.left, E.Merged p S.node

theorem pushSafe (hE : E.Lawful) (hread : pusher.ReadsAcks E.packAck) : PushSafe E pusher := by
  intro S₀ S h₀ hrun
  induction hrun with
  | refl =>
    rw [h₀]
    exact fun p hp => nomatch hp
  | tail _ hstep ih => exact hstep.sound hE hread ih

theorem Cpp.endpoint_readsAcks {τ : Type} {u : Cursor τ} {ed25519 : Ed25519} {w : World}
    {packAck : ℕ → Bytes} (hread : pusher.ReadsAcks packAck) :
    pusher.ReadsAcks (endpoint u ed25519 w packAck : DeltaEndpoint key _).packAck := by
  have hcast : ∀ n < 2 ^ 32, (endpoint u ed25519 w packAck : DeltaEndpoint key _).packAck n =
      packAck n := fun n hn => congrArg packAck (Nat.mod_eq_of_lt hn)
  cases pusher with
  | javascript decode => exact fun n hn => (hcast n hn).symm ▸ hread n hn
  | python unpackb => exact fun n hn => (hcast n hn).symm ▸ hread n hn

/-- Either pusher may trust the acks of a node of any port. -/
theorem left_outbox_merged {p : Platform} {w : World} {p' : Python.Platform} {w' : Python.World}
    {τ : Type} {u : Cpp.Cursor τ} {At : τ → List WireValue → Prop} {w'' : Cpp.World}
    (hw : ∀ n issuer, (w n).resolver issuer ≠ .throws)
    (hbin : ∀ data items b, p.msgPackDecode data = .ok (.array items) → .bytes b ∈ items →
      b.length < data.length)
    (hw' : Python.Answers w')
    (hbin' : ∀ data items b, p'.unpackb data = .ok (.array items) → .bin b ∈ items →
      b.length < data.length)
    (hu : u.Lawful At) (hf : u.Framed At) (hw'' : w''.Answers) (ed25519 : Ed25519)
    (packAck : ℕ → Bytes) (hread : pusher.ReadsAcks packAck) :
    PushSafe ((javascriptPort p w : Port key).endpoint packAck) pusher ∧
      PushSafe ((Python.port p' w' : Port key).endpoint packAck) pusher ∧
      PushSafe (Cpp.endpoint u ed25519 w'' packAck : DeltaEndpoint key _) pusher := by
  exact ⟨pushSafe (Port.endpoint_lawful (Port.isolates (javascript_lawful hw hbin)) packAck) hread,
    pushSafe (Port.endpoint_lawful (Port.isolates (Python.lawful hw' hbin')) packAck) hread,
    pushSafe (Cpp.endpoint_lawful hu hf hw'' packAck) (Cpp.endpoint_readsAcks hread)⟩

end Merged

/-! ## Retrying changes nothing -/

section Retries

open StateVector

/-- At one clock reading, with one horizon and one resolver, a push records the operations that
its bytes decide on. -/
def DeltaEndpoint.Steady (E : DeltaEndpoint key σ) (days : ℕ) (ops : Bytes → List Operation) :
    Prop :=
  ∀ data s, (E.state s).deletionHorizonDays = days →
    E.state (E.handlePush data s).2 = Cli.recordAll (ops data) (E.state s)

/-- What operations add to the map together. -/
def joined (key : Tuple → κ) (ops : List Operation) : κ → WithBot Stamps :=
  ops.foldr (fun op v => delta key op ⊔ v) ⊥

theorem view_recordAll (ops : List Operation) (s : StateVector key) :
    (Cli.recordAll ops s).view = s.view ⊔ joined key ops := by
  induction ops generalizing s with
  | nil => exact (sup_bot_eq _).symm
  | cons op ops ih =>
    change (Cli.recordAll ops (s.record op)).view = _
    rw [ih, view_record, sup_assoc]
    rfl

theorem recordAll_horizon (ops : List Operation) (s : StateVector key) :
    (Cli.recordAll ops s).deletionHorizonDays = s.deletionHorizonDays := by
  induction ops generalizing s with
  | nil => rfl
  | cons op ops ih => exact ih (s.record op)

variable {E : DeltaEndpoint key σ} {days : ℕ} {ops : Bytes → List Operation}

/-- The same payloads reach the node in both runs: then both end with the same timestamps. -/
theorem DeltaEndpoint.Steady.view_congr (h : E.Steady days ops) (pusher : Pusher)
    {ts ts' : List (Bytes × Fate)} (hsame : ∀ p, p ∈ reached ts ↔ p ∈ reached ts') {s : σ}
    (hs : (E.state s).deletionHorizonDays = days) :
    (E.state (requests (acknowledge E pusher) ts s).2).view =
      (E.state (requests (acknowledge E pusher) ts' s).2).view := by
  refine LossyLink.view_congr (fun s => (E.state s).view) (fun data => joined key (ops data))
    (fun s => (E.state s).deletionHorizonDays = days) ?_ ?_ hsame hs
  · intro data s hs
    exact (congrArg deletionHorizonDays (h data s hs)).trans ((recordAll_horizon _ _).trans hs)
  · intro data s hs
    exact (congrArg StateVector.view (h data s hs)).trans (view_recordAll _ _)

namespace Port

variable {P : Port key}

/-- What a push comes to, as the `n`-th that the receiver looks at. -/
def pushed (P : Port key) (s : StateVector key) (n : ℕ) (data : Bytes) : List Operation :=
  match P.passing {} s n data with
  | some op => [op]
  | none =>
    if (P.operation data).isSome then []
    else (P.elements data).elim [] fun bs => bs.filterMap (P.passing {} s n)

theorem endpoint_steady (h : P.Isolates) (packAck : ℕ → Bytes)
    (hauthentic : ∀ n op, P.authentic n op = P.authentic 0 op)
    (hnow : ∀ n, P.now {} n = P.now {} 0) (days : ℕ) :
    (P.endpoint packAck).Steady days (P.pushed (.empty days) 0) := by
  intro data r hr
  have hpass : P.passing {} (.empty days) 0 = P.passing {} r.state r.ingested := by
    have hhorizon : (StateVector.empty days : StateVector key).deletionHorizonMs =
        r.state.deletionHorizonMs := congrArg (fun d : ℕ => (d : ℤ) * msPerDay) hr.symm
    rw [passing_congr hhorizon]
    funext b
    simp only [passing, hauthentic r.ingested, hnow r.ingested]
  unfold pushed
  rw [hpass]
  rcases h.push data r with ⟨op, hsome, hpush⟩ | ⟨hnone, hpush⟩
  · rw [hsome]
    exact congrArg (fun r => r.2.state) hpush
  · rw [hnone]
    cases hop : P.operation data with
    | some op => exact congrArg (fun r => r.2.state) (h.refused data op r hop hnone)
    | none =>
      rw [next_of_none hop] at hpush
      cases hel : P.elements data with
      | none => exact congrArg (fun r => r.2.state) (hpush.trans (h.garbage {} data _ hel))
      | some payloads =>
        have hbatch := congrArg (fun r => r.2.state) (hpush.trans (h.batch {} data payloads _ hel))
        rw [accepted_of_fixed P
          (fun n op => (hauthentic n op).trans (hauthentic r.ingested op).symm)
          (fun n => (hnow n).trans (hnow r.ingested).symm)] at hbatch
        exact hbatch

end Port

theorem javascriptPort_fixed {p : Platform} {w : World} (hfixed : ∀ n, w n = w 0) :
    (∀ n op, (javascriptPort p w : Port key).authentic n op =
      (javascriptPort p w : Port key).authentic 0 op) ∧
    ∀ n, (javascriptPort p w : Port key).now {} n = (javascriptPort p w : Port key).now {} 0 := by
  refine ⟨fun n op => ?_, fun n => congrArg Moment.physicalNowMs (hfixed n)⟩
  change decide (verifyOperation p op ((w n).resolver op.tuple.issuer) = some true) = _
  rw [hfixed n]
  rfl

theorem Python.port_fixed {p : Platform} {w : World} (hfixed : ∀ n, w n = w 0) :
    (∀ n op, (port p w : Port key).authentic n op = (port p w : Port key).authentic 0 op) ∧
    ∀ n, (port p w : Port key).now {} n = (port p w : Port key).now {} 0 := by
  refine ⟨fun n op => ?_, fun n => congrArg Moment.physicalNowMs (hfixed n)⟩
  change (((w n).known op.tuple.issuer).any Option.isSome &&
    decide (verifyOperation p op ((w n).resolver op.tuple.issuer) = some true)) = _
  rw [hfixed n]
  rfl

theorem Cpp.port_fixed {τ : Type} {u : Cursor τ} {ed25519 : Ed25519} {w : World}
    (hfixed : ∀ n, w n = w 0) :
    (∀ n op, (port u ed25519 w : Port key).authentic n op =
      (port u ed25519 w : Port key).authentic 0 op) ∧
    ∀ n, (port u ed25519 w : Port key).now {} n = (port u ed25519 w : Port key).now {} 0 := by
  refine ⟨fun n op => ?_, fun n => congrArg (fun m : Moment => (m.wall : ℤ)) (hfixed n)⟩
  change decide (verifyOperation ed25519 op ((w n).resolver op.tuple.issuer) = some true) = _
  rw [hfixed n]
  rfl

theorem javascript_steady {p : Platform} {w : World}
    (hw : ∀ n issuer, (w n).resolver issuer ≠ .throws)
    (hbin : ∀ data items b, p.msgPackDecode data = .ok (.array items) → .bytes b ∈ items →
      b.length < data.length) (packAck : ℕ → Bytes) (hfixed : ∀ n, w n = w 0) (days : ℕ) :
    ((javascriptPort p w : Port key).endpoint packAck).Steady days
      ((javascriptPort p w : Port key).pushed (.empty days) 0) :=
  Port.endpoint_steady (Port.isolates (javascript_lawful hw hbin)) packAck
    (javascriptPort_fixed hfixed).1 (javascriptPort_fixed hfixed).2 days

theorem Python.endpoint_steady {p : Platform} {w : World} (hw : Answers w)
    (hbin : ∀ data items b, p.unpackb data = .ok (.array items) → .bin b ∈ items →
      b.length < data.length) (packAck : ℕ → Bytes) (hfixed : ∀ n, w n = w 0) (days : ℕ) :
    ((port p w : Port key).endpoint packAck).Steady days
      ((port p w : Port key).pushed (.empty days) 0) :=
  Port.endpoint_steady (Port.isolates (lawful hw hbin)) packAck (port_fixed hfixed).1
    (port_fixed hfixed).2 days

theorem Cpp.endpoint_steady {τ : Type} {u : Cursor τ} {At : τ → List WireValue → Prop}
    {ed25519 : Ed25519} {w : World} (hu : u.Lawful At) (hf : u.Framed At) (hw : w.Answers)
    (packAck : ℕ → Bytes) (hfixed : ∀ n, w n = w 0) (days : ℕ) :
    (endpoint u ed25519 w packAck : DeltaEndpoint key _).Steady days
      ((port u ed25519 w : Port key).pushed (.empty days) 0) := by
  intro data r hr
  have hport : (port u ed25519 w : Port key).Isolates := Port.isolates (port_lawful hu hf)
  obtain ⟨-, hstate⟩ := Prod.mk.inj (handlePush_endpoint hw packAck data r)
  exact hstate.trans (Port.endpoint_steady hport packAck (port_fixed hfixed).1
    (port_fixed hfixed).2 days data r.onMap hr)

/-- A node gets the same pushes in two ways: with other losses, more often, in another order.
It ends with the same timestamps and the same active tuples. -/
def RetrySafe (E : DeltaEndpoint key σ) (pusher : Pusher) : Prop :=
  ∀ (ts ts' : List (Bytes × Fate)) (s : σ), (∀ p, p ∈ reached ts ↔ p ∈ reached ts') →
    (E.state (requests (acknowledge E pusher) ts s).2).view =
        (E.state (requests (acknowledge E pusher) ts' s).2).view ∧
      ∀ k, (E.state (requests (acknowledge E pusher) ts s).2).isActive k =
        (E.state (requests (acknowledge E pusher) ts' s).2).isActive k

theorem retrySafe (h : ∀ days, ∃ ops, E.Steady days ops) (pusher : Pusher) :
    RetrySafe E pusher := by
  intro ts ts' s hsame
  obtain ⟨ops, hsteady⟩ := h (E.state s).deletionHorizonDays
  have hview := hsteady.view_congr pusher hsame rfl
  exact ⟨hview, fun k => isActive_eq_of_view_eq (congrFun hview k)⟩

/-- While its clock and its resolver say the same, retrying changes nothing at a node of any
port. -/
theorem retries_change_nothing {p : Platform} {w : World} {p' : Python.Platform}
    {w' : Python.World} {τ : Type} {u : Cpp.Cursor τ} {At : τ → List WireValue → Prop}
    {w'' : Cpp.World} (hw : ∀ n issuer, (w n).resolver issuer ≠ .throws)
    (hbin : ∀ data items b, p.msgPackDecode data = .ok (.array items) → .bytes b ∈ items →
      b.length < data.length)
    (hw' : Python.Answers w')
    (hbin' : ∀ data items b, p'.unpackb data = .ok (.array items) → .bin b ∈ items →
      b.length < data.length)
    (hu : u.Lawful At) (hf : u.Framed At) (hw'' : w''.Answers) (ed25519 : Ed25519)
    (packAck : ℕ → Bytes) (hfixed : ∀ n, w n = w 0) (hfixed' : ∀ n, w' n = w' 0)
    (hfixed'' : ∀ n, w'' n = w'' 0) (pusher : Pusher) :
    RetrySafe ((javascriptPort p w : Port key).endpoint packAck) pusher ∧
      RetrySafe ((Python.port p' w' : Port key).endpoint packAck) pusher ∧
      RetrySafe (Cpp.endpoint u ed25519 w'' packAck : DeltaEndpoint key _) pusher := by
  exact ⟨retrySafe (fun days => ⟨_, javascript_steady hw hbin packAck hfixed days⟩) pusher,
    retrySafe (fun days => ⟨_, Python.endpoint_steady hw' hbin' packAck hfixed' days⟩) pusher,
    retrySafe (fun days => ⟨_, Cpp.endpoint_steady hu hf hw'' packAck hfixed'' days⟩) pusher⟩

end Retries

/-! ## One grant over a bad link -/

section BadLink

def ackHeader : Bytes := [0x81, 0xa7] ++ utf8 "applied"

/-- `{applied: n}`, as all ports write it. -/
def packAck (applied : ℕ) : Bytes := ackHeader ++ MessagePack.uintBytes applied

def readAck : MsgPackDecode := fun b =>
  if b.take ackHeader.length = ackHeader then
    match MessagePack.decodeAll (b.drop ackHeader.length) with
    | some (.uint n) => .ok (.object [("applied", .number (.finite n))])
    | _ => .error "malformed"
  else .error "malformed"

theorem readAck_reads : (Pusher.javascript readAck).ReadsAcks packAck := by
  intro n hn
  have hcount : MessagePack.decodeAll (MessagePack.uintBytes n) = some (.uint n) :=
    MessagePack.decodeAll_encode (v := .uint n) (hn.trans (by norm_num))
  unfold readAck packAck
  rw [List.take_left, if_pos rfl, List.drop_left, hcount]

/-- The grant is queued, and the node knows nothing. -/
def grantQueued (node : σ) : PushSystem Tuple.key σ where
  store := Function.update (Cli.Store.init defaultDeletionHorizonDays) .outbox [grantPayload]
  node := node
  left := []

def pushOutbox : Cli.PublishArgs := ⟨true, false, false, [], none⟩

/-- The first push is applied and its ack is lost; the second gets its ack. -/
def pushedTwice (E : DeltaEndpoint Tuple.key σ) (node : σ) : PushSystem Tuple.key σ :=
  cmdPush E (.javascript readAck) pushOutbox (.link fun _ => .answered)
    (cmdPush E (.javascript readAck) pushOutbox (.link fun _ => .unanswered) (grantQueued node))

def grantNode : DeltaEndpoint Tuple.key (DeltaReceiver Tuple.key) :=
  (javascriptPort oneGrantPlatform onlyKeyWorld).endpoint packAck

def cppGrantNode : DeltaEndpoint Tuple.key (Cpp.DeltaReceiver Tuple.key) :=
  Cpp.endpoint Cpp.splitReader onlyKey Cpp.onlyKeyWorld packAck

theorem left_outbox_merged_grant :
    grantNode.Merged grantPayload (pushedTwice grantNode Python.blankReceiver).node ∧
      cppGrantNode.Merged grantPayload (pushedTwice cppGrantNode Cpp.blankReceiver).node := by
  obtain ⟨hjs, -, hcpp⟩ := @left_outbox_merged _ _ Tuple.key (.javascript readAck)
    oneGrantPlatform onlyKeyWorld _ _ _ _ _ _
    (fun _ _ h => by cases h) oneGrant_shorter Python.onlyKeyWorld_answers grantWire_shorter
    Cpp.splitReader_lawful Cpp.splitReader_framed Cpp.onlyKeyWorld_answers onlyKey packAck
    readAck_reads
  constructor
  · have hleft : (pushedTwice grantNode Python.blankReceiver).left = [grantPayload] := by
      decide +kernel
    exact hjs (grantQueued Python.blankReceiver) (pushedTwice grantNode Python.blankReceiver) rfl
      (.tail (.single (.push _ _ _)) (.push _ _ _)) grantPayload
      (hleft.symm ▸ List.mem_singleton_self grantPayload)
  · have hleft : (pushedTwice cppGrantNode Cpp.blankReceiver).left = [grantPayload] := by
      decide +kernel
    exact hcpp (grantQueued Cpp.blankReceiver) (pushedTwice cppGrantNode Cpp.blankReceiver) rfl
      (.tail (.single (.push _ _ _)) (.push _ _ _)) grantPayload
      (hleft.symm ▸ List.mem_singleton_self grantPayload)

/-- A node once these requests are made of it. -/
def sentOver (E : DeltaEndpoint Tuple.key σ) (node : σ) (ts : List (Bytes × Fate)) :
    StateVector Tuple.key :=
  E.state (requests (acknowledge E (.javascript readAck)) ts node).2

theorem retries_change_nothing_grant :
    (sentOver cppGrantNode Cpp.blankReceiver
        [(grantPayload, .unanswered), (grantPayload, .answered)]).isActive grantedTuple.key =
      (sentOver cppGrantNode Cpp.blankReceiver
        [(grantPayload, .answered)]).isActive grantedTuple.key := by
  have hsame : ∀ p, p ∈ reached [(grantPayload, .unanswered), (grantPayload, .answered)] ↔
      p ∈ reached [(grantPayload, .answered)] := fun p => by
    unfold reached
    rw [List.filter_cons_of_pos (by decide), List.filter_cons_of_pos (by decide)]
    simp
  obtain ⟨-, -, hcpp⟩ := @retries_change_nothing _ _ Tuple.key oneGrantPlatform onlyKeyWorld
    _ _ _ _ _ _ (fun _ _ h => by cases h) oneGrant_shorter Python.onlyKeyWorld_answers grantWire_shorter
    Cpp.splitReader_lawful Cpp.splitReader_framed Cpp.onlyKeyWorld_answers onlyKey packAck
    (fun _ => rfl) (fun _ => rfl) (fun _ => rfl) (.javascript readAck)
  have hnode : RetrySafe cppGrantNode (.javascript readAck) := hcpp
  exact (hnode [(grantPayload, .unanswered), (grantPayload, .answered)]
    [(grantPayload, .answered)] Cpp.blankReceiver hsame).2 grantedTuple.key

end BadLink

end Dacar

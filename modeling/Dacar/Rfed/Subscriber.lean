import Dacar.LinkPush
import Dacar.Rfed.Compact

/-!
# Subscribers of a channel

A blob comes to a subscriber live, or on a page of a pull, or both, and in any order.  What the
blobs of a channel leave behind depends on the Deltas in them only.
-/

namespace Dacar.Rfed

open LossyLink StateVector

variable {κ : Type} [DecidableEq κ] {key : Tuple → κ}

/-! ## Receiving blobs -/

/-- A page of a pull; an item may lack its blob. -/
structure Page where
  items : List (Option Bytes)
  morePending : Bool

/-- The receiver of a subscriber, and the recall store beside it. -/
structure Subscriber (key : Tuple → κ) where
  receiver : DeltaReceiver key
  recalled : List Remembered

/-- What a port does with a blob, and whether a Delta was newly applied. -/
abbrev TakeBlob (key : Tuple → κ) := Bytes → Subscriber key → Bool × Subscriber key

/-- The body of `on_fanout` and of the loop in `pull`; whatever it raises is swallowed. -/
def Python.takeBlob (lib : Libraries) (p : Dacar.Python.Platform) (w : Dacar.Python.World) :
    TakeBlob key := fun blob s =>
  match unwrapDacarDelta lib blob with
  | .error _ => (false, s)
  | .ok decoded =>
    let taken := Dacar.Python.DeltaReceiver.applyPayload p w {} false decoded.delta s.receiver
    (taken.1.getD false, ⟨taken.2, rememberSender lib decoded s.recalled⟩)

/-- The callback of `listen` and the body of the loop in `pull`. -/
def JavaScript.takeBlob (lib : Libraries) (hasRns : Bool) (p : Platform) (w : World) :
    TakeBlob key := fun blob s =>
  match lib.unwrapRawChannelMessage blob with
  | none => (false, s)
  | some decoded =>
    let taken := s.receiver.applyPayload p w {} decoded.payload
    (taken.1.getD false, ⟨taken.2, rememberSender lib hasRns decoded s.recalled⟩)

section Arrive

variable (take : TakeBlob key)

/-- The items of a page, with the number applied so far. -/
def pullItems : List (Option Bytes) → ℕ → Subscriber key → ℕ × Subscriber key
  | [], applied, s => (applied, s)
  | none :: items, applied, s => pullItems items applied s
  | some blob :: items, applied, s =>
    let taken := take blob s
    pullItems items (if taken.1 then applied + 1 else applied) taken.2

/-- `pull`, on what the node answers from page to page; an answer that raises ends it. -/
def pullPages : List (Option Page) → ℕ → Subscriber key → Option ℕ × Subscriber key
  | [], _, s => (none, s)
  | none :: _, _, s => (none, s)
  | some page :: pages, applied, s =>
    let pulled := pullItems take page.items applied s
    if page.morePending then pullPages pages pulled.1 pulled.2 else (some pulled.1, pulled.2)

/-- Something comes to a subscriber. -/
inductive Arrival
  | fanout (innerBlob : Bytes)
  | pull (answers : List (Option Page))

def arrive : Arrival → Subscriber key → Subscriber key
  | .fanout innerBlob, s => (take innerBlob s).2
  | .pull answers, s => (pullPages take answers 0 s).2

def arriveAll (arrivals : List Arrival) (s : Subscriber key) : Subscriber key :=
  arrivals.foldl (fun s a => arrive take a s) s

/-- The blobs of the pages that a pull comes to. -/
def pageBlobs : List (Option Page) → List Bytes
  | [] => []
  | none :: _ => []
  | some page :: pages =>
    page.items.filterMap id ++ if page.morePending then pageBlobs pages else []

def Arrival.blobs : Arrival → List Bytes
  | .fanout innerBlob => [innerBlob]
  | .pull answers => pageBlobs answers

/-- The Deltas that arrive, with the Delta of each blob. -/
def delivered (carries : Bytes → Option Bytes) (arrivals : List Arrival) : List Bytes :=
  (arrivals.flatMap Arrival.blobs).filterMap carries

theorem pullItems_snd (items : List (Option Bytes)) (applied : ℕ) (s : Subscriber key) :
    (pullItems take items applied s).2 =
      (items.filterMap id).foldl (fun s b => (take b s).2) s := by
  induction items generalizing applied s with
  | nil => rfl
  | cons item items ih =>
    cases item with
    | none => exact ih applied s
    | some blob => exact ih _ _

theorem pullPages_snd (pages : List (Option Page)) (applied : ℕ) (s : Subscriber key) :
    (pullPages take pages applied s).2 =
      (pageBlobs pages).foldl (fun s b => (take b s).2) s := by
  induction pages generalizing applied s with
  | nil => rfl
  | cons page pages ih =>
    cases page with
    | none => rfl
    | some page =>
      rw [pullPages, pageBlobs, List.foldl_append, ← pullItems_snd take page.items applied s]
      split_ifs
      · exact ih _ _
      · rfl

theorem arriveAll_eq (arrivals : List Arrival) (s : Subscriber key) :
    arriveAll take arrivals s =
      (arrivals.flatMap Arrival.blobs).foldl (fun s b => (take b s).2) s := by
  induction arrivals generalizing s with
  | nil => rfl
  | cons a arrivals ih =>
    have hone : arrive take a s = a.blobs.foldl (fun s b => (take b s).2) s := by
      cases a with
      | fanout innerBlob => rfl
      | pull answers => exact pullPages_snd take answers 0 s
    rw [List.flatMap_cons, List.foldl_append, ← hone]
    exact ih _

end Arrive

/-! ## What arrives is what counts -/

/-- Of a blob the receiver takes the Delta in it. -/
def Serves (take : TakeBlob key) (P : Port key) (carries : Bytes → Option Bytes) : Prop :=
  ∀ blob s, (take blob s).2.receiver =
    (carries blob).elim s.receiver fun delta => (P.applyPayload {} delta s.receiver).2

section Serves

variable {take : TakeBlob key} {P : Port key} {carries : Bytes → Option Bytes}

theorem Serves.receiver (h : Serves take P carries) (arrivals : List Arrival)
    (s : Subscriber key) :
    (arriveAll take arrivals s).receiver = (delivered carries arrivals).foldl
      (fun r delta => (P.applyPayload {} delta r).2) s.receiver := by
  rw [arriveAll_eq, delivered]
  induction arrivals.flatMap Arrival.blobs generalizing s with
  | nil => rfl
  | cons blob blobs ih =>
    rw [List.foldl_cons, ih, h]
    cases hcarries : carries blob with
    | none => rw [List.filterMap_cons_none hcarries, Option.elim_none]
    | some delta => rw [List.filterMap_cons_some hcarries, Option.elim_some, List.foldl_cons]

/-- What a Delta adds to a receiver with this horizon. -/
def effect (P : Port key) (days : ℕ) (delta : Bytes) : κ → WithBot Stamps :=
  joined key (P.passing {} (.empty days) 0 delta).toList

theorem view_applyPayload (hP : P.Lawful) (hauthentic : ∀ n op, P.authentic n op = P.authentic 0 op)
    (hnow : ∀ n, P.now {} n = P.now {} 0) (delta : Bytes) (r : DeltaReceiver key) :
    (P.applyPayload {} delta r).2.state.view =
      r.state.view ⊔ effect P r.state.deletionHorizonDays delta ∧
    (P.applyPayload {} delta r).2.state.deletionHorizonDays = r.state.deletionHorizonDays := by
  have hpass : P.passing {} (.empty r.state.deletionHorizonDays) 0 =
      P.passing {} r.state r.ingested := by
    have hhorizon : (empty r.state.deletionHorizonDays : StateVector key).deletionHorizonMs =
        r.state.deletionHorizonMs := rfl
    rw [Port.passing_congr hhorizon]
    funext b
    simp only [Port.passing, hauthentic r.ingested, hnow r.ingested]
  rw [effect, hpass, hP.applyPayload]
  cases P.passing {} r.state r.ingested delta with
  | none => exact ⟨(view_recordAll [] r.state), rfl⟩
  | some op => exact ⟨(view_recordAll [op] r.state), rfl⟩

/-- A receiver to which the same Deltas come, in whatever order and number, ends up alike. -/
theorem view_applied (hP : P.Lawful) (hauthentic : ∀ n op, P.authentic n op = P.authentic 0 op)
    (hnow : ∀ n, P.now {} n = P.now {} 0) {deltas deltas' : List Bytes}
    (hsame : ∀ delta, delta ∈ deltas ↔ delta ∈ deltas') (r : DeltaReceiver key) :
    (deltas.foldl (fun r delta => (P.applyPayload {} delta r).2) r).state.view =
      (deltas'.foldl (fun r delta => (P.applyPayload {} delta r).2) r).state.view := by
  have happly := view_applyPayload hP hauthentic hnow
  -- the receiver handles one Delta after the other, and none is lost
  let handle := fun delta (r : DeltaReceiver key) =>
    ((P.applyPayload {} delta r).1.getD false, (P.applyPayload {} delta r).2)
  have hrun (ds : List Bytes) : ds.foldl (fun r delta => (P.applyPayload {} delta r).2) r =
      (requests handle (ds.map fun d => (d, .answered)) r).2 := by
    rw [requests_answered]
  rw [hrun, hrun]
  refine LossyLink.view_congr (fun r : DeltaReceiver key => r.state.view)
    (effect P r.state.deletionHorizonDays)
    (fun r' => r'.state.deletionHorizonDays = r.state.deletionHorizonDays) ?_ ?_ ?_ rfl
  · exact fun delta r' hr => (happly delta r').2.trans hr
  · exact fun delta r' hr => hr ▸ (happly delta r').1
  · intro delta
    rw [reached_answered, reached_answered]
    exact hsame delta

/-- Subscribers to whom the same Deltas come end up alike. -/
def Agrees (take : TakeBlob key) (carries : Bytes → Option Bytes) : Prop :=
  ∀ (as as' : List Arrival) (s : Subscriber key),
    (∀ delta, delta ∈ delivered carries as ↔ delta ∈ delivered carries as') →
    (arriveAll take as s).receiver.state.view = (arriveAll take as' s).receiver.state.view ∧
      ∀ k, (arriveAll take as s).receiver.state.isActive k =
        (arriveAll take as' s).receiver.state.isActive k

theorem Serves.agrees (h : Serves take P carries) (hP : P.Lawful)
    (hauthentic : ∀ n op, P.authentic n op = P.authentic 0 op)
    (hnow : ∀ n, P.now {} n = P.now {} 0) : Agrees take carries := by
  intro as as' s hsame
  have hview : (arriveAll take as s).receiver.state.view =
      (arriveAll take as' s).receiver.state.view := by
    rw [h.receiver, h.receiver]
    exact view_applied hP hauthentic hnow hsame s.receiver
  exact ⟨hview, fun k => isActive_eq_of_view_eq (congrFun hview k)⟩

end Serves

/-! ## The two ports -/

section Ports

/-- The Delta that a blob of the channel carries. -/
def Python.carries (lib : Libraries) (blob : Bytes) : Option Bytes :=
  (unwrapDacarDelta lib blob).toOption.map DecodedDacarDelta.delta

def JavaScript.carries (lib : Libraries) (blob : Bytes) : Option Bytes :=
  (lib.unwrapRawChannelMessage blob).map DecodedRaw.payload

theorem Python.serves (lib : Libraries) (p : Dacar.Python.Platform) (w : Dacar.Python.World) :
    Serves (takeBlob lib p w : TakeBlob key) (Dacar.Python.port p w) (carries lib) := by
  intro blob s
  unfold takeBlob carries
  cases unwrapDacarDelta lib blob with
  | error e => rfl
  | ok decoded => rfl

theorem JavaScript.serves (lib : Libraries) (hasRns : Bool) (p : Platform) (w : World) :
    Serves (takeBlob lib hasRns p w : TakeBlob key) (javascriptPort p w) (carries lib) := by
  intro blob s
  unfold takeBlob carries
  cases lib.unwrapRawChannelMessage blob with
  | none => rfl
  | some decoded => rfl

/-- While its clock and its resolver say the same, it does not matter to a subscriber of either
port in which order, how often and on which way the Deltas of the channel come. -/
theorem subscribers_agree (lib : Libraries) (hasRns : Bool) {p : Platform} {w : World}
    {p' : Dacar.Python.Platform} {w' : Dacar.Python.World}
    (hw : ∀ n issuer, (w n).resolver issuer ≠ .throws)
    (hbin : ∀ data items b, p.msgPackDecode data = .ok (.array items) → .bytes b ∈ items →
      b.length < data.length)
    (hw' : Dacar.Python.Answers w')
    (hbin' : ∀ data items b, p'.unpackb data = .ok (.array items) → .bin b ∈ items →
      b.length < data.length)
    (hfixed : ∀ n, w n = w 0) (hfixed' : ∀ n, w' n = w' 0) :
    Agrees (JavaScript.takeBlob lib hasRns p w : TakeBlob key) (JavaScript.carries lib) ∧
      Agrees (Python.takeBlob lib p' w' : TakeBlob key) (Python.carries lib) := by
  constructor
  · exact (JavaScript.serves lib hasRns p w).agrees (javascript_lawful hw hbin)
      (javascriptPort_fixed hfixed).1 (javascriptPort_fixed hfixed).2
  · exact (Python.serves lib p' w').agrees (Dacar.Python.lawful hw' hbin')
      (Dacar.Python.port_fixed hfixed').1 (Dacar.Python.port_fixed hfixed').2

end Ports

/-! ## A grant that comes twice -/

section Twice

/-- A channel that encrypts nothing. -/
def openChannel : Identity where
  hash := Blob.fill 16 1
  publicKey := Blob.fill 64 2
  encrypt _ plaintext := plaintext
  decrypt := some

/-- The message of the grant on an open channel. -/
def grantBlob : Bytes := innerBlobOf openChannel openChannel [] grantPayload

def grantSubscriber : Subscriber Tuple.key := ⟨Dacar.Python.blankReceiver, []⟩

def takeGrant : TakeBlob Tuple.key :=
  JavaScript.takeBlob relayLibraries true oneGrantPlatform onlyKeyWorld

/-- It is pulled and then fanned out, or fanned out only. -/
theorem subscribers_agree_twice :
    (arriveAll takeGrant [.pull [some ⟨[none, some grantBlob], false⟩], .fanout grantBlob]
        grantSubscriber).receiver.state.isActive grantedTuple.key =
      (arriveAll takeGrant [.fanout grantBlob] grantSubscriber).receiver.state.isActive
        grantedTuple.key := by
  have hagrees : Agrees takeGrant (JavaScript.carries relayLibraries) ∧
      Agrees (Python.takeBlob relayLibraries Dacar.Python.onlyKeyPlatform
        Dacar.Python.onlyKeyWorld : TakeBlob Tuple.key) (Python.carries relayLibraries) :=
    subscribers_agree relayLibraries true (fun _ _ h => by cases h) oneGrant_shorter
      Dacar.Python.onlyKeyWorld_answers grantWire_shorter (fun _ => rfl) (fun _ => rfl)
  refine (hagrees.1 _ _ grantSubscriber ?_).2 grantedTuple.key
  intro delta
  simp [delivered, Arrival.blobs, pageBlobs]

end Twice

end Dacar.Rfed

import Dacar.Cli.Paper

/-!
# From one node to another on paper

What is exported is what a scan brings back, and the state of the importing node is the same
whatever the order of the scans and however many imports they were spread over.
-/

namespace Dacar.Cli

open Fallible LossyLink StateVector

variable {κ : Type} [DecidableEq κ] {key : Tuple → κ}

/-! ## What the receiver makes of it -/

section Applied

variable {P : Dacar.Port key}

theorem passing_steady (hauthentic : ∀ n op, P.authentic n op = P.authentic 0 op)
    (hnow : ∀ n, P.now {} n = P.now {} 0) {s t : StateVector key}
    (h : s.deletionHorizonDays = t.deletionHorizonDays) (n : ℕ) :
    P.passing {} s n = P.passing {} t 0 := by
  have hms : s.deletionHorizonMs = t.deletionHorizonMs := by
    rw [deletionHorizonMs, deletionHorizonMs, h]
  rw [Dacar.Port.passing_congr hms]
  funext payload
  simp only [Dacar.Port.passing, hauthentic n, hnow n]

/-- The payloads that apply are those that pass before the first of them. -/
theorem foldl_recordingApply (hP : P.Lawful)
    (hauthentic : ∀ n op, P.authentic n op = P.authentic 0 op)
    (hnow : ∀ n, P.now {} n = P.now {} 0) (s : StateVector key) (payloads applied : List Bytes)
    (r : DeltaReceiver key) (hr : r.state.deletionHorizonDays = s.deletionHorizonDays) :
    payloads.foldl (fun t b => (recordingApply (P.applyPayload {}) b t).2) (applied, r) =
      (applied ++ payloads.filter (fun b => (P.passing {} s 0 b).isSome),
        payloads.foldl (fun r b => (P.applyPayload {} b r).2) r) := by
  induction payloads generalizing applied r with
  | nil => rw [List.foldl_nil, List.foldl_nil, List.filter_nil, List.append_nil]
  | cons payload payloads ih =>
    have hpass : P.passing {} r.state r.ingested payload = P.passing {} s 0 payload :=
      congrFun (passing_steady hauthentic hnow hr r.ingested) payload
    have hnext : (P.applyPayload {} payload r).2.state.deletionHorizonDays =
        s.deletionHorizonDays :=
      (Rfed.view_applyPayload hP hauthentic hnow payload r).2.trans hr
    have hfirst : (P.applyPayload {} payload r).1 = some (P.passing {} s 0 payload).isSome := by
      rw [hP.applyPayload, hpass]
    rw [List.foldl_cons, List.foldl_cons, recordingApply]
    dsimp only
    rw [ih _ _ hnext, hfirst, List.filter_cons]
    cases (P.passing {} s 0 payload).isSome with
    | true => rw [if_pos rfl, if_pos rfl, List.append_assoc, List.singleton_append]
    | false => rw [if_neg (by decide), if_neg (by decide)]

/-- An applied operation is held, and stays held. -/
theorem holds_foldl_applyPayload (hP : P.Lawful)
    (hauthentic : ∀ n op, P.authentic n op = P.authentic 0 op)
    (hnow : ∀ n, P.now {} n = P.now {} 0) {s : StateVector key} {payload : Bytes} {op : Operation}
    (hop : P.passing {} s 0 payload = some op) {payloads : List Bytes}
    (hmem : payload ∈ payloads) (r : DeltaReceiver key)
    (hr : r.state.deletionHorizonDays = s.deletionHorizonDays) :
    Holds (payloads.foldl (fun r b => (P.applyPayload {} b r).2) r).state op := by
  have hkeep (b : Bytes) (r : DeltaReceiver key) (h : Holds r.state op) :
      Holds (P.applyPayload {} b r).2.state op := by
    rw [hP.applyPayload]
    cases P.passing {} r.state r.ingested b with
    | none => exact h
    | some op' => exact h.record op'
  have hkeeps (bs : List Bytes) (r : DeltaReceiver key) (h : Holds r.state op) :
      Holds (bs.foldl (fun r b => (P.applyPayload {} b r).2) r).state op := by
    induction bs generalizing r with
    | nil => exact h
    | cons b bs ih => exact ih _ (hkeep b r h)
  induction payloads generalizing r with
  | nil => exact nomatch hmem
  | cons b payloads ih =>
    rw [List.foldl_cons]
    rcases List.mem_cons.mp hmem with rfl | hmem
    · refine hkeeps payloads _ ?_
      rw [hP.applyPayload, congrFun (passing_steady hauthentic hnow hr r.ingested) payload, hop]
      exact holds_record_self _ op
    · exact ih hmem _ ((Rfed.view_applyPayload hP hauthentic hnow b r).2.trans hr)

/-- How many were ingested before does not matter. -/
theorem view_foldl_congr (hP : P.Lawful)
    (hauthentic : ∀ n op, P.authentic n op = P.authentic 0 op)
    (hnow : ∀ n, P.now {} n = P.now {} 0) (payloads : List Bytes) {r r' : DeltaReceiver key}
    (hview : r.state.view = r'.state.view)
    (hdays : r.state.deletionHorizonDays = r'.state.deletionHorizonDays) :
    (payloads.foldl (fun r b => (P.applyPayload {} b r).2) r).state.view =
      (payloads.foldl (fun r b => (P.applyPayload {} b r).2) r').state.view := by
  induction payloads generalizing r r' with
  | nil => exact hview
  | cons b payloads ih =>
    obtain ⟨hb, hkeep⟩ := Rfed.view_applyPayload hP hauthentic hnow b r
    obtain ⟨hb', hkeep'⟩ := Rfed.view_applyPayload hP hauthentic hnow b r'
    rw [List.foldl_cons, List.foldl_cons]
    exact ih (by rw [hb, hb', hview, hdays]) (by rw [hkeep, hkeep', hdays])

/-- Where nothing passes the receiver stays as it was. -/
theorem foldl_applyPayload_of_refused (hP : P.Lawful)
    (hauthentic : ∀ n op, P.authentic n op = P.authentic 0 op)
    (hnow : ∀ n, P.now {} n = P.now {} 0) {payloads : List Bytes} (r : DeltaReceiver key)
    (h : ∀ b ∈ payloads, P.passing {} r.state 0 b = none) :
    (payloads.foldl (fun r b => (P.applyPayload {} b r).2) r).state = r.state := by
  induction payloads generalizing r with
  | nil => rfl
  | cons b payloads ih =>
    rw [List.forall_mem_cons] at h
    have hb : P.passing {} r.state r.ingested b = none :=
      (congrFun (passing_steady hauthentic hnow rfl r.ingested) b).trans h.1
    rw [List.foldl_cons, Dacar.Port.applyPayload_of_refused hP hb]
    exact ih ⟨r.state, P.next b r.ingested⟩ h.2

end Applied

/-- What an import of these payloads leaves behind, after which the router remembers these papers.
The report names what passes, the state has each of these operations, and it is what the receiver
makes of the payloads in some order. -/
structure Imported (P : Dacar.Port key) (payloads remembered : List Bytes) (s : Store key)
    (o : Script.Outcome (Content key) Event Failure PaperReport) : Prop where
  report : ∃ report, o.result = .ok report ∧ report.remembered = remembered ∧
    (∀ payload, payload ∈ report.applied ↔
      payload ∈ payloads ∧ (P.passing {} (s .state) 0 payload).isSome) ∧
    ∀ payload ∈ report.applied, ∀ op, P.operation payload = some op → Holds (o.store .state) op
  state : ∃ taken : List Bytes, (∀ payload, payload ∈ taken ↔ payload ∈ payloads) ∧
    o.store = Function.update s .state
      (taken.foldl (fun r b => (P.applyPayload {} b r).2) ⟨s .state, 0⟩).state

theorem operation_of_passing {P : Dacar.Port key} {options : ApplyOptions} {s : StateVector key}
    {n : ℕ} {payload : Bytes} {op : Operation} (h : P.passing options s n payload = some op) :
    P.operation payload = some op :=
  (Option.filter_eq_some_iff.mp h).1

section Import

variable {p : Dacar.Python.Platform} {w : Dacar.Python.World} {router : PaperRouter}

theorem Python.paperImport_run (hw : Dacar.Python.Answers w)
    (hbin : ∀ data items b, p.unpackb data = .ok (.array items) → .bin b ∈ items →
      b.length < data.length) (hfixed : ∀ n, w n = w 0) (hrouter : router.Lawful)
    (before : List Bytes) (uris : List String) (s : Store key) :
    Imported (Dacar.Python.port p w) (carried router p.unpackb before uris)
      (before ++ papers uris) s
      ((Python.paperImport p w router before uris : Command key PaperReport).run s) := by
  let P : Dacar.Port key := Dacar.Python.port p w
  have hP : P.Lawful := Dacar.Python.lawful hw hbin
  have hauthentic : ∀ n op, P.authentic n op = P.authentic 0 op :=
    (Dacar.Python.port_fixed hfixed).1
  have hnow : ∀ n, P.now {} n = P.now {} 0 := (Dacar.Python.port_fixed hfixed).2
  let taken := (handed router uris before).flatMap (PaperMessage.payloads p.unpackb)
  have htaken (payload : Bytes) :
      payload ∈ taken ↔ payload ∈ carried router p.unpackb before uris :=
    mem_handed_payloads hrouter p.unpackb before uris payload
  have hsettles (b : Bytes) (t : List Bytes × DeltaReceiver key) :
      (recordingApply (P.applyPayload {}) b t).1.isSome := by
    rw [recordingApply, hP.applyPayload]
    rfl
  let applied := taken.filter fun b => (P.passing {} (s .state) 0 b).isSome
  let r := taken.foldl (fun r b => (P.applyPayload {} b r).2) ⟨s .state, 0⟩
  have himported : ingestPapers router
      (Python.handleDelivery (recordingApply
        (Dacar.Python.DeltaReceiver.applyPayload p w {} false)) p.unpackb) uris before 0
        ([], ⟨s .state, 0⟩) =
          ((handed router uris before).length, before ++ papers uris, applied, r) := by
    change ingestPapers router
      (Python.handleDelivery (recordingApply (P.applyPayload {})) p.unpackb) uris before 0 _ = _
    rw [ingestPapers_eq, Nat.zero_add]
    simp only [Python.handleDelivery_snd hsettles]
    rw [← List.foldl_flatMap, foldl_recordingApply hP hauthentic hnow (s .state) taken [] _ rfl,
      List.nil_append]
  have hreport : ∀ payload, payload ∈ applied ↔
      payload ∈ carried router p.unpackb before uris ∧
        (P.passing {} (s .state) 0 payload).isSome := by
    intro payload
    rw [List.mem_filter, htaken]
  have hholds : ∀ payload ∈ applied, ∀ op, P.operation payload = some op →
      Holds r.state op := by
    intro payload hmem op hop
    obtain ⟨hpayload, hpass⟩ := List.mem_filter.mp hmem
    obtain ⟨op', hop'⟩ := Option.isSome_iff_exists.mp hpass
    obtain rfl : op' = op := Option.some.inj ((operation_of_passing hop').symm.trans hop)
    exact holds_foldl_applyPayload hP hauthentic hnow hop' hpayload ⟨s .state, 0⟩ rfl
  have hrun : (Python.paperImport p w router before uris : Command key PaperReport).run s =
      ⟨Function.update s .state r.state, if applied.isEmpty then [] else [.state], [],
        .ok ⟨applied, (handed router uris before).length, before ++ papers uris⟩⟩ := by
    unfold Python.paperImport
    rw [loadState, Script.get_bind, Script.run_load]
    dsimp only
    rw [himported]
    dsimp only
    split_ifs with hempty
    · -- nothing passed, so the state is the one that was loaded
      have hrefused : ∀ b ∈ taken, P.passing {} (s .state) 0 b = none := by
        intro b hb
        have hnot := List.filter_eq_nil_iff.mp (List.isEmpty_iff.mp hempty) b hb
        simpa using hnot
      have hsame : r.state = s .state :=
        foldl_applyPayload_of_refused hP hauthentic hnow ⟨s .state, 0⟩ hrefused
      rw [hsame, Function.update_eq_self]
      rfl
    · rfl
  rw [hrun]
  exact ⟨⟨_, rfl, rfl, hreport, hholds⟩, taken, htaken, rfl⟩

end Import

/-! ## What an export brings -/

section Export

variable {router : PaperRouter} {unpackb : Bytes → Except String WireValue}

/-- This node reads these payloads from the URI. -/
def ReadsAs (router : PaperRouter) (unpackb : Bytes → Except String WireValue)
    (payloads : List Bytes) (uri : String) : Prop :=
  ∃ paper message, Python.uriToPaperBytes uri = some paper ∧ router.opens paper = some message ∧
    message.payloads unpackb = payloads

/-- The URI is that of a paper which this node opens as this message. -/
def Prints (router : PaperRouter) (uri : String) (message : PaperMessage) : Prop :=
  ∃ paper, uri = paperUri paper ∧ router.opens paper = some message

theorem Prints.readsAs {uri : String} {message : PaperMessage} (h : Prints router uri message)
    {payloads : List Bytes} (hp : message.payloads unpackb = payloads) :
    ReadsAs router unpackb payloads uri := by
  obtain ⟨paper, rfl, hopens⟩ := h
  exact ⟨paper, message, uriToPaperBytes_paperUri paper, hopens, hp⟩

theorem carried_of_madeOf {payloads : List Bytes} {uris : List String}
    (h : MadeOf (ReadsAs router unpackb) payloads uris) :
    carried router unpackb [] uris = payloads := by
  obtain ⟨parts, rfl, -, hmade⟩ := h
  induction hmade with
  | nil => rfl
  | cons hread _ ih =>
    obtain ⟨paper, message, hpaper, hopens, rfl⟩ := hread
    rw [carried, papers, List.filterMap_cons_some hpaper, List.filter_cons_of_pos rfl,
      List.filterMap_cons_some hopens, List.flatMap_cons, List.flatten_cons]
    exact congrArg (message.payloads unpackb ++ ·) ih

theorem payloads_of_delta (payload : Bytes) :
    (PaperMessage.mk lxmfDeliveryTitle payload).payloads unpackb = [payload] := by
  have hne : lxmfDeliveryTitle ≠ lxmfBatchTitle := by decide
  rw [PaperMessage.payloads, if_neg hne, if_pos rfl]

/-- A batch that the format has written is read back. -/
theorem payloads_of_batch {packb : WireValue → Except String Bytes}
    (h : Python.KeepsBatches packb unpackb) {part : List Bytes} (hne : part ≠ [])
    (hfits : (batchValue part).Fits) :
    (PaperMessage.mk lxmfBatchTitle (MessagePack.encode (batchValue part))).payloads unpackb =
      part := by
  have hdecode := Python.decodeBatch_of_array hne
    (h.reads part _ (MessagePack.decodeAll_encode hfits))
  rw [PaperMessage.payloads, if_pos rfl, hdecode]
  rfl

/-- A pass over the chunks that returns has made a message of every part. -/
theorem madeOf_of_buildAll {V μ : Type} {array : List Bytes → V}
    {encode : V → Except String Bytes} {decode : Bytes → Except String V}
    (h : KeepsBatches array encode decode) {maxBytes : ℤ} {payloads : List Bytes}
    {chunks : List (List Bytes)} {make : ℕ → List Bytes → Except Thrown μ} {messages : List μ}
    (hchunks : fillChunks (fun ps => encode (array ps)) maxBytes payloads [] [] = .ok chunks)
    (hall : buildAll make payloads.length chunks 0 [] = some (.ok messages)) :
    MadeOf (Makes make) payloads messages := by
  have hcut := (fillChunks_spec h hchunks).1
  have hlength : ∀ chunk ∈ chunks, chunk.length ≤ payloads.length := fun chunk hmem => by
    rw [← hcut.flatten]
    exact (List.infix_of_mem_flatten hmem).length_le
  obtain ⟨result, hresult, hmade⟩ := buildAll_spec make hcut.nonempty hlength .nil 0
  obtain rfl := Option.some.inj (hresult.symm.trans hall)
  rwa [List.nil_append, hcut.flatten] at hmade

theorem carried_of_paperUris {encode : JsValue → Except String Bytes} {decode : MsgPackDecode}
    (hjs : JsKeepsBatches encode decode) {packb : WireValue → Except String Bytes}
    (hpython : Python.KeepsBatches packb unpackb)
    {toPaperUri : ℕ → OutboundMessage → Except Thrown String}
    {destinationHash identityHash : Bytes}
    (hopens : ∀ calls message uri, toPaperUri calls message = .ok uri →
      message.destinationHash = destinationHash →
      Prints router uri ⟨message.title, message.content⟩)
    {paperMdu : ℤ} {payloads : List Bytes} {uris : List String}
    (h : paperUris encode toPaperUri paperMdu destinationHash identityHash payloads
      payloads.length = some (.ok uris)) :
    carried router unpackb [] uris = payloads := by
  unfold paperUris at h
  split at h
  · rename_i payload
    obtain ⟨uri, huri, rfl⟩ := map_eq_ok.mp (Option.some.inj h)
    refine carried_of_madeOf (.single (List.cons_ne_nil _ _) ?_)
    exact (hopens 0 _ uri huri rfl).readsAs (payloads_of_delta payload)
  · unfold packPaperUris at h
    cases hchunks : packChunks encode payloads (paperContentBudget paperMdu) with
    | error e =>
      rw [hchunks] at h
      cases h
    | ok chunks =>
      rw [hchunks] at h
      refine carried_of_madeOf ((madeOf_of_buildAll hjs hchunks h).mono ?_)
      rintro part uri hne ⟨calls, hmake⟩
      unfold makeBatchPaperUri makeBatchMessage encodeBatch at hmake
      cases hencode : encode (.array (part.map .bytes)) with
      | error e =>
        rw [hencode] at hmake
        cases hmake
      | ok content =>
        rw [hencode] at hmake
        obtain ⟨hfits, rfl⟩ := hjs.encode_eq_ok hencode
        exact (hopens calls _ uri hmake rfl).readsAs (payloads_of_batch hpython hne hfits)

theorem Python.carried_of_paperUris {packb : WireValue → Except String Bytes}
    (hpython : Python.KeepsBatches packb unpackb) {δ μ : Type}
    {pack : ℕ → Python.OutboundMessage δ → Except Thrown μ} {asUri : μ → String} {destination : δ}
    (hopens : ∀ calls message packed, pack calls message = .ok packed →
      message.destination = destination →
      Prints router (asUri packed) ⟨message.title, message.content⟩)
    {paperMdu : ℤ} {source : Option δ} {payloads : List Bytes} {uris : List String}
    (h : Python.paperUris packb pack asUri paperMdu destination source payloads
      payloads.length = some (.ok uris)) :
    carried router unpackb [] uris = payloads := by
  obtain ⟨result, hresult, hmap⟩ := Option.map_eq_some_iff.mp h
  obtain ⟨messages, rfl, rfl⟩ := map_eq_ok.mp hmap
  -- the URIs are the printed messages, one by one
  have hprinted (hmade : MadeOf (fun part m => ReadsAs router unpackb part (asUri m)) payloads
      messages) : carried router unpackb [] (messages.map asUri) = payloads := by
    obtain ⟨parts, hflat, hne, hparts⟩ := hmade
    exact carried_of_madeOf ⟨parts, hflat, hne, List.forall₂_map_right_iff.mpr hparts⟩
  apply hprinted
  split at hresult
  · rename_i payload
    obtain ⟨message, hmessage, rfl⟩ := map_eq_ok.mp (Option.some.inj hresult)
    refine .single (List.cons_ne_nil _ _) ?_
    exact (hopens 0 _ message hmessage rfl).readsAs (payloads_of_delta payload)
  · unfold Python.packPaperMessages at hresult
    cases hchunks : Python.packChunks packb payloads (paperContentBudget paperMdu) with
    | error e =>
      rw [hchunks] at hresult
      cases hresult
    | ok chunks =>
      rw [hchunks] at hresult
      refine (madeOf_of_buildAll hpython hchunks hresult).mono ?_
      rintro part message hne ⟨calls, hmake⟩
      unfold Python.makePaperBatchMessage Python.makeBatchMessage Python.encodeBatch at hmake
      cases hencode : packb (.array (part.map .bin)) with
      | error e =>
        rw [hencode] at hmake
        cases hmake
      | ok content =>
        rw [hencode] at hmake
        obtain ⟨hfits, rfl⟩ := hpython.encode_eq_ok hencode
        exact (hopens calls _ message hmake rfl).readsAs (payloads_of_batch hpython hne hfits)

end Export

/-! ## From the boxes of one node to the state of another -/

omit [DecidableEq κ] in
theorem mem_paperSourcePayloads {a : PaperArgs} {s : Store key} {payloads : List Bytes}
    (h : paperSourcePayloads a s = .ok payloads) (hfile : a.payload = none) (b : Bytes) :
    b ∈ payloads ↔ b ∈ a.selected (s .outbox) (s .sent) := by
  rw [paperSourcePayloads, hfile] at h
  dsimp only at h
  split_ifs at h
  obtain rfl := Except.ok.inj h
  rw [mem_appendMissing, List.mem_nil_iff, false_or]

/-- The manifest names what did not apply, unless two payloads have one digest. -/
theorem missingDeltas_eq {sha256 : Bytes → Blob 32} {payloads applied : List Bytes}
    (hsha : Set.InjOn sha256 {b | b ∈ payloads ∨ b ∈ applied}) (target : Bytes) (chunks : ℕ) :
    missingDeltas sha256 (paperManifest sha256 payloads target chunks) applied =
      (payloads.filter fun b => !applied.contains b).map sha256 := by
  rw [missingDeltas, paperManifest, List.filter_map]
  congr 1
  refine List.filter_congr fun b hb => ?_
  have hdigest : sha256 b ∈ applied.map sha256 ↔ b ∈ applied := by
    refine ⟨fun h => ?_, List.mem_map_of_mem⟩
    obtain ⟨b', hb', heq⟩ := List.mem_map.mp h
    rwa [← hsha (.inr hb') (.inl hb) heq]
  simp only [Function.comp_apply, List.contains_eq_mem, hdigest]

/-- Imports on one node, one after the other, with the papers that its router remembers. -/
def importAll (importer : List Bytes → List String → Command key PaperReport) :
    List (List String) → List Bytes → Store key → Store key
  | [], _, s => s
  | scans :: imports, before, s =>
    match ((importer before scans).run s).result with
    | .ok report =>
      importAll importer imports report.remembered ((importer before scans).run s).store
    | .error _ => importAll importer imports before ((importer before scans).run s).store

/-- Paper between two nodes.  What is exported is read back, and what an import makes of a scan is
about the papers that are new to the router; the manifest tells what did not apply. -/
structure Relays (P : Dacar.Port key) (exports : List Bytes → List String → Prop)
    (router : PaperRouter) (unpackb : Bytes → Except String WireValue)
    (importer : List Bytes → List String → Command key PaperReport)
    (sha256 : Bytes → Blob 32) : Prop where
  exported : ∀ payloads uris, exports payloads uris → carried router unpackb [] uris = payloads
  imported : ∀ before scans s, Imported P (carried router unpackb before scans)
    (before ++ papers scans) s ((importer before scans).run s)
  /-- A scan of papers that were all imported before. -/
  again : ∀ before scans s, (∀ paper ∈ papers scans, paper ∈ before) →
    ((importer before scans).run s).store = s ∧
      ∀ report, ((importer before scans).run s).result = .ok report → report.applied = []
  unordered : ∀ before scans scans' (s : Store key),
    (∀ b, b ∈ carried router unpackb before scans ↔ b ∈ carried router unpackb before scans') →
    (((importer before scans).run s).store .state : StateVector key).view =
        (((importer before scans').run s).store .state : StateVector key).view ∧
      ∀ k, (((importer before scans).run s).store .state : StateVector key).isActive k =
        (((importer before scans').run s).store .state : StateVector key).isActive k
  /-- However many imports the scans are spread over. -/
  spread : ∀ imports before (s : Store key),
    (importAll importer imports before s .state : StateVector key).view =
      (((importer before imports.flatten).run s).store .state : StateVector key).view
  manifest : ∀ payloads target chunks before scans s report,
    ((importer before scans).run s).result = .ok report →
    Set.InjOn sha256 {b | b ∈ payloads ∨ b ∈ carried router unpackb before scans} →
    ∀ digest,
      digest ∈ missingDeltas sha256 (paperManifest sha256 payloads target chunks) report.applied ↔
        ∃ b ∈ payloads, sha256 b = digest ∧
          ¬(b ∈ carried router unpackb before scans ∧ (P.passing {} (s .state) 0 b).isSome)
  complete : ∀ payloads uris target chunks before scans s report, exports payloads uris →
    (∀ uri ∈ uris, uri ∈ scans) → (∀ paper ∈ papers uris, paper ∉ before) →
    ((importer before scans).run s).result = .ok report →
    Set.InjOn sha256 {b | b ∈ payloads ∨ b ∈ carried router unpackb before scans} →
    (missingDeltas sha256 (paperManifest sha256 payloads target chunks) report.applied = [] ↔
      ∀ b ∈ payloads, ∃ op, P.passing {} (s .state) 0 b = some op ∧
        Holds (((importer before scans).run s).store .state) op)

section Relays

variable {P : Dacar.Port key} {exports : List Bytes → List String → Prop} {router : PaperRouter}
  {unpackb : Bytes → Except String WireValue}
  {importer : List Bytes → List String → Command key PaperReport} {sha256 : Bytes → Blob 32}

theorem Imported.mem_missing {payloads scanned remembered : List Bytes} {s : Store key}
    {o : Script.Outcome (Content key) Event Failure PaperReport}
    (h : Imported P scanned remembered s o) {report : PaperReport} (hreport : o.result = .ok report)
    (hsha : Set.InjOn sha256 {b | b ∈ payloads ∨ b ∈ scanned}) (target : Bytes) (chunks : ℕ)
    (digest : Blob 32) :
    digest ∈ missingDeltas sha256 (paperManifest sha256 payloads target chunks) report.applied ↔
      ∃ b ∈ payloads, sha256 b = digest ∧
        ¬(b ∈ scanned ∧ (P.passing {} (s .state) 0 b).isSome) := by
  obtain ⟨report', hreport', -, happlied, -⟩ := h.report
  obtain rfl : report' = report := Except.ok.inj (hreport'.symm.trans hreport)
  have hinj : Set.InjOn sha256 {b | b ∈ payloads ∨ b ∈ report'.applied} :=
    hsha.mono fun b hb => hb.imp_right fun hb => ((happlied b).mp hb).1
  rw [missingDeltas_eq hinj]
  simp only [List.mem_map, List.mem_filter, Bool.not_eq_true', List.contains_eq_mem,
    decide_eq_false_iff_not, happlied]
  constructor
  · rintro ⟨b, ⟨hb, hmissing⟩, hdigest⟩
    exact ⟨b, hb, hdigest, hmissing⟩
  · rintro ⟨b, hb, hdigest, hmissing⟩
    exact ⟨b, ⟨hb, hmissing⟩, hdigest⟩

/-- An import that brings nothing leaves everything as it was. -/
theorem Imported.of_nothing {remembered : List Bytes} {s : Store key}
    {o : Script.Outcome (Content key) Event Failure PaperReport}
    (h : Imported P [] remembered s o) :
    o.store = s ∧ ∀ report, o.result = .ok report → report.applied = [] := by
  obtain ⟨taken, htaken, hstore⟩ := h.state
  obtain rfl : taken = [] :=
    List.eq_nil_iff_forall_not_mem.mpr fun b hb => List.not_mem_nil ((htaken b).mp hb)
  refine ⟨?_, fun report hreport => ?_⟩
  · rw [hstore, List.foldl_nil, Function.update_eq_self]
  · obtain ⟨report', hreport', -, happlied, -⟩ := h.report
    obtain rfl : report' = report := Except.ok.inj (hreport'.symm.trans hreport)
    exact List.eq_nil_iff_forall_not_mem.mpr fun b hb =>
      List.not_mem_nil ((happlied b).mp hb).1

section Steady

variable (hP : P.Lawful) (hauthentic : ∀ n op, P.authentic n op = P.authentic 0 op)
  (hnow : ∀ n, P.now {} n = P.now {} 0)

include hP hauthentic hnow

/-- Imports that bring the same payloads leave the same state behind. -/
theorem Imported.view_eq {payloads payloads' remembered remembered' : List Bytes} {s : Store key}
    {o o' : Script.Outcome (Content key) Event Failure PaperReport}
    (h : Imported P payloads remembered s o) (h' : Imported P payloads' remembered' s o')
    (hsame : ∀ b, b ∈ payloads ↔ b ∈ payloads') :
    (o.store .state : StateVector key).view = (o'.store .state : StateVector key).view := by
  obtain ⟨taken, htaken, hstore⟩ := h.state
  obtain ⟨taken', htaken', hstore'⟩ := h'.state
  have hboth : ∀ b, b ∈ taken ↔ b ∈ taken' := fun b =>
    (htaken b).trans ((hsame b).trans (htaken' b).symm)
  rw [hstore, hstore', Function.update_self, Function.update_self]
  exact Rfed.view_applied hP hauthentic hnow hboth ⟨s .state, 0⟩

/-- One import after another brings what a single one does. -/
theorem Imported.view_append {first second both remembered remembered' remembered'' : List Bytes}
    {s : Store key} {o o' o'' : Script.Outcome (Content key) Event Failure PaperReport}
    (h : Imported P first remembered s o) (h' : Imported P second remembered' o.store o')
    (h'' : Imported P both remembered'' s o'') (hboth : ∀ b, b ∈ both ↔ b ∈ first ∨ b ∈ second) :
    (o'.store .state : StateVector key).view = (o''.store .state : StateVector key).view := by
  obtain ⟨taken, htaken, hstore⟩ := h.state
  obtain ⟨taken', htaken', hstore'⟩ := h'.state
  obtain ⟨taken'', htaken'', hstore''⟩ := h''.state
  have hall : ∀ b, b ∈ taken'' ↔ b ∈ taken ++ taken' := fun b => by
    rw [List.mem_append, htaken, htaken', htaken'', hboth]
  rw [hstore', hstore'', Function.update_self, Function.update_self,
    Rfed.view_applied hP hauthentic hnow hall, List.foldl_append]
  refine view_foldl_congr hP hauthentic hnow taken' ?_ ?_
  · rw [hstore, Function.update_self]
  · rw [hstore, Function.update_self]

theorem view_importAll
    (himported : ∀ before scans s, Imported P (carried router unpackb before scans)
      (before ++ papers scans) s ((importer before scans).run s))
    (imports : List (List String)) (before : List Bytes) (s : Store key) :
    (importAll importer imports before s .state : StateVector key).view =
      (((importer before imports.flatten).run s).store .state : StateVector key).view := by
  induction imports generalizing before s with
  | nil =>
    have hnothing : Imported P [] (before ++ papers []) s ((importer before []).run s) :=
      himported before [] s
    rw [importAll, List.flatten_nil, hnothing.of_nothing.1]
  | cons scans imports ih =>
    obtain ⟨report, hreport, hremembered, -⟩ := (himported before scans s).report
    rw [importAll, hreport]
    dsimp only
    rw [ih, hremembered, List.flatten_cons]
    exact (himported before scans s).view_append hP hauthentic hnow (himported _ _ _)
      (himported before (scans ++ imports.flatten) s) fun b => mem_carried_append

theorem relays_of_imported
    (hexported : ∀ payloads uris, exports payloads uris →
      carried router unpackb [] uris = payloads)
    (himported : ∀ before scans s, Imported P (carried router unpackb before scans)
      (before ++ papers scans) s ((importer before scans).run s)) :
    Relays P exports router unpackb importer sha256 where
  exported := hexported
  imported := himported
  again before scans s hseen := by
    have hnothing : carried router unpackb before scans = [] := by
      refine List.eq_nil_iff_forall_not_mem.mpr fun b hb => ?_
      obtain ⟨paper, hpaper, hnew, -⟩ := mem_carried.mp hb
      exact hnew (hseen paper hpaper)
    exact (hnothing ▸ himported before scans s).of_nothing
  unordered before scans scans' s hsame := by
    have hview := (himported before scans s).view_eq hP hauthentic hnow
      (himported before scans' s) hsame
    exact ⟨hview, fun k => isActive_eq_of_view_eq (congrFun hview k)⟩
  spread := view_importAll hP hauthentic hnow himported
  manifest payloads target chunks before scans s report hreport hsha digest :=
    (himported before scans s).mem_missing hreport hsha target chunks digest
  complete payloads uris target chunks before scans s report hexports hscanned hnew hreport
      hsha := by
    obtain ⟨report', hreport', -, happlied, hholds⟩ := (himported before scans s).report
    obtain rfl : report' = report := Except.ok.inj (hreport'.symm.trans hreport)
    have hcarried : ∀ b ∈ payloads, b ∈ carried router unpackb before scans := by
      intro b hb
      rw [← hexported payloads uris hexports] at hb
      obtain ⟨paper, hpaper, -, hopens⟩ := mem_carried.mp hb
      obtain ⟨uri, huri, hreads⟩ := List.mem_filterMap.mp hpaper
      exact mem_carried.mpr ⟨paper, List.mem_filterMap.mpr ⟨uri, hscanned uri huri, hreads⟩,
        hnew paper hpaper, hopens⟩
    rw [List.eq_nil_iff_forall_not_mem]
    simp only [(himported before scans s).mem_missing hreport hsha target chunks]
    constructor
    · intro hnone b hb
      have hpass : (P.passing {} (s .state) 0 b).isSome := by
        by_contra hrefused
        exact hnone (sha256 b) ⟨b, hb, rfl, fun h => hrefused h.2⟩
      obtain ⟨op, hop⟩ := Option.isSome_iff_exists.mp hpass
      exact ⟨op, hop, hholds b ((happlied b).mpr ⟨hcarried b hb, hpass⟩) op
        (operation_of_passing hop)⟩
    · rintro hall digest ⟨b, hb, -, hmissing⟩
      obtain ⟨op, hop, -⟩ := hall b hb
      exact hmissing ⟨hcarried b hb, by rw [hop]; rfl⟩

end Steady

end Relays

omit [DecidableEq κ] in
/-- The JavaScript import throws on every URI. -/
theorem JavaScript.paperImport_run (before : List Bytes) (uris : List String) (s : Store key) :
    (JavaScript.paperImport before uris : Command key PaperReport).run s =
      ⟨s, [], [], .ok ⟨[], 0, before⟩⟩ := by
  have hnone (S : Type) (t : S) : JavaScript.ingestUris none uris 0 t = (0, t) := by
    induction uris with
    | nil => rfl
    | cons uri uris ih => exact ih
  unfold JavaScript.paperImport
  rw [loadState, Script.get_bind, Script.run_load]
  dsimp only
  rw [hnone]
  rfl

/-- Both ports export paper that the Python port imports.  The import of the JavaScript port
takes nothing, whatever is scanned. -/
theorem paper_relayed {encode : JsValue → Except String Bytes} {decode : MsgPackDecode}
    (hjs : JsKeepsBatches encode decode) {packb : WireValue → Except String Bytes}
    {p : Dacar.Python.Platform} (hpython : Python.KeepsBatches packb p.unpackb)
    {w : Dacar.Python.World} (hw : Dacar.Python.Answers w)
    (hbin : ∀ data items b, p.unpackb data = .ok (.array items) → .bin b ∈ items →
      b.length < data.length) (hfixed : ∀ n, w n = w 0)
    {router : PaperRouter} (hrouter : router.Lawful)
    {toPaperUri : ℕ → OutboundMessage → Except Thrown String} {target identityHash : Bytes}
    (hopens : ∀ calls message uri, toPaperUri calls message = .ok uri →
      message.destinationHash = target → Prints router uri ⟨message.title, message.content⟩)
    {δ μ : Type} {pack : ℕ → Python.OutboundMessage δ → Except Thrown μ} {asUri : μ → String}
    {destination : δ} {source : Option δ}
    (hopens' : ∀ calls message packed, pack calls message = .ok packed →
      message.destination = destination →
      Prints router (asUri packed) ⟨message.title, message.content⟩)
    (paperMdu : ℤ) (sha256 : Bytes → Blob 32) :
    Relays (Dacar.Python.port p w : Dacar.Port key)
        (fun payloads uris =>
          paperUris encode toPaperUri paperMdu target identityHash payloads payloads.length =
              some (.ok uris) ∨
            Python.paperUris packb pack asUri paperMdu destination source payloads
              payloads.length = some (.ok uris))
        router p.unpackb (Python.paperImport p w router) sha256 ∧
      (∀ (a : PaperArgs) (s : Store key) payloads, paperSourcePayloads a s = .ok payloads →
        a.payload = none → a.all = true →
        ∀ b, b ∈ payloads ↔ b ∈ s .outbox ∨ b ∈ s .sent) ∧
      ∀ before uris (s : Store key),
        (JavaScript.paperImport before uris : Command key PaperReport).run s =
          ⟨s, [], [], .ok ⟨[], 0, before⟩⟩ := by
  refine ⟨?_, fun a s payloads hsource hfile hall b => ?_, JavaScript.paperImport_run⟩
  · refine relays_of_imported (Dacar.Python.lawful hw hbin) (Dacar.Python.port_fixed hfixed).1
      (Dacar.Python.port_fixed hfixed).2 ?_ (Python.paperImport_run hw hbin hfixed hrouter)
    rintro payloads uris (hexport | hexport)
    · exact carried_of_paperUris hjs hpython hopens hexport
    · exact Python.carried_of_paperUris hpython hopens' hexport
  · rw [mem_paperSourcePayloads hsource hfile, PaperArgs.selected, if_pos hall, List.mem_append]

/-! ## A grant on paper -/

section Grant

theorem bin_mem_of_allOfFormat {vs : List MessagePack.Value} {b : Bytes}
    (h : .bin b ∈ WireValue.allOfFormat vs) : .bin b ∈ vs := by
  induction vs with
  | nil => exact nomatch h
  | cons v vs ih =>
    rw [WireValue.allOfFormat] at h
    rcases List.mem_cons.mp h with hv | hvs
    · have hstands := WireValue.ofFormat_stands v
      rw [← hv] at hstands
      cases hstands
      exact List.mem_cons_self
    · exact List.mem_cons_of_mem v (ih hvs)

/-- A binary in an array is shorter than what the array is read from. -/
theorem ofFormat_shorter (data : Bytes) (items : List WireValue) (b : Bytes)
    (hd : MsgPackLibraries.ofFormat.unpackb data = .ok (.array items)) (hb : .bin b ∈ items) :
    b.length < data.length := by
  cases hm : MessagePack.decodeAll data with
  | none => simp [MsgPackLibraries.ofFormat, hm] at hd
  | some m =>
    have hitems : WireValue.ofFormat m = .array items := by
      simpa [MsgPackLibraries.ofFormat, hm] using hd
    have hstands := WireValue.ofFormat_stands m
    rw [hitems] at hstands
    cases hstands with
    | @array _ ms hall =>
      rw [WireValue.ofFormat, WireValue.array.injEq] at hitems
      rw [← hitems] at hb
      exact MessagePack.shorter_of_decodeAll hm (bin_mem_of_allOfFormat hb)

def formatPlatform : Dacar.Python.Platform where
  unpackb := MsgPackLibraries.ofFormat.unpackb
  ed25519 := onlyKey

/-- The one paper that was printed. -/
def printedGrant : PaperMessage := ⟨lxmfDeliveryTitle, Dacar.grantPayload⟩

def grantRouter : PaperRouter where
  lxmfPropagation before paper :=
    if before.contains paper then none
    else if paper = Dacar.grantPayload then some printedGrant else none
  opens paper := if paper = Dacar.grantPayload then some printedGrant else none

theorem grantRouter_lawful : grantRouter.Lawful where
  fresh before paper hfresh := if_neg (by simpa using hfresh)
  again before paper hseen := if_pos (by simpa using hseen)

/-- Only the grant fits on the paper. -/
def printGrant {M : Type} (title : M → String) (content : M → Bytes) (_calls : ℕ) (message : M) :
    Except Thrown String :=
  if title message = lxmfDeliveryTitle ∧ content message = Dacar.grantPayload then
    .ok (paperUri Dacar.grantPayload)
  else .error (.typeError "message exceeds the paper MDU")

theorem prints_of_printGrant {M : Type} {title : M → String} {content : M → Bytes} {calls : ℕ}
    {message : M} {uri : String} (h : printGrant title content calls message = .ok uri) :
    Prints grantRouter uri ⟨title message, content message⟩ := by
  unfold printGrant at h
  split_ifs at h with hgrant
  refine ⟨Dacar.grantPayload, (Except.ok.inj h).symm, ?_⟩
  simp [hgrant.1, hgrant.2, grantRouter, printedGrant]

def jsGrantUri : ℕ → OutboundMessage → Except Thrown String :=
  printGrant OutboundMessage.title OutboundMessage.content

def pyGrantUri : ℕ → Python.OutboundMessage Unit → Except Thrown String :=
  printGrant Python.OutboundMessage.title Python.OutboundMessage.content

def importGrant (before : List Bytes) (uris : List String) : Command Tuple.key PaperReport :=
  Python.paperImport formatPlatform Dacar.Python.onlyKeyWorld grantRouter before uris

/-- The node that the grant was imported on. -/
def granted : Store Tuple.key :=
  ((importGrant [] [paperUri Dacar.grantPayload]).run (Store.init 180)).store

/-- The grant is printed and scanned, and scanned again another day. -/
theorem paper_relayed_twice :
    carried grantRouter formatPlatform.unpackb [] [paperUri Dacar.grantPayload] =
        [Dacar.grantPayload] ∧
      ((importGrant [Dacar.grantPayload] [paperUri Dacar.grantPayload]).run granted).store =
        granted ∧
      ∀ report,
        ((importGrant [Dacar.grantPayload] [paperUri Dacar.grantPayload]).run granted).result =
          .ok report → report.applied = [] := by
  have hrelays : Relays
      (Dacar.Python.port formatPlatform Dacar.Python.onlyKeyWorld : Dacar.Port Tuple.key)
      (fun payloads uris =>
        paperUris JsValue.pack jsGrantUri 2953 [] [] payloads payloads.length =
            some (.ok uris) ∨
          Python.paperUris WireValue.pack pyGrantUri id 2953 () none payloads payloads.length =
            some (.ok uris))
      grantRouter formatPlatform.unpackb importGrant (fun _ => .fill 32 0) :=
    And.left (paper_relayed JsValue.pack_keeps WireValue.pack_keeps
      Dacar.Python.onlyKeyWorld_answers ofFormat_shorter (fun _ => rfl) grantRouter_lawful
      (fun _ _ _ h _ => prints_of_printGrant h) (fun _ _ _ h _ => prints_of_printGrant h) 2953
      fun _ => .fill 32 0)
  refine ⟨hrelays.exported _ _ (.inl ?_), hrelays.again _ _ _ fun paper hpaper => ?_⟩
  · rw [paperUris, jsGrantUri, printGrant, if_pos ⟨rfl, rfl⟩]
    rfl
  · rwa [papers, List.filterMap_cons_some (uriToPaperBytes_paperUri _), List.filterMap_nil]
      at hpaper

end Grant

end Dacar.Cli

import Dacar.Base64
import Dacar.Cli.Aliases
import Dacar.Cli.Boxes
import Dacar.LosslessChunking
import Dacar.Rfed.Subscriber

/-!
# Paper messages

`paper export` packs Deltas of the boxes into messages that are printed; `paper import` takes
what is scanned, in any order, and says from a manifest what is missing.  The router of a node
remembers the papers it was fed, so that none is handed over twice.
-/

namespace Dacar.Cli

open Fallible LossyLink StateVector

variable {κ : Type} [DecidableEq κ] {key : Tuple → κ}

/-! ## What is exported -/

/-- The source flags of `paper export`; a payload has been read from a file. -/
structure PaperArgs where
  payload : Option Bytes
  outbox : Bool
  sent : Bool
  all : Bool

/-- Without a flag the newest of the outbox, or the newest that was sent. -/
def PaperArgs.selected (a : PaperArgs) (outbox sent : List Bytes) : List Bytes :=
  if a.all then outbox ++ sent
  else if a.outbox then outbox
  else if a.sent then sent
  else (if outbox.isEmpty then sent else outbox).getLast?.toList

/-- `_paper_source_payloads` -/
def paperSourcePayloads (a : PaperArgs) (s : Store key) : Except String (List Bytes) :=
  match a.payload with
  | some data => if data.isEmpty then .error "empty payload" else .ok [data]
  | none =>
    let selected := a.selected (s .outbox) (s .sent)
    if selected.isEmpty then
      .error "nothing to export (outbox/sent empty; use --payload <hex|file>)"
    else .ok (appendMissing selected ([], false)).1

/-- The advisory manifest of an export. -/
structure PaperManifest where
  version : ℕ
  target : Bytes
  chunks : ℕ
  deltaCount : ℕ
  deltaDigests : List (Blob 32)
  setDigest : Blob 32

/-- `_paper_manifest` -/
def paperManifest (sha256 : Bytes → Blob 32) (payloads : List Bytes) (target : Bytes)
    (chunks : ℕ) : PaperManifest where
  version := 1
  target := target
  chunks := chunks
  deltaCount := payloads.length
  deltaDigests := payloads.map sha256
  setDigest := sha256 payloads.flatten

/-- The URIs of an export; a single Delta goes as it is. -/
def paperUris (encode : JsValue → Except String Bytes)
    (toPaperUri : ℕ → OutboundMessage → Except Thrown String) (paperMdu : ℤ)
    (destinationHash identityHash : Bytes) (payloads : List Bytes) (fuel : ℕ) :
    Option (Except Thrown (List String)) :=
  match payloads with
  | [payload] =>
    some ((toPaperUri 0 (makeMessage payload destinationHash identityHash)).map fun uri => [uri])
  | payloads => packPaperUris encode toPaperUri paperMdu destinationHash identityHash payloads fuel

/-- `asUri` prints a message. -/
def Python.paperUris {δ μ : Type} (packb : WireValue → Except String Bytes)
    (pack : ℕ → Python.OutboundMessage δ → Except Thrown μ) (asUri : μ → String) (paperMdu : ℤ)
    (destination : δ) (source : Option δ) (payloads : List Bytes) (fuel : ℕ) :
    Option (Except Thrown (List String)) :=
  let messages : Option (Except Thrown (List μ)) :=
    match payloads with
    | [payload] =>
      some ((pack 0 (Python.makeMessage payload destination source .paper)).map fun m => [m])
    | payloads => Python.packPaperMessages packb pack paperMdu destination source payloads fuel
  messages.map fun result => result.map (List.map asUri)

/-! ## What is imported -/

/-- What the router hands to the delivery callback. -/
structure PaperMessage where
  title : String
  content : Bytes

section Delivery

variable {S : Type} (apply : Bytes → S → Option Bool × S)

/-- Every element, also after one was applied. -/
def applyEach : List Bytes → List Bool → S → Option (List Bool) × S
  | [], results, s => (some results, s)
  | payload :: payloads, results, s =>
    match apply payload s with
    | (none, s') => (none, s')
    | (some ok, s') => applyEach payloads (results ++ [ok]) s'

/-- `handle_delivery` of a delivery that has a receiver. -/
def Python.handleDelivery (unpackb : Bytes → Except String WireValue) (message : PaperMessage)
    (s : S) : Option Bool × S :=
  if message.title ≠ lxmfDeliveryTitle ∧ message.title ≠ lxmfBatchTitle then (some false, s)
  else if message.title = lxmfBatchTitle then
    match Python.decodeBatch unpackb message.content with
    | .error _ => (some false, s)
    | .ok payloads =>
      let settled := applyEach apply payloads [] s
      (settled.1.map fun results => results.any id, settled.2)
  else apply message.content s

/-- `_recording_apply` notes the payloads that applied. -/
def recordingApply (payload : Bytes) (s : List Bytes × S) : Option Bool × (List Bytes × S) :=
  let settled := apply payload s.2
  (settled.1, (if settled.1 = some true then s.1 ++ [payload] else s.1, settled.2))

end Delivery

/-- `lxm://` -/
def paperScheme : List Char := ['l', 'x', 'm', ':', '/', '/']

/-- `uri_to_paper_bytes`; `none` where it raises a `ValueError`.  Of all characters only the ASCII
letters have the lower case of the scheme. -/
def Python.uriToPaperBytes (uri : String) : Option Bytes :=
  let text := LineText.strip Python.isSpace uri.toList
  if (text.take paperScheme.length).map Char.toLower = paperScheme then
    let body := (text.drop paperScheme.length).filter (· ≠ '/')
    Base64.decode (body ++ Base64.padding body)
  else none

/-- What the router makes of a paper when it was fed these before, in this import or another. -/
structure PaperRouter where
  lxmfPropagation : List Bytes → Bytes → Option PaperMessage
  /-- What a paper holds for the identity of this node. -/
  opens : Bytes → Option PaperMessage

/-- A paper is handed over the first time, and never again. -/
structure PaperRouter.Lawful (router : PaperRouter) : Prop where
  fresh : ∀ before paper, paper ∉ before →
    router.lxmfPropagation before paper = router.opens paper
  again : ∀ before paper, paper ∈ before → router.lxmfPropagation before paper = none

section Import

variable {S : Type} (router : PaperRouter) (handle : PaperMessage → S → Option Bool × S)

/-- The loop over the URIs, with the papers that the router was fed and the number ingested. -/
def ingestPapers : List String → List Bytes → ℕ → S → ℕ × List Bytes × S
  | [], before, ingested, s => (ingested, before, s)
  | uri :: uris, before, ingested, s =>
    match Python.uriToPaperBytes uri with
    | none => ingestPapers uris before ingested s
    | some paper =>
      match router.lxmfPropagation before paper with
      | none => ingestPapers uris (before ++ [paper]) ingested s
      | some message =>
        ingestPapers uris (before ++ [paper]) (ingested + 1) (handle message s).2

end Import

/-- What an import reports: the payloads that applied, the papers they came from, and the papers
that the router remembers from then on. -/
structure PaperReport where
  applied : List Bytes
  ingested : ℕ
  remembered : List Bytes

/-- `cmd_paper_import` on the URIs it has read, up to the manifest.  The router has been fed the
papers of the imports before. -/
def Python.paperImport (p : Dacar.Python.Platform) (w : Dacar.Python.World)
    (router : PaperRouter) (before : List Bytes) (uris : List String) :
    Command key PaperReport := do
  let state ← loadState
  let apply := recordingApply (Dacar.Python.DeltaReceiver.applyPayload p w {} false)
  let imported :=
    ingestPapers router (Python.handleDelivery apply p.unpackb) uris before 0 ([], ⟨state, 0⟩)
  let report : PaperReport := ⟨imported.2.2.1, imported.1, imported.2.1⟩
  if report.applied.isEmpty then pure report
  else do
    saveState imported.2.2.2.state
    pure report

/-- The Deltas of the manifest that did not apply. -/
def missingDeltas (sha256 : Bytes → Blob 32) (manifest : PaperManifest) (applied : List Bytes) :
    List (Blob 32) :=
  manifest.deltaDigests.filter fun digest => !(applied.map sha256).contains digest

/-- `ingestPaperUri`; the router is handed the URI. -/
def JavaScript.ingestPaperUri {S : Type} (router : Option (String → S → Option PaperMessage × S))
    (uri : String) (s : S) : Except String (Option PaperMessage) × S :=
  match router with
  | none => (.error "LxmfDeltaDelivery.ingestPaperUri requires a router", s)
  | some ingestUri => ((.ok (ingestUri uri s).1), (ingestUri uri s).2)

/-- The loop of `cmdPaperImport`; a URI that throws is skipped. -/
def JavaScript.ingestUris {S : Type} (router : Option (String → S → Option PaperMessage × S)) :
    List String → ℕ → S → ℕ × S
  | [], ingested, s => (ingested, s)
  | uri :: uris, ingested, s =>
    match JavaScript.ingestPaperUri router uri s with
    | (.ok (some _), s') => JavaScript.ingestUris router uris (ingested + 1) s'
    | (_, s') => JavaScript.ingestUris router uris ingested s'

/-- `cmdPaperImport` on the URIs it has read, up to the manifest.  The delivery is made without
the router, so that what the router does with a URI is never asked. -/
def JavaScript.paperImport (before : List Bytes) (uris : List String) :
    Command key PaperReport := do
  let state ← loadState
  let delivery : Option (String → List Bytes × StateVector key →
    Option PaperMessage × (List Bytes × StateVector key)) := none
  let imported := JavaScript.ingestUris delivery uris 0 ([], state)
  let report : PaperReport := ⟨imported.2.1, imported.1, before⟩
  if report.applied.isEmpty then pure report
  else do
    saveState imported.2.2
    pure report

/-! ## What a scan brings -/

/-- What a message brings to the receiver. -/
def PaperMessage.payloads (unpackb : Bytes → Except String WireValue) (message : PaperMessage) :
    List Bytes :=
  if message.title = lxmfBatchTitle then
    (Python.decodeBatch unpackb message.content).toOption.getD []
  else if message.title = lxmfDeliveryTitle then [message.content]
  else []

/-- The papers in what was scanned. -/
def papers (uris : List String) : List Bytes := uris.filterMap Python.uriToPaperBytes

/-- The payloads in the papers that are new to the router. -/
def carried (router : PaperRouter) (unpackb : Bytes → Except String WireValue)
    (before : List Bytes) (uris : List String) : List Bytes :=
  (((papers uris).filter fun paper => !before.contains paper).filterMap router.opens).flatMap
    (PaperMessage.payloads unpackb)

theorem mem_carried {router : PaperRouter} {unpackb : Bytes → Except String WireValue}
    {before : List Bytes} {uris : List String} {payload : Bytes} :
    payload ∈ carried router unpackb before uris ↔ ∃ paper ∈ papers uris, paper ∉ before ∧
      ∃ message, router.opens paper = some message ∧ payload ∈ message.payloads unpackb := by
  simp only [carried, List.mem_flatMap, List.mem_filterMap, List.mem_filter, Bool.not_eq_true',
    List.contains_eq_mem, decide_eq_false_iff_not]
  constructor
  · rintro ⟨message, ⟨paper, ⟨hpaper, hnew⟩, hopens⟩, hmem⟩
    exact ⟨paper, hpaper, hnew, message, hopens, hmem⟩
  · rintro ⟨paper, hpaper, hnew, message, hopens, hmem⟩
    exact ⟨message, ⟨paper, ⟨hpaper, hnew⟩, hopens⟩, hmem⟩

/-- What two imports bring, one after the other, is what one brings. -/
theorem mem_carried_append {router : PaperRouter} {unpackb : Bytes → Except String WireValue}
    {before : List Bytes} {uris uris' : List String} {payload : Bytes} :
    payload ∈ carried router unpackb before (uris ++ uris') ↔
      payload ∈ carried router unpackb before uris ∨
        payload ∈ carried router unpackb (before ++ papers uris) uris' := by
  simp only [mem_carried, papers, List.filterMap_append, List.mem_append]
  constructor
  · rintro ⟨paper, hpaper, hnew, hopens⟩
    by_cases hfirst : paper ∈ uris.filterMap Python.uriToPaperBytes
    · exact .inl ⟨paper, hfirst, hnew, hopens⟩
    · exact .inr ⟨paper, hpaper.resolve_left hfirst, not_or.mpr ⟨hnew, hfirst⟩, hopens⟩
  · rintro (⟨paper, hpaper, hnew, hopens⟩ | ⟨paper, hpaper, hnew, hopens⟩)
    · exact ⟨paper, .inl hpaper, hnew, hopens⟩
    · exact ⟨paper, .inr hpaper, (not_or.mp hnew).1, hopens⟩

/-- The text of a Paper Message: URL-safe base64 without padding. -/
def paperUri (paper : Bytes) : String :=
  String.ofList (paperScheme ++ Base64.encode paper)

theorem uriToPaperBytes_paperUri (paper : Bytes) :
    Python.uriToPaperBytes (paperUri paper) = some paper := by
  have hplain : ∀ v < 64, Python.isSpace (Base64.digit v) = false := by decide +kernel
  have hscheme : ∀ c ∈ paperScheme, Python.isSpace c = false := by
    simp [paperScheme, Python.isSpace]
  have hstrip : LineText.strip Python.isSpace (paperUri paper).toList =
      paperScheme ++ Base64.encode paper := by
    have hchar : ∀ c ∈ paperScheme ++ Base64.encode paper, Python.isSpace c = false := by
      intro c hc
      rcases List.mem_append.mp hc with hc | hc
      · exact hscheme c hc
      · obtain ⟨v, hv, rfl⟩ := Base64.exists_of_mem_encode hc
        exact hplain v hv
    rw [paperUri, String.toList_ofList]
    exact LineText.strip_eq_self (fun c hc => hchar c (List.mem_of_mem_head? hc))
      fun c hc => hchar c (List.mem_of_getLast? hc)
  have hbody : (Base64.encode paper).filter (· ≠ '/') = Base64.encode paper := by
    refine List.filter_eq_self.mpr fun c hc => ?_
    obtain ⟨v, hv, rfl⟩ := Base64.exists_of_mem_encode hc
    exact decide_eq_true (Base64.digit_plain v hv).2.2.1
  have hlower : paperScheme.map Char.toLower = paperScheme := by decide
  unfold Python.uriToPaperBytes
  dsimp only
  rw [hstrip, List.take_left, List.drop_left, if_pos hlower, hbody, Base64.decode_encode]

section Delivery

variable {S : Type} {apply : Bytes → S → Option Bool × S}

/-- A receiver that never raises gets every payload. -/
theorem applyEach_snd (hsettles : ∀ b s, (apply b s).1.isSome) (payloads : List Bytes)
    (results : List Bool) (s : S) :
    (applyEach apply payloads results s).2 = payloads.foldl (fun s b => (apply b s).2) s := by
  induction payloads generalizing results s with
  | nil => rfl
  | cons payload payloads ih =>
    rw [applyEach, List.foldl_cons]
    obtain ⟨ok, hok⟩ := Option.isSome_iff_exists.mp (hsettles payload s)
    rw [show apply payload s = (some ok, (apply payload s).2) from Prod.ext hok rfl]
    exact ih _ _

theorem Python.handleDelivery_snd (hsettles : ∀ b s, (apply b s).1.isSome)
    (unpackb : Bytes → Except String WireValue) (message : PaperMessage) (s : S) :
    (Python.handleDelivery apply unpackb message s).2 =
      (message.payloads unpackb).foldl (fun s b => (apply b s).2) s := by
  unfold Python.handleDelivery PaperMessage.payloads
  by_cases hbatch : message.title = lxmfBatchTitle
  · rw [if_neg (fun h => h.2 hbatch), if_pos hbatch, if_pos hbatch]
    cases Python.decodeBatch unpackb message.content with
    | error e => rfl
    | ok payloads => exact applyEach_snd hsettles payloads [] s
  · rw [if_neg hbatch, if_neg hbatch]
    by_cases hdelta : message.title = lxmfDeliveryTitle
    · rw [if_neg (fun h => h.1 hdelta), if_pos hdelta]
      rfl
    · rw [if_pos ⟨hdelta, hbatch⟩, if_neg hdelta]
      rfl

end Delivery

section Handed

variable {router : PaperRouter}

/-- The messages that the loop hands over. -/
def handed (router : PaperRouter) : List String → List Bytes → List PaperMessage
  | [], _ => []
  | uri :: uris, before =>
    match Python.uriToPaperBytes uri with
    | none => handed router uris before
    | some paper =>
      (router.lxmfPropagation before paper).toList ++ handed router uris (before ++ [paper])

theorem ingestPapers_eq {S : Type} (handle : PaperMessage → S → Option Bool × S)
    (uris : List String) (before : List Bytes) (ingested : ℕ) (s : S) :
    ingestPapers router handle uris before ingested s =
      (ingested + (handed router uris before).length, before ++ papers uris,
        (handed router uris before).foldl (fun s m => (handle m s).2) s) := by
  induction uris generalizing before ingested s with
  | nil => rw [papers, List.filterMap_nil, List.append_nil]; rfl
  | cons uri uris ih =>
    rw [ingestPapers, handed, papers, List.filterMap_cons]
    cases Python.uriToPaperBytes uri with
    | none => exact ih before ingested s
    | some paper =>
      dsimp only
      cases router.lxmfPropagation before paper with
      | none =>
        dsimp only
        rw [ih, List.append_assoc]
        rfl
      | some message =>
        dsimp only
        rw [ih, Option.toList_some, List.singleton_append, List.length_cons, List.foldl_cons,
          Nat.add_assoc, Nat.add_comm 1, List.append_assoc]
        rfl

/-- The messages handed over are those of the papers that are new to the router. -/
theorem mem_handed (h : router.Lawful) {message : PaperMessage} {uris : List String}
    {before : List Bytes} : message ∈ handed router uris before ↔
      ∃ paper ∈ papers uris, paper ∉ before ∧ router.opens paper = some message := by
  induction uris generalizing before with
  | nil => simp [handed, papers]
  | cons uri uris ih =>
    rw [handed, papers, List.filterMap_cons]
    cases Python.uriToPaperBytes uri with
    | none => exact ih
    | some paper =>
      dsimp only
      rw [List.mem_append, ih, Option.mem_toList, ← papers]
      constructor
      · rintro (hfirst | ⟨paper', hpaper', hnew, hopens⟩)
        · by_cases hseen : paper ∈ before
          · rw [h.again before paper hseen] at hfirst
            cases hfirst
          · rw [h.fresh before paper hseen] at hfirst
            exact ⟨paper, List.mem_cons_self, hseen, hfirst⟩
        · exact ⟨paper', List.mem_cons_of_mem paper hpaper',
            fun hmem => hnew (List.mem_append_left _ hmem), hopens⟩
      · rintro ⟨paper', hpaper', hnew, hopens⟩
        by_cases hsame : paper' = paper
        · subst hsame
          exact .inl ((h.fresh before paper' hnew).trans hopens)
        · refine .inr ⟨paper', (List.mem_cons.mp hpaper').resolve_left hsame, ?_, hopens⟩
          rw [List.mem_append, List.mem_singleton]
          exact not_or.mpr ⟨hnew, hsame⟩

theorem mem_handed_payloads (h : router.Lawful) (unpackb : Bytes → Except String WireValue)
    (before : List Bytes) (uris : List String) (payload : Bytes) :
    payload ∈ (handed router uris before).flatMap (PaperMessage.payloads unpackb) ↔
      payload ∈ carried router unpackb before uris := by
  rw [mem_carried, List.mem_flatMap]
  constructor
  · rintro ⟨message, hmessage, hmem⟩
    obtain ⟨paper, hpaper, hnew, hopens⟩ := (mem_handed h).mp hmessage
    exact ⟨paper, hpaper, hnew, message, hopens, hmem⟩
  · rintro ⟨paper, hpaper, hnew, message, hopens, hmem⟩
    exact ⟨message, (mem_handed h).mpr ⟨paper, hpaper, hnew, hopens⟩, hmem⟩

end Handed

end Dacar.Cli

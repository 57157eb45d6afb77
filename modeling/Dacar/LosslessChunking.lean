import Dacar.Fallible
import Dacar.LxmfSend

/-!
# Nothing is lost on the way out

Packing, halving and sending all cut the payloads into consecutive parts.  Every payload is
in exactly one message, in its place, and its flag is that message's.
-/

namespace Dacar

open Fallible

/-! ## Halving -/

section Build

variable {μ : Type} {make : ℕ → List Bytes → Except Thrown μ}

/-- Consecutive parts of the payloads, each in a message of its own. -/
def MadeOf (made : List Bytes → μ → Prop) (payloads : List Bytes) (messages : List μ) : Prop :=
  ∃ parts, parts.flatten = payloads ∧ (∀ part ∈ parts, part ≠ []) ∧
    List.Forall₂ made parts messages

section MadeOf

variable {made made' : List Bytes → μ → Prop} {payloads payloads' : List Bytes}
  {messages messages' : List μ}

theorem MadeOf.nil : MadeOf made [] [] := ⟨[], rfl, by simp, .nil⟩

theorem MadeOf.single {message : μ} (hne : payloads ≠ []) (h : made payloads message) :
    MadeOf made payloads [message] :=
  ⟨[payloads], by simp, by simpa using hne, .cons h .nil⟩

theorem MadeOf.append (h : MadeOf made payloads messages)
    (h' : MadeOf made payloads' messages') :
    MadeOf made (payloads ++ payloads') (messages ++ messages') := by
  obtain ⟨parts, rfl, hne, hmade⟩ := h
  obtain ⟨parts', rfl, hne', hmade'⟩ := h'
  refine ⟨parts ++ parts', List.flatten_append, ?_, List.rel_append hmade hmade'⟩
  intro part hpart
  exact (List.mem_append.mp hpart).elim (hne part) (hne' part)

theorem MadeOf.mono (h : MadeOf made payloads messages)
    (himp : ∀ part message, part ≠ [] → made part message → made' part message) :
    MadeOf made' payloads messages := by
  obtain ⟨parts, hflat, hne, hmade⟩ := h
  refine ⟨parts, hflat, hne, ?_⟩
  clear hflat
  induction hmade with
  | nil => exact .nil
  | cons hm _ ih =>
    rw [List.forall_mem_cons] at hne
    exact .cons (himp _ _ hne.1 hm) (ih hne.2)

end MadeOf

/-- Some call of `make` returned the message for this part. -/
def Makes (make : ℕ → List Bytes → Except Thrown μ) (part : List Bytes) (message : μ) : Prop :=
  ∃ calls, make calls part = .ok message

/-- A part on which `make` failed, which cannot be halved or for which there is no point. -/
def FailsOn (make : ℕ → List Bytes → Except Thrown μ) (payloads : List Bytes) (e : Thrown) :
    Prop :=
  ∃ calls part, part <:+: payloads ∧ make calls part = .error e ∧
    (part.length = 1 ∨ ∃ text, e = .error text)

theorem FailsOn.of_infix {part payloads : List Bytes} {e : Thrown} (h : FailsOn make part e)
    (hpart : part <:+: payloads) : FailsOn make payloads e := by
  obtain ⟨calls, part', hpart', hfail⟩ := h
  exact ⟨calls, part', hpart'.trans hpart, hfail⟩

/-- What a build comes to: messages for all the payloads, or a failure. -/
def Built (make : ℕ → List Bytes → Except Thrown μ) (payloads : List Bytes) :
    Except Thrown (List μ) → Prop
  | .ok messages => MadeOf (Makes make) payloads messages
  | .error e => FailsOn make payloads e

/-- Both halves of two or more payloads are shorter, and neither is empty. -/
theorem build_spec (make : ℕ → List Bytes → Except Thrown μ) {fuel : ℕ} {chunk : List Bytes}
    (hne : chunk ≠ []) (hfuel : chunk.length ≤ fuel) (calls : ℕ) :
    ∃ result calls', build make fuel chunk calls = some (result, calls') ∧
      Built make chunk result := by
  induction fuel generalizing chunk calls with
  | zero => exact absurd (List.length_eq_zero_iff.mp (Nat.le_zero.mp hfuel)) hne
  | succ fuel ih =>
    rw [build]
    cases hmake : make calls chunk with
    | ok message => exact ⟨_, _, rfl, MadeOf.single hne ⟨calls, hmake⟩⟩
    | error thrown =>
      cases thrown with
      | error text =>
        exact ⟨_, _, rfl, calls, chunk, List.infix_rfl, hmake, .inr ⟨text, rfl⟩⟩
      | typeError text =>
        dsimp only
        split_ifs with hone
        · exact ⟨_, _, rfl, calls, chunk, List.infix_rfl, hmake, .inl hone⟩
        · have hpos := List.length_pos_of_ne_nil hne
          have hlen : (chunk.take (chunk.length / 2)).length = chunk.length / 2 :=
            List.length_take_of_le (Nat.div_le_self _ _)
          have hlen' : (chunk.drop (chunk.length / 2)).length =
              chunk.length - chunk.length / 2 := List.length_drop
          have hleft := List.ne_nil_of_length_pos
            (show 0 < (chunk.take (chunk.length / 2)).length by omega)
          have hright := List.ne_nil_of_length_pos
            (show 0 < (chunk.drop (chunk.length / 2)).length by omega)
          obtain ⟨left, calls', hbuild, hbuilt⟩ := ih hleft (by omega) (calls + 1)
          rw [hbuild]
          cases left with
          | error e =>
            exact ⟨_, _, rfl, hbuilt.of_infix (List.take_prefix _ _).isInfix⟩
          | ok left =>
            obtain ⟨right, calls'', hbuild', hbuilt'⟩ := ih hright (by omega) calls'
            dsimp only
            rw [hbuild']
            cases right with
            | error e =>
              exact ⟨_, _, rfl, hbuilt'.of_infix (List.drop_suffix _ _).isInfix⟩
            | ok right =>
              refine ⟨_, _, rfl, ?_⟩
              have hboth := MadeOf.append hbuilt hbuilt'
              rwa [List.take_append_drop] at hboth

/-- The pass ends, with messages for all chunks or a failure on one of them. -/
theorem buildAll_spec (make : ℕ → List Bytes → Except Thrown μ) {fuel : ℕ}
    {chunks : List (List Bytes)} (hne : ∀ chunk ∈ chunks, chunk ≠ [])
    (hfuel : ∀ chunk ∈ chunks, chunk.length ≤ fuel)
    {done : List Bytes} {messages : List μ} (hdone : MadeOf (Makes make) done messages)
    (calls : ℕ) :
    ∃ result, buildAll make fuel chunks calls messages = some result ∧
      match result with
      | .ok messages => MadeOf (Makes make) (done ++ chunks.flatten) messages
      | .error e => ∃ chunk ∈ chunks, FailsOn make chunk e := by
  induction chunks generalizing done messages calls with
  | nil =>
    refine ⟨_, rfl, ?_⟩
    rwa [List.flatten_nil, List.append_nil]
  | cons chunk chunks ih =>
    rw [List.forall_mem_cons] at hne hfuel
    obtain ⟨built, calls', hbuild, hbuilt⟩ := build_spec make hne.1 hfuel.1 calls
    rw [buildAll, hbuild]
    cases built with
    | error e => exact ⟨_, rfl, chunk, List.mem_cons_self, hbuilt⟩
    | ok more =>
      obtain ⟨result, hrest, hresult⟩ := ih hne.2 hfuel.2 (hdone.append hbuilt) calls'
      refine ⟨result, hrest, ?_⟩
      cases result with
      | ok messages =>
        rw [List.flatten_cons, ← List.append_assoc]
        exact hresult
      | error e =>
        obtain ⟨failed, hmem, hfail⟩ := hresult
        exact ⟨failed, List.mem_cons_of_mem _ hmem, hfail⟩

end Build

/-! ## Flags -/

/-- A publication from its `n`-th message on: for each message the payloads it carries, and
for each of these the answer to that message. -/
inductive Reports {M : Type} (carries : List Bytes → M → Prop) (answers : ℕ → M → Bool → Prop) :
    ℕ → List Bytes → List Bool → ℕ → Prop
  | done (n : ℕ) : Reports carries answers n [] [] n
  | sent {n last : ℕ} {part payloads : List Bytes} {message : M} {ok : Bool}
      {accepted : List Bool} (hne : part ≠ []) (hcarries : carries part message)
      (hanswers : answers n message ok)
      (rest : Reports carries answers (n + 1) payloads accepted last) :
      Reports carries answers n (part ++ payloads)
        (List.replicate part.length ok ++ accepted) last

section Reports

variable {M : Type} {carries : List Bytes → M → Prop} {answers : ℕ → M → Bool → Prop}

/-- One flag for each payload. -/
theorem Reports.length_eq {n last : ℕ} {payloads : List Bytes} {accepted : List Bool}
    (h : Reports carries answers n payloads accepted last) :
    accepted.length = payloads.length := by
  induction h with
  | done n => rfl
  | sent _ _ _ _ ih => rw [List.length_append, List.length_append, List.length_replicate, ih]

theorem reports_of_submitAll {make : List Bytes → Except String M}
    {submit : ℕ → M → Except String Bool}
    (hanswers : ∀ n message ok, submit n message = .ok ok → answers n message ok)
    {chunks : List (List Bytes)} (hne : ∀ chunk ∈ chunks, chunk ≠ [])
    (hcarries : ∀ chunk ∈ chunks, ∀ message, make chunk = .ok message → carries chunk message)
    {before accepted : List Bool} {n last : ℕ}
    (h : submitAll make submit chunks before n = .ok (accepted, last)) :
    ∃ flags, accepted = before ++ flags ∧
      Reports carries answers n chunks.flatten flags last := by
  induction chunks generalizing before n with
  | nil =>
    obtain ⟨rfl, rfl⟩ := Prod.mk.inj (Except.ok.inj h)
    exact ⟨[], (List.append_nil _).symm, .done _⟩
  | cons chunk chunks ih =>
    rw [List.forall_mem_cons] at hne hcarries
    rw [submitAll] at h
    cases hmake : make chunk with
    | error e =>
      rw [hmake] at h
      cases h
    | ok message =>
      rw [hmake] at h
      dsimp only at h
      cases hsubmit : submit n message with
      | error e =>
        rw [hsubmit] at h
        cases h
      | ok ok =>
        rw [hsubmit] at h
        obtain ⟨flags, rfl, hflags⟩ := ih hne.2 hcarries.2 h
        refine ⟨List.replicate chunk.length ok ++ flags, List.append_assoc _ _ _, ?_⟩
        exact .sent hne.1 (hcarries.1 message hmake) (hanswers _ _ _ hsubmit) hflags

theorem reports_of_single {payload : Bytes} {message : M} {submitted : Except String Bool}
    {accepted : List Bool} {messages : ℕ} (hcarries : carries [payload] message)
    (hanswers : ∀ ok, submitted = .ok ok → answers 0 message ok)
    (h : submitted.map (fun ok => ([ok], 1)) = .ok (accepted, messages)) :
    Reports carries answers 0 [payload] accepted messages := by
  obtain ⟨ok, hok, hflags⟩ := map_eq_ok.mp h
  obtain ⟨rfl, rfl⟩ := Prod.mk.inj hflags
  exact .sent (List.cons_ne_nil _ _) hcarries (hanswers ok hok) (.done 1)

end Reports

/-- Where nothing is refused the loop gets to its end. -/
theorem submitAll_ok {M : Type} {make : List Bytes → Except String M}
    {submit : ℕ → M → Except String Bool} (hsubmit : ∀ n message, ∃ ok, submit n message = .ok ok)
    {chunks : List (List Bytes)} (hmake : ∀ chunk ∈ chunks, ∃ message, make chunk = .ok message)
    (before : List Bool) (n : ℕ) :
    ∃ result, submitAll make submit chunks before n = .ok result := by
  induction chunks generalizing before n with
  | nil => exact ⟨_, rfl⟩
  | cons chunk chunks ih =>
    rw [List.forall_mem_cons] at hmake
    obtain ⟨message, hmessage⟩ := hmake.1
    obtain ⟨ok, hok⟩ := hsubmit n message
    rw [submitAll, hmessage]
    dsimp only
    rw [hok]
    exact ih hmake.2 _ _

/-- Where every message is refused the first one ends the loop. -/
theorem submitAll_error {M : Type} {make : List Bytes → Except String M}
    {submit : ℕ → M → Except String Bool} (hsubmit : ∀ n message, ∃ e, submit n message = .error e)
    {chunks : List (List Bytes)} (hne : chunks ≠ []) (before : List Bool) (n : ℕ) :
    ∃ e, submitAll make submit chunks before n = .error e := by
  obtain ⟨chunk, chunks, rfl⟩ := List.exists_cons_of_ne_nil hne
  rw [submitAll]
  cases make chunk with
  | error e => exact ⟨e, rfl⟩
  | ok message =>
    obtain ⟨e, he⟩ := hsubmit n message
    dsimp only
    rw [he]
    exact ⟨e, rfl⟩

/-! ## Both ports -/

/-- What packing and the envelope of a port promise. -/
structure PacksLosslessly (encodeBatch : List Bytes → Except String Bytes)
    (packChunks : List Bytes → ℤ → Except String (List (List Bytes)))
    (decodes : Bytes → List Bytes → Prop) : Prop where
  chunks : ∀ payloads maxBytes chunks, packChunks payloads maxBytes = .ok chunks →
    IsChunking encodeBatch maxBytes payloads chunks ∧
      ∀ others, IsChunking encodeBatch maxBytes payloads others → chunks.length ≤ others.length
  returns : ∀ payloads maxBytes, (batchValue payloads).Fits →
    ∃ chunks, packChunks payloads maxBytes = .ok chunks
  envelope : ∀ chunk content, chunk ≠ [] → encodeBatch chunk = .ok content →
    decodes content chunk

/-- What a halving pass over chunks promises: an end, with every payload in one of the
messages or a failure on a single payload. -/
def HalvesLosslessly {μ : Type} (packs : List Bytes → Except String (List (List Bytes)))
    (pass : List Bytes → ℕ → Option (Except Thrown (List μ)))
    (make : ℕ → List Bytes → Except Thrown μ) (carries : List Bytes → μ → Prop) : Prop :=
  ∀ payloads chunks, packs payloads = .ok chunks → ∀ fuel, payloads.length ≤ fuel →
    ∃ result, pass payloads fuel = some result ∧
      match result with
      | .ok messages => MadeOf carries payloads messages
      | .error e => ∃ payload ∈ payloads, ∃ calls, make calls [payload] = .error e

section Ports

variable {V : Type} {array : List Bytes → V} {encode : V → Except String Bytes}
  {decode : Bytes → Except String V}

theorem packsLosslessly_of_keeps (h : KeepsBatches array encode decode)
    {decodes : Bytes → List Bytes → Prop}
    (hdecodes : ∀ chunk content, chunk ≠ [] → decode content = .ok (array chunk) →
      decodes content chunk) :
    PacksLosslessly (fun ps => encode (array ps))
      (fun ps maxBytes => fillChunks (fun ps => encode (array ps)) maxBytes ps [] []) decodes where
  chunks _ _ _ hresult := fillChunks_spec h hresult
  returns _ _ hfits := h.exists_fillChunks hfits
  envelope chunk content hne hcontent := hdecodes chunk content hne (h.decode_eq_ok hcontent)

/-- A chunk of two or more payloads encodes, and so do its parts; what is left to fail is the
packing, for want of room. -/
theorem halvesLosslessly_of_keeps (h : KeepsBatches array encode decode) {μ : Type}
    {maxBytes : ℤ} {make : ℕ → List Bytes → Except Thrown μ}
    {carries : List Bytes → μ → Prop}
    (hcarries : ∀ part message, part ≠ [] → Makes make part message → carries part message)
    (hmake : ∀ calls part text, make calls part = .error (.error text) →
      ∃ e, encode (array part) = .error e) :
    HalvesLosslessly (fun ps => fillChunks (fun ps => encode (array ps)) maxBytes ps [] [])
      (fun ps fuel =>
        match fillChunks (fun ps => encode (array ps)) maxBytes ps [] [] with
        | .error e => some (.error (.error e))
        | .ok chunks => buildAll make fuel chunks 0 []) make carries := by
  intro payloads chunks hchunks fuel hfuel
  have hcut := (fillChunks_spec h hchunks).1
  have hpart : ∀ chunk ∈ chunks, chunk <:+: payloads := fun chunk hmem => by
    rw [← hcut.flatten]
    exact List.infix_of_mem_flatten hmem
  obtain ⟨result, hpass, hresult⟩ := buildAll_spec make hcut.nonempty
    (fun chunk hmem => (hpart chunk hmem).length_le.trans hfuel) .nil 0
  dsimp only at hchunks ⊢
  rw [hchunks]
  refine ⟨result, hpass, ?_⟩
  cases result with
  | ok messages =>
    rw [List.nil_append, hcut.flatten] at hresult
    exact hresult.mono hcarries
  | error e =>
    obtain ⟨chunk, hmem, calls, part, hinner, hfail, hwhy⟩ := hresult
    have hone : part.length = 1 := by
      rcases hwhy with hone | ⟨text, rfl⟩
      · exact hone
      · obtain ⟨e, he⟩ := hmake calls part text hfail
        by_contra hne
        -- what does not encode is not part of a chunk within the budget
        rcases le_or_gt 2 chunk.length with htwo | hshort
        · obtain ⟨b, hb, -⟩ := h.withinBudget_of_infix hinner (hcut.within chunk hmem htwo)
          cases he.symm.trans hb
        · have hlen := hinner.length_le
          have hnil : part = [] := List.length_eq_zero_iff.mp (by omega)
          rw [hnil, h.writes [] ⟨Nat.two_pow_pos 32, trivial⟩] at he
          cases he
    obtain ⟨payload, rfl⟩ := List.length_eq_one_iff.mp hone
    exact ⟨payload, (hinner.trans (hpart chunk hmem)).subset (List.mem_singleton_self _), calls,
      hfail⟩

/-- Messages made of what encodes, and packed one by one. -/
theorem halvesLosslessly_of_packs (h : KeepsBatches array encode decode) {M μ : Type}
    {maxBytes : ℤ} (message : Bytes → M) {pack : ℕ → M → Except Thrown μ}
    (hpaper : ∀ calls m e, pack calls m = .error e → ∃ text, e = .typeError text)
    {make : ℕ → List Bytes → Except Thrown μ}
    (hpacks : ∀ calls part content, encode (array part) = .ok content →
      make calls part = pack calls (message content))
    (hfails : ∀ calls part e, encode (array part) = .error e →
      make calls part = .error (.error e))
    {carries : List Bytes → μ → Prop}
    (hcarries : ∀ part content calls packed, part ≠ [] → decode content = .ok (array part) →
      pack calls (message content) = .ok packed → carries part packed) :
    HalvesLosslessly (fun ps => fillChunks (fun ps => encode (array ps)) maxBytes ps [] [])
      (fun ps fuel =>
        match fillChunks (fun ps => encode (array ps)) maxBytes ps [] [] with
        | .error e => some (.error (.error e))
        | .ok chunks => buildAll make fuel chunks 0 []) make carries := by
  refine halvesLosslessly_of_keeps h ?_ ?_
  · rintro part packed hne ⟨calls, hpacked⟩
    cases hencode : encode (array part) with
    | error e =>
      rw [hfails calls part e hencode] at hpacked
      cases hpacked
    | ok content =>
      rw [hpacks calls part content hencode] at hpacked
      exact hcarries part content calls packed hne (h.decode_eq_ok hencode) hpacked
  · intro calls part text hfail
    cases hencode : encode (array part) with
    | error e => exact ⟨e, rfl⟩
    | ok content =>
      -- packing fails with a `TypeError` only
      rw [hpacks calls part content hencode] at hfail
      obtain ⟨text', htext⟩ := hpaper _ _ _ hfail
      cases htext

end Ports

/-! ## JavaScript -/

section Js

variable {p : Platform} {encode : JsValue → Except String Bytes}

/-- A message that carries these payloads. -/
def OutboundMessage.Carries (p : Platform) (payloads : List Bytes) (message : OutboundMessage) :
    Prop :=
  message.title = lxmfDeliveryTitle ∧ payloads = [message.content] ∨
    message.title = lxmfBatchTitle ∧ decodeBatch p message.content = .ok payloads

theorem carries_of_makeBatchMessage (h : JsKeepsBatches encode p.msgPackDecode)
    {chunk : List Bytes} (hne : chunk ≠ []) {destinationHash sourceHash : Bytes}
    {message : OutboundMessage}
    (hmake : makeBatchMessage encode chunk destinationHash sourceHash = .ok message) :
    message.title = lxmfBatchTitle ∧ decodeBatch p message.content = .ok chunk := by
  obtain ⟨content, hencode, rfl⟩ := map_eq_ok.mp hmake
  exact ⟨rfl, decodeBatch_of_array hne (h.decode_eq_ok hencode)⟩

/-- The router took the message; there is no other answer. -/
def LxmRouter.Took (router : LxmRouter) (direct : Bool) (proprietor : Option Bytes) (n : ℕ)
    (message : OutboundMessage) (ok : Bool) : Prop :=
  ok = true ∧ ∃ route, router.route direct proprietor = .ok route ∧ route n message = .ok ()

theorem reports_of_runLxmfPublish (h : JsKeepsBatches encode p.msgPackDecode)
    {router : LxmRouter} {payloads : List Bytes} {targetHash identityHash : Bytes}
    {proprietor : Option Bytes} {direct : Bool} {chunkBudget : ℤ} {accepted : List Bool}
    {messages : ℕ}
    (hrun : runLxmfPublish encode router payloads targetHash proprietor identityHash direct
      chunkBudget = .ok (accepted, messages)) :
    Reports (OutboundMessage.Carries p) (router.Took direct proprietor) 0 payloads accepted
      messages := by
  unfold runLxmfPublish at hrun
  cases hroute : router.route direct proprietor with
  | error e =>
    rw [hroute] at hrun
    cases hrun
  | ok route =>
    rw [hroute] at hrun
    dsimp only at hrun
    have hanswers : ∀ n message ok, (route n message).map (fun _ => true) = .ok ok →
        router.Took direct proprietor n message ok := by
      intro n message ok hok
      obtain ⟨_, htook, rfl⟩ := map_eq_ok.mp hok
      exact ⟨rfl, route, hroute, htook⟩
    split at hrun
    · exact reports_of_single (.inl ⟨rfl, rfl⟩) (hanswers 0 _) hrun
    · cases hchunks : packChunks encode payloads chunkBudget with
      | error e =>
        rw [hchunks] at hrun
        cases hrun
      | ok chunks =>
        rw [hchunks] at hrun
        have hcut := (fillChunks_spec h hchunks).1
        have hcarries : ∀ chunk ∈ chunks, ∀ message,
            makeBatchMessage encode chunk targetHash identityHash = .ok message →
            message.Carries p chunk := fun chunk hmem message hmake =>
          .inr (carries_of_makeBatchMessage h (hcut.nonempty chunk hmem) hmake)
        obtain ⟨flags, rfl, hflags⟩ :=
          reports_of_submitAll hanswers hcut.nonempty hcarries hrun
        rwa [hcut.flatten] at hflags

/-- A publication whose messages the router takes returns its flags. -/
theorem runLxmfPublish_ok (h : JsKeepsBatches encode p.msgPackDecode) {router : LxmRouter}
    {payloads : List Bytes} {targetHash identityHash : Bytes} {proprietor : Option Bytes}
    {direct : Bool} {chunkBudget : ℤ} {route : ℕ → OutboundMessage → Except String Unit}
    (hroute : router.route direct proprietor = .ok route)
    (htakes : ∀ n message, route n message = .ok ()) (hfits : (batchValue payloads).Fits) :
    ∃ result, runLxmfPublish encode router payloads targetHash proprietor identityHash direct
      chunkBudget = .ok result := by
  unfold runLxmfPublish
  rw [hroute]
  dsimp only
  split
  · rw [htakes]
    exact ⟨_, rfl⟩
  · obtain ⟨chunks, hchunks⟩ : ∃ chunks, packChunks encode payloads chunkBudget = .ok chunks :=
      h.exists_fillChunks hfits
    rw [hchunks]
    refine submitAll_ok (fun n message => ⟨true, by rw [htakes]; rfl⟩) (fun chunk hmem => ?_) _ _
    have hchunk := h.writes chunk ((fillChunks_spec h hchunks).1.fits hfits hmem)
    exact ⟨_, by rw [makeBatchMessage, encodeBatch, hchunk]; rfl⟩

end Js

/-! ## Python -/

namespace Python

variable {packb : WireValue → Except String Bytes} {unpackb : Bytes → Except String WireValue}
  {δ : Type} {w : Sending δ}

/-- A message that carries these payloads. -/
def OutboundMessage.Carries (unpackb : Bytes → Except String WireValue) (payloads : List Bytes)
    (message : OutboundMessage δ) : Prop :=
  message.title = lxmfDeliveryTitle ∧ payloads = [message.content] ∨
    message.title = lxmfBatchTitle ∧ decodeBatch unpackb message.content = .ok payloads

theorem carries_of_makeBatchMessage (h : KeepsBatches packb unpackb) {chunk : List Bytes}
    (hne : chunk ≠ []) {destination : δ} {source : Option δ} {desiredMethod : DesiredMethod}
    {message : OutboundMessage δ}
    (hmake : makeBatchMessage packb chunk destination source desiredMethod = .ok message) :
    message.title = lxmfBatchTitle ∧ decodeBatch unpackb message.content = .ok chunk := by
  obtain ⟨content, hencode, rfl⟩ := map_eq_ok.mp hmake
  exact ⟨rfl, decodeBatch_of_array hne (h.decode_eq_ok hencode)⟩

/-- The message was handed to a router, and this is what became of it. -/
def Sending.Told (w : Sending δ) (n : ℕ) (message : OutboundMessage δ) (ok : Bool) : Prop :=
  (w.handleOutbound n message = .ok () ∨ w.deliver n message = .ok ()) ∧
    ok = w.waitSend n message

theorem Sending.settle_eq_ok {handed : Except String Unit} {n : ℕ} {message : OutboundMessage δ}
    {ok : Bool} (h : w.settle handed n message = .ok ok) :
    handed = .ok () ∧ ok = w.waitSend n message := by
  cases handed with
  | error e => cases h
  | ok _ =>
    obtain ⟨_, -, rfl⟩ := map_eq_ok.mp h
    exact ⟨rfl, rfl⟩

theorem reports_of_runLxmfPublish (h : KeepsBatches packb unpackb) {payloads : List Bytes}
    {targetHash : Bytes} {proprietor : Option Bytes} {direct : Bool} {chunkBudget : ℤ}
    {accepted : List Bool} {messages : ℕ}
    (hrun : runLxmfPublish w packb payloads targetHash proprietor direct chunkBudget =
      .ok (accepted, messages)) :
    Reports (OutboundMessage.Carries unpackb) w.Told 0 payloads accepted messages := by
  unfold runLxmfPublish at hrun
  cases hmethod : w.method direct proprietor with
  | error e =>
    rw [hmethod] at hrun
    cases hrun
  | ok desiredMethod =>
    rw [hmethod] at hrun
    dsimp only at hrun
    cases hdestination : w.lxmfOutDestination targetHash with
    | error e =>
      rw [hdestination] at hrun
      cases hrun
    | ok destination =>
      rw [hdestination] at hrun
      dsimp only at hrun
      split at hrun
      · rename_i payload
        have hcarries : (makeMessage payload destination w.source desiredMethod).Carries unpackb
            [payload] := .inl ⟨rfl, rfl⟩
        refine reports_of_single hcarries (fun ok hok => ?_) hrun
        exact (Sending.settle_eq_ok hok).imp .inl id
      · cases hchunks : packChunks packb payloads chunkBudget with
        | error e =>
          rw [hchunks] at hrun
          cases hrun
        | ok chunks =>
          rw [hchunks] at hrun
          have hcut := (fillChunks_spec h hchunks).1
          have hanswers : ∀ n message ok, w.settle (w.deliver n message) n message = .ok ok →
              w.Told n message ok := fun n message ok hok =>
            (Sending.settle_eq_ok hok).imp .inr id
          have hcarries : ∀ chunk ∈ chunks, ∀ message,
              makeBatchMessage packb chunk destination w.source desiredMethod = .ok message →
              message.Carries unpackb chunk := fun chunk hmem message hmake =>
            .inr (carries_of_makeBatchMessage h (hcut.nonempty chunk hmem) hmake)
          obtain ⟨flags, rfl, hflags⟩ :=
            reports_of_submitAll hanswers hcut.nonempty hcarries hrun
          rwa [hcut.flatten] at hflags

/-- Nothing raises on the way of a message: one payload goes to the router, and a batch to the
router that the delivery is bound to. -/
structure Sending.Quiet (w : Sending δ) (payloads : List Bytes) : Prop where
  handleOutbound : payloads.length = 1 → ∀ n message, w.handleOutbound n message = .ok ()
  deliver : payloads.length ≠ 1 → ∀ n message, w.deliver n message = .ok ()
  onSend : ∀ n message ok, w.onSend n message ok = .ok ()

theorem Sending.Quiet.settle {payloads : List Bytes} (hw : w.Quiet payloads) (n : ℕ)
    (message : OutboundMessage δ) :
    w.settle (.ok ()) n message = .ok (w.waitSend n message) := by
  rw [Sending.settle, hw.onSend]
  rfl

/-- A publication on whose way nothing raises returns its flags. -/
theorem runLxmfPublish_ok (h : KeepsBatches packb unpackb) {payloads : List Bytes}
    (hw : w.Quiet payloads) {targetHash : Bytes} {proprietor : Option Bytes} {direct : Bool}
    {chunkBudget : ℤ} {desiredMethod : DesiredMethod}
    (hmethod : w.method direct proprietor = .ok desiredMethod) {destination : δ}
    (hdestination : w.lxmfOutDestination targetHash = .ok destination)
    (hfits : (batchValue payloads).Fits) :
    ∃ result, runLxmfPublish w packb payloads targetHash proprietor direct chunkBudget =
      .ok result := by
  unfold runLxmfPublish
  rw [hmethod]
  dsimp only
  rw [hdestination]
  dsimp only
  split
  · rw [hw.handleOutbound rfl, hw.settle]
    exact ⟨_, rfl⟩
  · rename_i hone
    have hlen : payloads.length ≠ 1 := by
      rw [Ne, List.length_eq_one_iff]
      rintro ⟨payload, rfl⟩
      exact hone payload rfl
    obtain ⟨chunks, hchunks⟩ : ∃ chunks, packChunks packb payloads chunkBudget = .ok chunks :=
      h.exists_fillChunks hfits
    rw [hchunks]
    refine submitAll_ok (fun n message => ⟨w.waitSend n message, ?_⟩) (fun chunk hmem => ?_) _ _
    · rw [hw.deliver hlen]
      exact hw.settle n message
    · have hchunk := h.writes chunk ((fillChunks_spec h hchunks).1.fits hfits hmem)
      exact ⟨_, by rw [makeBatchMessage, encodeBatch, hchunk]; rfl⟩

/-- A delivery without a router fails on a batch, after everything is prepared. -/
theorem runLxmfPublish_of_unbound (h : KeepsBatches packb unpackb) (hw : w.deliveryRouter = none)
    {payloads : List Bytes} (htwo : 2 ≤ payloads.length) {targetHash : Bytes}
    {proprietor : Option Bytes} {direct : Bool} {chunkBudget : ℤ} :
    ∃ e, runLxmfPublish w packb payloads targetHash proprietor direct chunkBudget = .error e := by
  match payloads with
  | [] | [_] => simp at htwo
  | payload :: payload' :: payloads =>
  unfold runLxmfPublish
  cases w.method direct proprietor with
  | error e => exact ⟨e, rfl⟩
  | ok desiredMethod =>
    dsimp only
    cases w.lxmfOutDestination targetHash with
    | error e => exact ⟨e, rfl⟩
    | ok destination =>
      dsimp only
      cases hchunks : packChunks packb (payload :: payload' :: payloads) chunkBudget with
      | error e => exact ⟨e, rfl⟩
      | ok chunks =>
        have hflat := (fillChunks_spec h hchunks).1.flatten
        refine submitAll_error (fun n message => ?_) (fun hnil => ?_) _ _
        · rw [Sending.deliver, hw]
          exact ⟨_, rfl⟩
        · rw [hnil] at hflat
          cases hflat

end Python

/-! ## Every way out -/

/-- The URI of a paper message that carries these payloads. -/
def UriCarries (p : Platform) (toPaperUri : ℕ → OutboundMessage → Except Thrown String)
    (payloads : List Bytes) (uri : String) : Prop :=
  ∃ calls message, toPaperUri calls message = .ok uri ∧ message.title = lxmfBatchTitle ∧
    decodeBatch p message.content = .ok payloads

def Python.PackedCarries {δ μ : Type} (unpackb : Bytes → Except String WireValue)
    (pack : ℕ → Python.OutboundMessage δ → Except Thrown μ) (payloads : List Bytes) (packed : μ) :
    Prop :=
  ∃ calls message, pack calls message = .ok packed ∧ message.title = lxmfBatchTitle ∧
    Python.decodeBatch unpackb message.content = .ok payloads

theorem packPaperUris_halves {p : Platform} {encode : JsValue → Except String Bytes}
    (h : JsKeepsBatches encode p.msgPackDecode)
    {toPaperUri : ℕ → OutboundMessage → Except Thrown String}
    (hpaper : ∀ calls message e, toPaperUri calls message = .error e → ∃ text, e = .typeError text)
    (paperMdu : ℤ) (destinationHash identityHash : Bytes) :
    HalvesLosslessly (packChunks encode · (paperContentBudget paperMdu))
      (packPaperUris encode toPaperUri paperMdu destinationHash identityHash)
      (makeBatchPaperUri encode toPaperUri destinationHash identityHash)
      (UriCarries p toPaperUri) := by
  refine halvesLosslessly_of_packs h
    (fun content => ⟨destinationHash, identityHash, content, lxmfBatchTitle⟩) hpaper
    (fun calls part content hcontent => ?_) (fun calls part e he => ?_)
    fun part content calls uri hne hdecode huri =>
      ⟨calls, _, huri, rfl, decodeBatch_of_array hne hdecode⟩
  · rw [makeBatchPaperUri, makeBatchMessage, encodeBatch, hcontent]
    rfl
  · rw [makeBatchPaperUri, makeBatchMessage, encodeBatch, he]
    rfl

theorem Python.packPaperMessages_halves {packb : WireValue → Except String Bytes}
    {unpackb : Bytes → Except String WireValue} (h : KeepsBatches packb unpackb) {δ μ : Type}
    {pack : ℕ → OutboundMessage δ → Except Thrown μ}
    (hpaper : ∀ calls message e, pack calls message = .error e → ∃ text, e = .typeError text)
    (paperMdu : ℤ) (destination : δ) (source : Option δ) :
    HalvesLosslessly (packChunks packb · (paperContentBudget paperMdu))
      (packPaperMessages packb pack paperMdu destination source)
      (makePaperBatchMessage packb pack destination source) (PackedCarries unpackb pack) := by
  refine halvesLosslessly_of_packs h
    (fun content => ⟨destination, source, content, lxmfBatchTitle, .paper⟩) hpaper
    (fun calls part content hcontent => ?_) (fun calls part e he => ?_)
    fun part content calls packed hne hdecode hpacked =>
      ⟨calls, _, hpacked, rfl, decodeBatch_of_array hne hdecode⟩
  · rw [makePaperBatchMessage, makeBatchMessage, encodeBatch, hcontent]
    rfl
  · rw [makePaperBatchMessage, makeBatchMessage, encodeBatch, he]
    rfl

/-- Chunks, paper messages and publications hold every payload once and in order, in both
ports, and there are no fewer chunks to be had.  A publication on whose way nothing raises has
a flag for every payload. -/
theorem lossless_chunking {p : Platform} {encode : JsValue → Except String Bytes}
    (hjs : JsKeepsBatches encode p.msgPackDecode) {packb : WireValue → Except String Bytes}
    {unpackb : Bytes → Except String WireValue} (hpython : Python.KeepsBatches packb unpackb)
    {toPaperUri : ℕ → OutboundMessage → Except Thrown String}
    (huri : ∀ calls message e, toPaperUri calls message = .error e → ∃ text, e = .typeError text)
    {δ μ : Type} {pack : ℕ → Python.OutboundMessage δ → Except Thrown μ}
    (hpack : ∀ calls message e, pack calls message = .error e → ∃ text, e = .typeError text) :
    (PacksLosslessly (encodeBatch encode) (packChunks encode)
        (fun content chunk => decodeBatch p content = .ok chunk) ∧
      PacksLosslessly (Python.encodeBatch packb) (Python.packChunks packb)
        (fun content chunk => Python.decodeBatch unpackb content = .ok chunk)) ∧
    ((∀ paperMdu destinationHash identityHash,
        HalvesLosslessly (packChunks encode · (paperContentBudget paperMdu))
          (packPaperUris encode toPaperUri paperMdu destinationHash identityHash)
          (makeBatchPaperUri encode toPaperUri destinationHash identityHash)
          (UriCarries p toPaperUri)) ∧
      ∀ paperMdu destination source,
        HalvesLosslessly (Python.packChunks packb · (paperContentBudget paperMdu))
          (Python.packPaperMessages packb pack paperMdu destination source)
          (Python.makePaperBatchMessage packb pack destination source)
          (Python.PackedCarries unpackb pack)) ∧
    (∀ (router : LxmRouter) payloads targetHash proprietor identityHash direct chunkBudget,
      (∀ route, router.route direct proprietor = .ok route →
        (∀ n message, route n message = .ok ()) → (batchValue payloads).Fits →
          ∃ result, runLxmfPublish encode router payloads targetHash proprietor identityHash
            direct chunkBudget = .ok result) ∧
      ∀ accepted messages,
        runLxmfPublish encode router payloads targetHash proprietor identityHash direct
            chunkBudget = .ok (accepted, messages) →
          accepted.length = payloads.length ∧
            Reports (OutboundMessage.Carries p) (router.Took direct proprietor) 0 payloads
              accepted messages) ∧
    ∀ (w : Python.Sending δ) payloads targetHash proprietor direct chunkBudget,
      (w.Quiet payloads → ∀ desiredMethod, w.method direct proprietor = .ok desiredMethod →
        ∀ destination, w.lxmfOutDestination targetHash = .ok destination →
          (batchValue payloads).Fits →
            ∃ result, Python.runLxmfPublish w packb payloads targetHash proprietor direct
              chunkBudget = .ok result) ∧
      (w.deliveryRouter = none → 2 ≤ payloads.length →
        ∃ e, Python.runLxmfPublish w packb payloads targetHash proprietor direct chunkBudget =
          .error e) ∧
      ∀ accepted messages,
        Python.runLxmfPublish w packb payloads targetHash proprietor direct chunkBudget =
            .ok (accepted, messages) →
          accepted.length = payloads.length ∧
            Reports (Python.OutboundMessage.Carries unpackb) w.Told 0 payloads accepted
              messages := by
  refine ⟨⟨?_, ?_⟩, ⟨?_, ?_⟩, ?_, ?_⟩
  · exact packsLosslessly_of_keeps hjs fun _ _ hne hdecode => decodeBatch_of_array hne hdecode
  · exact packsLosslessly_of_keeps hpython fun _ _ hne hdecode =>
      Python.decodeBatch_of_array hne hdecode
  · exact packPaperUris_halves hjs huri
  · exact Python.packPaperMessages_halves hpython hpack
  · intro _ _ _ _ _ _ _
    refine ⟨fun _ hroute htakes hfits => runLxmfPublish_ok hjs hroute htakes hfits,
      fun _ _ hrun => ?_⟩
    have hreports := reports_of_runLxmfPublish hjs hrun
    exact ⟨hreports.length_eq, hreports⟩
  · intro _ _ _ _ _ _
    refine ⟨fun hw _ hmethod _ hdestination hfits =>
      Python.runLxmfPublish_ok hpython hw hmethod hdestination hfits,
      fun hw htwo => Python.runLxmfPublish_of_unbound hpython hw htwo, fun _ _ hrun => ?_⟩
    have hreports := Python.reports_of_runLxmfPublish hpython hrun
    exact ⟨hreports.length_eq, hreports⟩

/-! ## Three payloads -/

def JsValue.pack (v : JsValue) : Except String Bytes :=
  if v.toFormat.Fits then .ok (MessagePack.encode v.toFormat) else .error "too large"

def WireValue.pack (v : WireValue) : Except String Bytes :=
  if v.toFormat.Fits then .ok (MessagePack.encode v.toFormat) else .error "too large"

def formatPlatform : Platform where
  msgPackDecode := MsgPackLibraries.ofFormat.decode
  ed25519 := oneGrantPlatform.ed25519
  textDecoder := oneGrantPlatform.textDecoder

theorem JsValue.pack_keeps : JsKeepsBatches JsValue.pack MsgPackLibraries.ofFormat.decode := by
  have hformat : ∀ payloads : List Bytes,
      (JsValue.array (payloads.map .bytes)).toFormat = batchValue payloads := fun payloads =>
    JsValue.toFormat_of_stands (.array (forall₂_map_stands JsValue.Stands.bytes payloads))
  have hback : ∀ payloads : List Bytes,
      JsValue.allOfFormat (payloads.map .bin) = payloads.map .bytes := fun payloads => by
    induction payloads with
    | nil => rfl
    | cons payload payloads ih => exact congrArg (JsValue.bytes payload :: ·) ih
  refine ⟨fun payloads hfits => ?_, fun payloads hfits => ⟨"too large", ?_⟩,
    fun payloads b hread => ?_⟩
  · rw [JsValue.pack, hformat, if_pos hfits]
  · rw [JsValue.pack, hformat, if_neg hfits]
  · simp [MsgPackLibraries.ofFormat, hread, batchValue, JsValue.ofFormat, hback]

theorem WireValue.pack_keeps :
    Python.KeepsBatches WireValue.pack MsgPackLibraries.ofFormat.unpackb := by
  have hformat : ∀ payloads : List Bytes,
      (WireValue.array (payloads.map .bin)).toFormat = batchValue payloads := fun payloads =>
    WireValue.toFormat_of_stands (.array (forall₂_map_stands WireValue.Stands.bin payloads))
  have hback : ∀ payloads : List Bytes,
      WireValue.allOfFormat (payloads.map .bin) = payloads.map .bin := fun payloads => by
    induction payloads with
    | nil => rfl
    | cons payload payloads ih => exact congrArg (WireValue.bin payload :: ·) ih
  refine ⟨fun payloads hfits => ?_, fun payloads hfits => ⟨"too large", ?_⟩,
    fun payloads b hread => ?_⟩
  · rw [WireValue.pack, hformat, if_pos hfits]
  · rw [WireValue.pack, hformat, if_neg hfits]
  · simp [MsgPackLibraries.ofFormat, hread, batchValue, WireValue.ofFormat, hback]

/-- A message of at most so many bytes goes on paper. -/
def packSmall {M : Type} (content : M → Bytes) (size : ℕ) (_calls : ℕ) (message : M) :
    Except Thrown String :=
  if (content message).length ≤ size then .ok "lxm://"
  else .error (.typeError "message exceeds the paper MDU")

theorem packSmall_error {M : Type} (content : M → Bytes) (size calls : ℕ) (message : M)
    (e : Thrown) (h : packSmall content size calls message = .error e) :
    ∃ text, e = .typeError text := by
  unfold packSmall at h
  split_ifs at h
  exact ⟨_, (Except.error.inj h).symm⟩

theorem lossless_chunking_three :
    packChunks JsValue.pack [[1], [2], [3]] 8 = .ok [[[1], [2]], [[3]]] ∧
      ∀ others, IsChunking (encodeBatch JsValue.pack) 8 [[1], [2], [3]] others →
        2 ≤ others.length := by
  have hpack : packChunks JsValue.pack [[1], [2], [3]] 8 = .ok [[[1], [2]], [[3]]] := rfl
  obtain ⟨⟨hjs, -⟩, -⟩ := lossless_chunking (p := formatPlatform) JsValue.pack_keeps
    WireValue.pack_keeps (packSmall_error OutboundMessage.content 16)
    (packSmall_error (Python.OutboundMessage.content : Python.OutboundMessage Bytes → Bytes) 16)
  exact ⟨hpack, (hjs.chunks _ _ _ hpack).2⟩

end Dacar

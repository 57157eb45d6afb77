import Dacar.BatchDelta
import Dacar.GreedyChunks
import Dacar.Snapshot

/-!
# Batches of Deltas

Payloads travel together as one MessagePack array of binaries, as many in a message as its
budget of bytes allows.
-/

namespace Dacar

open MessagePack (Value)

/-! ## The envelope -/

def encodeBatch (encode : JsValue → Except String Bytes) (payloads : List Bytes) :
    Except String Bytes :=
  encode (.array (payloads.map .bytes))

namespace Python

def encodeBatch (packb : WireValue → Except String Bytes) (payloads : List Bytes) :
    Except String Bytes :=
  packb (.array (payloads.map .bin))

def decodeBatch (unpackb : Bytes → Except String WireValue) (content : Bytes) :
    Except ValueError (List Bytes) :=
  match unpackb content with
  | .error e => throw (.error s!"batch content is not msgpack: {e}")
  | .ok (.array (item :: items)) =>
    if (item :: items).all fun v => v.asBytes.isSome then
      pure ((item :: items).filterMap WireValue.asBytes)
    else throw (.error "batch elements must be binary payloads")
  | .ok _ => throw (.error "batch content must be a non-empty msgpack array")

end Python

/-! ## Packing -/

section PackChunks

variable (encodeBatch : List Bytes → Except String Bytes) (maxBytes : ℤ)

/-- The loop over the payloads: the chunks so far and the one that is being filled. -/
def fillChunks : List Bytes → List (List Bytes) → List Bytes → Except String (List (List Bytes))
  | [], chunks, current => .ok (if current.isEmpty then chunks else chunks ++ [current])
  | payload :: payloads, chunks, current =>
    let candidate := current ++ [payload]
    if current.isEmpty then fillChunks payloads chunks candidate
    else
      match encodeBatch candidate with
      | .error e => .error e
      | .ok encoded =>
        if maxBytes < encoded.length then fillChunks payloads (chunks ++ [current]) [payload]
        else fillChunks payloads chunks candidate

end PackChunks

def packChunks (encode : JsValue → Except String Bytes) (payloads : List Bytes) (maxBytes : ℤ) :
    Except String (List (List Bytes)) :=
  fillChunks (encodeBatch encode) maxBytes payloads [] []

def Python.packChunks (packb : WireValue → Except String Bytes) (payloads : List Bytes)
    (maxBytes : ℤ) : Except String (List (List Bytes)) :=
  fillChunks (encodeBatch packb) maxBytes payloads [] []

/-! ## What is asked of the libraries -/

/-- The format's value for a batch. -/
def batchValue (payloads : List Bytes) : Value := .array (payloads.map .bin)

/-- Arrays of binaries are written as the format has them, refused where it has no place for
them, and read back from what is written so. -/
structure KeepsBatches {V : Type} (array : List Bytes → V) (encode : V → Except String Bytes)
    (decode : Bytes → Except String V) : Prop where
  writes : ∀ payloads, (batchValue payloads).Fits →
    encode (array payloads) = .ok (MessagePack.encode (batchValue payloads))
  refuses : ∀ payloads, ¬ (batchValue payloads).Fits → ∃ e, encode (array payloads) = .error e
  reads : ∀ payloads b, MessagePack.decodeAll b = some (batchValue payloads) →
    decode b = .ok (array payloads)

/-- The libraries of the JavaScript port. -/
abbrev JsKeepsBatches (encode : JsValue → Except String Bytes) (decode : MsgPackDecode) : Prop :=
  KeepsBatches (fun payloads => JsValue.array (payloads.map .bytes)) encode decode

abbrev Python.KeepsBatches (packb : WireValue → Except String Bytes)
    (unpackb : Bytes → Except String WireValue) : Prop :=
  Dacar.KeepsBatches (fun payloads => WireValue.array (payloads.map .bin)) packb unpackb

section Sizes

variable {V : Type} {array : List Bytes → V} {encode : V → Except String Bytes}
  {decode : Bytes → Except String V}

/-- The encoded batch is within the budget. -/
def WithinBudget (encodeBatch : List Bytes → Except String Bytes) (maxBytes : ℤ)
    (chunk : List Bytes) : Prop :=
  ∃ encoded, encodeBatch chunk = .ok encoded ∧ (encoded.length : ℤ) ≤ maxBytes

namespace KeepsBatches

theorem encode_eq_ok (h : KeepsBatches array encode decode) {payloads : List Bytes} {b : Bytes}
    (hb : encode (array payloads) = .ok b) :
    (batchValue payloads).Fits ∧ b = MessagePack.encode (batchValue payloads) := by
  by_cases hfits : (batchValue payloads).Fits
  · rw [h.writes payloads hfits] at hb
    exact ⟨hfits, (Except.ok.inj hb).symm⟩
  · obtain ⟨e, he⟩ := h.refuses payloads hfits
    rw [he] at hb
    cases hb

theorem decode_eq_ok (h : KeepsBatches array encode decode) {payloads : List Bytes} {b : Bytes}
    (hb : encode (array payloads) = .ok b) : decode b = .ok (array payloads) := by
  obtain ⟨hfits, rfl⟩ := h.encode_eq_ok hb
  exact h.reads payloads _ (MessagePack.decodeAll_encode hfits)

/-- A part of a batch within the budget is within it. -/
theorem withinBudget_of_infix (h : KeepsBatches array encode decode) {maxBytes : ℤ}
    {part chunk : List Bytes} (hpart : part <:+: chunk)
    (hchunk : WithinBudget (fun ps => encode (array ps)) maxBytes chunk) :
    WithinBudget (fun ps => encode (array ps)) maxBytes part := by
  obtain ⟨b, hb, hle⟩ := hchunk
  obtain ⟨hfits, rfl⟩ := h.encode_eq_ok hb
  have hsub : (part.map Value.bin).Sublist (chunk.map Value.bin) := hpart.sublist.map _
  obtain ⟨hfits', hlen⟩ := MessagePack.array_of_sublist hsub hfits
  exact ⟨_, h.writes part hfits', (Int.ofNat_le.mpr hlen).trans hle⟩

end KeepsBatches

end Sizes

/-! ## What packing gives -/

/-- The payloads cut into batches, each within the budget if there is something to leave out. -/
structure IsChunking (encodeBatch : List Bytes → Except String Bytes) (maxBytes : ℤ)
    (payloads : List Bytes) (chunks : List (List Bytes)) : Prop where
  nonempty : ∀ chunk ∈ chunks, chunk ≠ []
  flatten : chunks.flatten = payloads
  within : ∀ chunk ∈ chunks, 2 ≤ chunk.length → WithinBudget encodeBatch maxBytes chunk

/-- A chunk is a part of the payloads, so it fits the format where they do. -/
theorem IsChunking.fits {encodeBatch : List Bytes → Except String Bytes} {maxBytes : ℤ}
    {payloads : List Bytes} {chunks : List (List Bytes)}
    (h : IsChunking encodeBatch maxBytes payloads chunks) (hfits : (batchValue payloads).Fits)
    {chunk : List Bytes} (hmem : chunk ∈ chunks) : (batchValue chunk).Fits := by
  have hpart := List.infix_of_mem_flatten hmem
  rw [h.flatten] at hpart
  exact (MessagePack.array_of_sublist (hpart.sublist.map Value.bin) hfits).1

section Greedy

variable {encodeBatch : List Bytes → Except String Bytes} {maxBytes : ℤ}

/-- A single payload goes alone, whatever its size. -/
def Goes (encodeBatch : List Bytes → Except String Bytes) (maxBytes : ℤ) (chunk : List Bytes) :
    Prop :=
  2 ≤ chunk.length → WithinBudget encodeBatch maxBytes chunk

open Classical in
/-- What the loop returns is the greedy cut. -/
theorem fillChunks_eq_ok {payloads current : List Bytes} {chunks result : List (List Bytes)}
    (hne : current ≠ [])
    (h : fillChunks encodeBatch maxBytes payloads chunks current = .ok result) :
    result = chunks ++ GreedyChunks.fill (Goes encodeBatch maxBytes) current payloads := by
  induction payloads generalizing chunks current with
  | nil =>
    rw [fillChunks, if_neg (by simpa using hne)] at h
    exact (Except.ok.inj h).symm
  | cons payload payloads ih =>
    have htwo : 2 ≤ (current ++ [payload]).length := by
      have := List.length_pos_of_ne_nil hne
      rw [List.length_append, List.length_singleton]
      omega
    rw [fillChunks, if_neg (by simpa using hne)] at h
    rw [GreedyChunks.fill]
    cases henc : encodeBatch (current ++ [payload]) with
    | error e =>
      rw [henc] at h
      cases h
    | ok encoded =>
      rw [henc] at h
      dsimp only at h
      have hgoes : Goes encodeBatch maxBytes (current ++ [payload]) ↔
          ¬ maxBytes < encoded.length := by
        rw [Goes, forall_prop_of_true htwo]
        simp [WithinBudget, henc]
      split_ifs at h with hover
      · rw [if_neg (fun hg => hgoes.mp hg hover), ih (List.cons_ne_nil _ _) h,
          List.append_assoc, List.singleton_append]
      · rw [if_pos (hgoes.mpr hover), ih (by simp) h]

open Classical in
theorem fillChunks_nil_eq_ok {payloads : List Bytes} {result : List (List Bytes)}
    (h : fillChunks encodeBatch maxBytes payloads [] [] = .ok result) :
    result = GreedyChunks.chunks (Goes encodeBatch maxBytes) payloads := by
  cases payloads with
  | nil => exact (Except.ok.inj h).symm
  | cons payload payloads =>
    rw [fillChunks, List.isEmpty_nil, if_pos rfl] at h
    exact fillChunks_eq_ok (List.cons_ne_nil _ _) h

/-- The loop throws on nothing but a batch that cannot be encoded. -/
theorem fillChunks_ok {payloads current : List Bytes} {chunks : List (List Bytes)}
    (h : ∀ part, part <:+: current ++ payloads → ∃ b, encodeBatch part = .ok b) :
    ∃ result, fillChunks encodeBatch maxBytes payloads chunks current = .ok result := by
  induction payloads generalizing chunks current with
  | nil => exact ⟨_, rfl⟩
  | cons payload payloads ih =>
    have hgrown : current ++ [payload] ++ payloads = current ++ payload :: payloads := by simp
    have hcandidate : ∀ part, part <:+: current ++ [payload] ++ payloads →
        ∃ b, encodeBatch part = .ok b := by
      rw [hgrown]
      exact h
    rw [fillChunks]
    split_ifs with hempty
    · exact ih hcandidate
    · obtain ⟨encoded, henc⟩ := hcandidate _ (List.prefix_append _ payloads).isInfix
      rw [henc]
      dsimp only
      split_ifs with hover
      · refine ih fun part hpart => h part (hpart.trans ?_)
        exact (List.suffix_append current (payload :: payloads)).isInfix
      · exact ih hcandidate

end Greedy

section PackChunksSpec

variable {V : Type} {array : List Bytes → V} {encode : V → Except String Bytes}
  {decode : Bytes → Except String V} {maxBytes : ℤ} {payloads : List Bytes}

open Classical in
/-- Nothing is lost and nothing reordered, and there are no more batches than must be. -/
theorem fillChunks_spec (h : KeepsBatches array encode decode) {result : List (List Bytes)}
    (hresult : fillChunks (fun ps => encode (array ps)) maxBytes payloads [] [] = .ok result) :
    IsChunking (fun ps => encode (array ps)) maxBytes payloads result ∧
      ∀ others, IsChunking (fun ps => encode (array ps)) maxBytes payloads others →
        result.length ≤ others.length := by
  have halone : ∀ payload, Goes (fun ps => encode (array ps)) maxBytes [payload] :=
    fun payload htwo => absurd htwo (by simp)
  obtain rfl := fillChunks_nil_eq_ok hresult
  refine ⟨⟨?_, GreedyChunks.chunks_flatten payloads, ?_⟩, fun others hothers => ?_⟩
  · exact GreedyChunks.forall_chunks (fun _ => List.cons_ne_nil _ _) (fun _ _ _ _ => by simp) _
  · exact GreedyChunks.forall_chunks halone (fun _ _ _ hfits => hfits) _
  · have hparts : ∀ {b c : List Bytes}, b <:+: c →
        Goes (fun ps => encode (array ps)) maxBytes c →
        Goes (fun ps => encode (array ps)) maxBytes b := fun hbc hc htwo =>
      h.withinBudget_of_infix hbc (hc (htwo.trans hbc.length_le))
    rw [← hothers.flatten]
    exact GreedyChunks.length_chunks_le hparts hothers.nonempty hothers.within

theorem KeepsBatches.exists_fillChunks (h : KeepsBatches array encode decode)
    (hfits : (batchValue payloads).Fits) :
    ∃ result, fillChunks (fun ps => encode (array ps)) maxBytes payloads [] [] = .ok result := by
  refine fillChunks_ok fun part hpart => ⟨_, h.writes part ?_⟩
  rw [List.nil_append] at hpart
  exact (MessagePack.array_of_sublist (hpart.sublist.map Value.bin) hfits).1

end PackChunksSpec

/-! ## The round trip -/

theorem decodeBatch_of_array {p : Platform} {content : Bytes} {payloads : List Bytes}
    (hne : payloads ≠ []) (h : p.msgPackDecode content = .ok (.array (payloads.map .bytes))) :
    decodeBatch p content = .ok payloads := by
  obtain ⟨payload, payloads, rfl⟩ := List.exists_cons_of_ne_nil hne
  have hall : payloads.filterMap (JsValue.asBytes ∘ JsValue.bytes) = payloads := by
    rw [show JsValue.asBytes ∘ JsValue.bytes = some from rfl, List.filterMap_some]
  simp [decodeBatch, h, JsValue.asBytes, List.filterMap_map, hall, pure, Except.pure]

theorem Python.decodeBatch_of_array {unpackb : Bytes → Except String WireValue} {content : Bytes}
    {payloads : List Bytes} (hne : payloads ≠ [])
    (h : unpackb content = .ok (.array (payloads.map .bin))) :
    decodeBatch unpackb content = .ok payloads := by
  obtain ⟨payload, payloads, rfl⟩ := List.exists_cons_of_ne_nil hne
  have hall : payloads.filterMap (WireValue.asBytes ∘ WireValue.bin) = payloads := by
    rw [show WireValue.asBytes ∘ WireValue.bin = some from rfl, List.filterMap_some]
  simp [decodeBatch, h, WireValue.asBytes, List.filterMap_map, hall, pure, Except.pure]

end Dacar

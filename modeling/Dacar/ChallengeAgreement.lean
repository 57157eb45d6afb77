import Dacar.Authorize
import Dacar.ChallengeRefinement
import Dacar.Cpp.Engine
import Dacar.Cpp.StateVector

/-!
# One challenge, three decoders

All three decoders accept exactly the wire forms of challenges that name one grantee.  C++
reads the object segment hashes without looking at their length, so that its challenges have
wire forms the other two reject.
-/

namespace Dacar

open Fallible

namespace Cpp

/-- The segments are byte strings of any length. -/
structure ChallengeEntry where
  saltIdTag : Hash
  granteeHash : Hash
  allowRelationHash : Hash
  denyRelationHash : Hash
  objectHashes : List Bytes

structure DecodedChallenge where
  nonce : Nonce
  grantee : Hash
  entries : List ChallengeEntry

/-- `deserialize` into a `bin_t`, then `expectBlob`. -/
def expectBlob (length : ℕ) (name : String) (v : WireValue) : Except String (Blob length) := do
  let b ← binOf s!"{name} must be a {length}-byte binary blob" v
  if h : b.length = length then pure ⟨b, h⟩
  else throw s!"{name} must be a {length}-byte binary blob"

/-- One turn of the loop of `decode_challenge_payload`. -/
def ChallengeEntry.fromValue : WireValue → Except String ChallengeEntry
  | .array [saltIdTag, granteeHash, allowRh, denyRh, objectHashes] => do
    let saltIdTag ← expectBlob 16 "salt_id_tag" saltIdTag
    let granteeHash ← expectBlob 16 "grantee_hash" granteeHash
    let allowRh ← expectBlob 16 "allow_relation_hash" allowRh
    let denyRh ← expectBlob 16 "deny_relation_hash" denyRh
    match objectHashes with
    | .array hs => do
      -- no `expectBlob` here
      let objectHashes ← hs.mapM (binOf "object segment hash must be a 16-byte binary blob")
      pure ⟨saltIdTag, granteeHash, allowRh, denyRh, objectHashes⟩
    | _ => throw "object_segment_hashes must be an array"
  | _ => throw "each challenge entry must be a 5-element array"

/-- `decode_challenge_payload`, past the feed. -/
def DecodedChallenge.fromValue (v : WireValue) : Except String DecodedChallenge :=
  (readChallenge id (expectBlob 32 "nonce") ChallengeEntry.fromValue
    ChallengeEntry.granteeHash v).map fun d => ⟨d.1, d.2.1, d.2.2⟩

/-! ## Wire forms -/

def ChallengeEntry.toWire (e : ChallengeEntry) : WireValue :=
  .array [.bin e.saltIdTag.val, .bin e.granteeHash.val, .bin e.allowRelationHash.val,
    .bin e.denyRelationHash.val, .array (e.objectHashes.map .bin)]

namespace DecodedChallenge

def toWire (d : DecodedChallenge) : WireValue :=
  .array [.bin d.nonce.val, .array (d.entries.map ChallengeEntry.toWire)]

/-- At least one entry, and all on the one grantee. -/
def Shared (d : DecodedChallenge) : Prop :=
  d.entries ≠ [] ∧ ∀ e ∈ d.entries, e.granteeHash = d.grantee

/-- Every object segment hash is one. -/
def Hashed (d : DecodedChallenge) : Prop :=
  ∀ e ∈ d.entries, ∀ h ∈ e.objectHashes, h.length = 16

end DecodedChallenge

end Cpp

def DecodedEntry.toCpp (e : DecodedEntry) : Cpp.ChallengeEntry where
  saltIdTag := e.saltIdTag
  granteeHash := e.granteeHash
  allowRelationHash := e.allowRelationHash
  denyRelationHash := e.denyRelationHash
  objectHashes := e.objectHashes.map Subtype.val

def DecodedChallenge.toCpp (d : DecodedChallenge) : Cpp.DecodedChallenge where
  nonce := d.nonce
  grantee := d.grantee
  entries := d.entries.map DecodedEntry.toCpp

theorem DecodedChallenge.toWire_toCpp (d : DecodedChallenge) : d.toCpp.toWire = d.toWire := by
  rw [Cpp.DecodedChallenge.toWire, toCpp, List.map_map]
  rfl

theorem DecodedChallenge.shared_toCpp (d : DecodedChallenge) : d.toCpp.Shared ↔ d.Shared := by
  rw [Cpp.DecodedChallenge.Shared, toCpp, List.forall_mem_map, Ne, List.map_eq_nil_iff]
  rfl

/-- A challenge that is complete but for an object segment hash of another length. -/
def Malsegmented (v : WireValue) : Prop :=
  ∃ d : Cpp.DecodedChallenge, d.Shared ∧ ¬ d.Hashed ∧ v = d.toWire

/-! ## What each decoder accepts -/

theorem toOption_cppExpectBlob (n : ℕ) (name : String) (v : WireValue) :
    (Cpp.expectBlob n name v).toOption = blobOf n v := by
  cases v with
  | bin b =>
    change (if h : b.length = n then pure ⟨b, h⟩ else throw _ : Except String (Blob n)).toOption = _
    rw [blobOf]
    split_ifs <;> rfl
  | _ => rfl

theorem mapM_binOf {message : String} {vs : List WireValue} {bs : List Bytes} :
    (vs.mapM (Cpp.binOf message)).toOption = some bs ↔ vs = bs.map .bin := by
  rw [toOption_mapM]
  exact mapM_eq_some_iff (fun _ _ => binOf_eq_some) vs bs

theorem cppEntry_eq_some {v : WireValue} {e : Cpp.ChallengeEntry} :
    (Cpp.ChallengeEntry.fromValue v).toOption = some e ↔ v = e.toWire := by
  constructor
  · intro h
    rw [Cpp.ChallengeEntry.fromValue.eq_def] at h
    split at h
    · simp only [toOption_bind, toOption_cppExpectBlob, Option.bind_eq_some_iff,
        blobOf_eq_some] at h
      obtain ⟨tag, rfl, gh, rfl, allow, rfl, deny, rfl, h⟩ := h
      split at h
      · rw [toOption_bind, Option.bind_eq_some_iff] at h
        obtain ⟨segments, hsegments, h⟩ := h
        obtain rfl := mapM_binOf.mp hsegments
        obtain rfl := Option.some.inj h
        rfl
      · cases h
    · cases h
  · rintro rfl
    rw [Cpp.ChallengeEntry.toWire, Cpp.ChallengeEntry.fromValue]
    simp only [toOption_bind, toOption_cppExpectBlob, blobOf_eq_some.mpr rfl, Option.bind_some,
      mapM_binOf.mpr rfl]
    rfl

theorem jsEntry_shape {grantee : Option Hash} {v : WireValue} {e : DecodedEntry}
    (h : (DecodedEntry.fromValue grantee v.toJs).toOption = some e) :
    ∃ tag gh allow deny hs, v = .array [tag, gh, allow, deny, .array hs] := by
  cases v with
  | array vs =>
    rcases vs with _ | ⟨a, _ | ⟨b, _ | ⟨c, _ | ⟨d, _ | ⟨o, _ | ⟨x, vs⟩⟩⟩⟩⟩⟩
    all_goals try cases h
    cases o with
    | array hs => exact ⟨a, b, c, d, hs, rfl⟩
    | int n wide => cases wide <;> cases h
    | _ => cases h
  | int n wide => cases wide <;> cases h
  | _ => cases h

theorem toJs_toWire (e : DecodedEntry) : e.toWire.toJs = e.toValue := by
  simp [DecodedEntry.toWire, DecodedEntry.toValue, WireValue.toJs, WireValue.toJsAll]

/-- JavaScript compares the grantee before it reads the other hashes. -/
theorem jsEntry_eq_some {grantee : Option Hash} {v : WireValue} {e : DecodedEntry} :
    (DecodedEntry.fromValue grantee v.toJs).toOption = some e ↔
      v = e.toWire ∧ ∀ g ∈ grantee, g = e.granteeHash := by
  constructor
  · intro h
    obtain ⟨tag, gh, allow, deny, hs, rfl⟩ := jsEntry_shape h
    simp only [WireValue.toJs, WireValue.toJsAll, WireValue.toJsAll_eq_map] at h
    rw [DecodedEntry.fromValue] at h
    simp only [pure_bind, toOption_bind, toOption_expectBytes, Option.bind_eq_some_iff,
      blobOf_eq_some] at h
    obtain ⟨gh, rfl, h⟩ := h
    split_ifs at h with hg
    · cases h
    · simp only [toOption_bind, toOption_expectBytes, mapM_expectBytes_toJs,
        Option.bind_eq_some_iff, blobOf_eq_some, mapM_blobOf] at h
      obtain ⟨tag, rfl, allow, rfl, deny, rfl, segments, rfl, h⟩ := h
      obtain rfl := Option.some.inj h
      exact ⟨rfl, any_ne_eq_false.mp (Bool.eq_false_iff.mpr hg)⟩
  · rintro ⟨rfl, hg⟩
    rw [toJs_toWire, e.fromValue_toValue hg]
    rfl

/-! ## What C++ accepts -/

theorem cpp_fromValue_eq_some {v : WireValue} {d : Cpp.DecodedChallenge} :
    (Cpp.DecodedChallenge.fromValue v).toOption = some d ↔ d.Shared ∧ v = d.toWire := by
  rw [Cpp.DecodedChallenge.fromValue, toOption_map, Option.map_eq_some_iff]
  constructor
  · rintro ⟨⟨nonce, grantee, es⟩, h, rfl⟩
    obtain ⟨rfl, hshared⟩ := (readChallenge_eq_some (toOption_cppExpectBlob 32 _)
      fun _ _ => cppEntry_eq_some).mp h
    exact ⟨hshared, rfl⟩
  · rintro ⟨hshared, rfl⟩
    exact ⟨(d.nonce, d.grantee, d.entries), (readChallenge_eq_some (toOption_cppExpectBlob 32 _)
      fun _ _ => cppEntry_eq_some).mpr ⟨rfl, hshared⟩, rfl⟩

/-! ## JavaScript and Python -/

theorem entriesFromValues_toJs (grantee : Option Hash) (vs : List WireValue) :
    (DecodedChallenge.entriesFromValues grantee (vs.map WireValue.toJs)).toOption =
      (readEntries .error Python.DecodedEntry.fromValue DecodedEntry.granteeHash grantee
        vs).toOption := by
  induction vs generalizing grantee with
  | nil => rfl
  | cons v vs ih =>
    rw [List.map_cons, DecodedChallenge.entriesFromValues, readEntries, toOption_bind,
      toOption_bind]
    cases hpy : (Python.DecodedEntry.fromValue v).toOption with
    | none =>
      have hjs : (DecodedEntry.fromValue grantee v.toJs).toOption = none := by
        apply Option.eq_none_iff_forall_ne_some.mpr
        intro e he
        rw [pyEntry_eq_some.mpr (jsEntry_eq_some.mp he).1] at hpy
        cases hpy
      rw [hjs]
      rfl
    | some e =>
      rw [Option.bind_some]
      split_ifs with hg
      · have hjs : (DecodedEntry.fromValue grantee v.toJs).toOption = none := by
          apply Option.eq_none_iff_forall_ne_some.mpr
          intro e' he'
          obtain ⟨hv, hall⟩ := jsEntry_eq_some.mp he'
          rw [pyEntry_eq_some.mpr hv] at hpy
          obtain rfl := Option.some.inj hpy
          exact Bool.eq_false_iff.mp (any_ne_eq_false.mpr hall) hg
        rw [hjs]
        rfl
      · have hjs : (DecodedEntry.fromValue grantee v.toJs).toOption = some e :=
          jsEntry_eq_some.mpr ⟨pyEntry_eq_some.mp hpy,
            any_ne_eq_false.mp (Bool.eq_false_iff.mpr hg)⟩
        rw [hjs, Option.bind_some, toOption_bind, toOption_bind, ih]
        rfl

/-- The two ports accept the same challenges, whatever the value. -/
theorem fromValue_toJs (v : WireValue) :
    (DecodedChallenge.fromValue v.toJs).toOption =
      (Python.DecodedChallenge.fromValue v).toOption := by
  rw [Python.DecodedChallenge.fromValue, toOption_map]
  cases v with
  | array vs =>
    rcases vs with _ | ⟨nonce, _ | ⟨entries, _ | ⟨x, vs⟩⟩⟩
    · rfl
    · rfl
    · rw [readChallenge, toOption_bind, toOption_expectBlob]
      simp only [WireValue.toJs, WireValue.toJsAll]
      rw [DecodedChallenge.fromValue, toOption_bind, toOption_expectBytes]
      cases blobOf 32 nonce with
      | none => rfl
      | some n =>
        rw [Option.bind_some, Option.bind_some]
        cases entries with
        | array es =>
          simp only [WireValue.toJs, WireValue.toJsAll_eq_map]
          rw [toOption_bind, toOption_bind, entriesFromValues_toJs]
          cases (readEntries .error Python.DecodedEntry.fromValue DecodedEntry.granteeHash none
            es).toOption with
          | none => rfl
          | some met =>
            rcases met with ⟨_ | grantee, decoded⟩ <;> rfl
        | int m wide => cases wide <;> rfl
        | _ => rfl
    · rfl
  | int m wide => cases wide <;> rfl
  | _ => rfl

/-! ## C++ -/

theorem exists_toCpp {d : Cpp.DecodedChallenge} (h : d.Hashed) :
    ∃ d' : DecodedChallenge, d'.toCpp = d := by
  have hentry : ∀ e ∈ d.entries, e ∈ Set.range DecodedEntry.toCpp := by
    intro e he
    have hsegments : e.objectHashes ∈ Set.range (List.map (Subtype.val : Hash → Bytes)) := by
      rw [Set.range_list_map]
      intro s hs
      exact ⟨⟨s, h e he s hs⟩, rfl⟩
    obtain ⟨segments, hsegments⟩ := hsegments
    refine ⟨⟨e.saltIdTag, e.granteeHash, e.allowRelationHash, e.denyRelationHash, segments⟩, ?_⟩
    rw [DecodedEntry.toCpp, hsegments]
  have hentries : d.entries ∈ Set.range (List.map DecodedEntry.toCpp) := by
    rw [Set.range_list_map]
    exact hentry
  obtain ⟨es, hes⟩ := hentries
  refine ⟨⟨d.nonce, d.grantee, es⟩, ?_⟩
  rw [DecodedChallenge.toCpp, hes]

theorem hashed_toCpp (d : DecodedChallenge) : d.toCpp.Hashed := by
  intro e he h hh
  obtain ⟨e', -, rfl⟩ := List.mem_map.mp he
  obtain ⟨h', -, rfl⟩ := List.mem_map.mp hh
  exact h'.property

theorem cpp_accepts_alike_iff (v : WireValue) :
    (Cpp.DecodedChallenge.fromValue v).toOption =
      (Python.DecodedChallenge.fromValue v).toOption.map DecodedChallenge.toCpp ↔
      ¬ Malsegmented v := by
  constructor
  · rintro h ⟨d, hshared, hodd, rfl⟩
    rw [cpp_fromValue_eq_some.mpr ⟨hshared, rfl⟩, eq_comm, Option.map_eq_some_iff] at h
    obtain ⟨d', -, rfl⟩ := h
    exact hodd (hashed_toCpp d')
  · intro hmal
    apply Option.ext
    intro d
    rw [cpp_fromValue_eq_some, Option.map_eq_some_iff]
    constructor
    · rintro ⟨hshared, rfl⟩
      have hhashed : d.Hashed := by
        by_contra hodd
        exact hmal ⟨d, hshared, hodd, rfl⟩
      obtain ⟨d', rfl⟩ := exists_toCpp hhashed
      exact ⟨d', py_fromValue_eq_some.mpr ⟨d'.shared_toCpp.mp hshared, d'.toWire_toCpp⟩, rfl⟩
    · rintro ⟨d', hd', rfl⟩
      obtain ⟨hshared, rfl⟩ := py_fromValue_eq_some.mp hd'
      exact ⟨d'.shared_toCpp.mpr hshared, d'.toWire_toCpp.symm⟩

/-! ## The verdict on it -/

section Verdict

variable {κ : Type*} [DecidableEq κ] {key : Tuple → κ} (hmac16 : Hmac16) (config : Config)

namespace Cpp

/-- The loop of `handle`, which stops at the first salt that has the tag. -/
def buildHypotheses (decoded : DecodedChallenge) : List Hypothesis :=
  decoded.entries.filterMap fun entry =>
    (config.hashers.find? fun hasher => decide (hasher.idTag hmac16 = entry.saltIdTag)).map
      fun hasher => ⟨hasher, entry.objectHashes, entry.allowRelationHash, entry.denyRelationHash⟩

def allowed (state : StateVector key) (decoded : DecodedChallenge) : Bool :=
  let hypotheses := buildHypotheses hmac16 config decoded
  !hypotheses.isEmpty &&
    Engine.evaluateHashes hmac16 config {} state.activeTuples decoded.grantee hypotheses

end Cpp

/-- The verdict of each Authority on a challenge it accepts. -/
def pythonVerdict (state : StateVector key) (v : WireValue) : Option Verdict :=
  (Python.DecodedChallenge.fromValue v).toOption.map fun d =>
    verdictOf (allowed hmac16 config state d)

def javascriptVerdict (state : StateVector key) (v : WireValue) : Option Verdict :=
  (DecodedChallenge.fromValue v.toJs).toOption.map fun d =>
    verdictOf (allowed hmac16 config state d)

def cppVerdict (state : Cpp.StateVector key) (v : WireValue) : Option Verdict :=
  (Cpp.DecodedChallenge.fromValue v).toOption.map fun d =>
    verdictOf (Cpp.allowed hmac16 config state d)

variable {hmac16 config}

theorem get?_hashersByTag_eq_none {hashers : List NamespaceHasher} {tag : Hash}
    (h : ∀ hasher ∈ hashers, hasher.idTag hmac16 ≠ tag) :
    (hashersByTag hmac16 hashers).get? tag = none := by
  induction hashers using List.reverseRecOn with
  | nil => rfl
  | append_singleton hashers last ih =>
    rw [get?_hashersByTag_concat, if_neg fun ht => h last (by simp) ht.symm]
    exact ih fun hasher hh => h hasher (List.mem_append_left _ hh)

/-- Where tags tell the salts apart, the first salt with a tag is the last. -/
theorem find?_idTag (htags : TagsTell hmac16 config config.hashers) (tag : Hash) :
    config.hashers.find? (fun hasher => decide (hasher.idTag hmac16 = tag)) =
      (hashersByTag hmac16 config.hashers).get? tag := by
  cases hf : config.hashers.find? fun hasher => decide (hasher.idTag hmac16 = tag) with
  | none =>
    rw [get?_hashersByTag_eq_none]
    intro hasher hh
    simpa using List.find?_eq_none.mp hf hasher hh
  | some hasher =>
    have hmem := List.mem_of_find?_eq_some hf
    obtain rfl : hasher.idTag hmac16 = tag := by simpa using List.find?_some hf
    rw [get?_hashersByTag (htags hasher hmem), if_pos hmem]

theorem buildHypotheses_toCpp (htags : TagsTell hmac16 config config.hashers)
    (d : DecodedChallenge) :
    Cpp.buildHypotheses hmac16 config d.toCpp =
      (buildHypotheses hmac16 config d).map Cpp.Engine.ofHashes := by
  rw [Cpp.buildHypotheses, DecodedChallenge.toCpp, buildHypotheses, ← hashersByTag,
    List.filterMap_map, List.map_filterMap]
  apply List.filterMap_congr
  intro e _
  rw [Function.comp_apply, DecodedEntry.toCpp, find?_idTag htags, Option.map_map]
  rfl

theorem admin_of_mem_buildHypotheses {d : DecodedChallenge} :
    ∀ h ∈ buildHypotheses hmac16 config d,
      h.adminAllowHash = h.hasher.hashRelation hmac16 adminRelation ∧
        h.adminDenyHash = h.hasher.hashRelation hmac16 ("-" ++ adminRelation) := by
  intro h hh
  obtain ⟨e, -, he⟩ := List.mem_filterMap.mp hh
  obtain ⟨hasher, -, rfl⟩ := Option.map_eq_some_iff.mp he
  exact ⟨rfl, rfl⟩

theorem allowed_toCpp (htags : TagsTell hmac16 config config.hashers) {state : StateVector key}
    {cppState : Cpp.StateVector key} (hstate : cppState.activeTuples = state.activeTuples)
    (d : DecodedChallenge) :
    Cpp.allowed hmac16 config cppState d.toCpp = allowed hmac16 config state d := by
  rw [Cpp.allowed, allowed, buildHypotheses_toCpp htags, List.isEmpty_map, hstate]
  rw [Cpp.Engine.evaluateHashes_ofHashes config {} state.activeTuples d.toCpp.grantee
    admin_of_mem_buildHypotheses]
  rfl

/-- The decoders agree on the value, and what they accept has 16-byte segment hashes. -/
structure DecodersAgree (v : WireValue) : Prop where
  javascript : (DecodedChallenge.fromValue v.toJs).toOption =
    (Python.DecodedChallenge.fromValue v).toOption
  cpp : (Cpp.DecodedChallenge.fromValue v).toOption =
    (Python.DecodedChallenge.fromValue v).toOption.map DecodedChallenge.toCpp
  hashed : ∀ d, (Cpp.DecodedChallenge.fromValue v).toOption = some d → d.Hashed

/-- On one configuration and one state the three Authorities read a challenge alike and give
one verdict on it, unless an object segment hash has another length. -/
theorem challenge_read_alike_iff (htags : TagsTell hmac16 config config.hashers)
    {state : StateVector key} {cppState : Cpp.StateVector key}
    (hstate : cppState.activeTuples = state.activeTuples) (v : WireValue) :
    (DecodersAgree v ∧
      pythonVerdict hmac16 config state v = javascriptVerdict hmac16 config state v ∧
      cppVerdict hmac16 config cppState v = javascriptVerdict hmac16 config state v) ↔
      ¬ Malsegmented v := by
  rw [← cpp_accepts_alike_iff]
  constructor
  · rintro ⟨hagree, -⟩
    exact hagree.cpp
  · intro hcpp
    refine ⟨⟨fromValue_toJs v, hcpp, ?_⟩, ?_, ?_⟩
    · intro d hd
      rw [hcpp, Option.map_eq_some_iff] at hd
      obtain ⟨d', -, rfl⟩ := hd
      exact hashed_toCpp d'
    · rw [pythonVerdict, javascriptVerdict, fromValue_toJs]
    · rw [cppVerdict, javascriptVerdict, fromValue_toJs, hcpp, Option.map_map]
      congr 1
      funext d
      exact congrArg verdictOf (allowed_toCpp htags hstate d)

end Verdict

/-! ## An empty segment -/

section EmptySegment

/-- The state of the Authority in which identity 1 may use everything. -/
def cppQuiet : Cpp.StateVector Tuple.key :=
  ((Cpp.StateVector.empty defaultDeletionHorizonDays).apply
    ⟨Engine.permit 0 1 (Blob.fill 16 3), .grant, 0, [], Nat.zero_le _⟩ 0 0 0).2

theorem cppQuiet_activeTuples : cppQuiet.activeTuples = quiet.state.activeTuples := by
  decide +kernel

theorem sceneConfig_tagsTell :
    TagsTell authority.hmac16 authority.config authority.config.hashers := by
  intro h hh h' hh' _
  rw [List.mem_singleton.mp hh, List.mem_singleton.mp hh']

/-- A challenge of identity 1 for the one segment that is no bytes at all. -/
def emptySegment : Cpp.DecodedChallenge where
  nonce := drawn
  grantee := Engine.identity 1
  entries := [⟨Blob.fill 16 13, Engine.identity 1, Blob.fill 16 3, Blob.fill 16 4, [[]]⟩]

theorem emptySegment_malsegmented : Malsegmented emptySegment.toWire := by
  refine ⟨emptySegment, ⟨List.cons_ne_nil _ _, ?_⟩, ?_, rfl⟩
  · intro e he
    rw [List.mem_singleton.mp he]
    rfl
  · intro h
    exact absurd (h _ (List.mem_singleton_self _) [] (List.mem_singleton_self _)) (by decide)

/-- C++ allows it by the wildcard, the other two do not read it. -/
theorem empty_segment_allowed :
    pythonVerdict authority.hmac16 authority.config quiet.state emptySegment.toWire = none ∧
      javascriptVerdict authority.hmac16 authority.config quiet.state emptySegment.toWire = none ∧
      cppVerdict authority.hmac16 authority.config cppQuiet emptySegment.toWire = some .allow ∧
      ¬ DecodersAgree emptySegment.toWire := by
  refine ⟨by decide +kernel, by decide +kernel, by decide +kernel, ?_⟩
  intro h
  exact (cpp_accepts_alike_iff _).mp h.cpp emptySegment_malsegmented

/-- The scene's challenge for identity 1 is read alike, and allowed. -/
theorem challenge_read_alike_iff_substitute :
    (DecodersAgree substitute.toCpp.toWire ∧
      pythonVerdict authority.hmac16 authority.config quiet.state substitute.toCpp.toWire =
        javascriptVerdict authority.hmac16 authority.config quiet.state substitute.toCpp.toWire ∧
      cppVerdict authority.hmac16 authority.config cppQuiet substitute.toCpp.toWire =
        javascriptVerdict authority.hmac16 authority.config quiet.state substitute.toCpp.toWire) ∧
    cppVerdict authority.hmac16 authority.config cppQuiet substitute.toCpp.toWire =
      some .allow := by
  have hread : ¬ Malsegmented substitute.toCpp.toWire := by
    rintro ⟨d, hshared, hodd, hd⟩
    have hsame := cpp_fromValue_eq_some.mpr ⟨hshared, hd⟩
    have hsub : (Cpp.DecodedChallenge.fromValue substitute.toCpp.toWire).toOption =
        some substitute.toCpp :=
      cpp_fromValue_eq_some.mpr ⟨⟨List.cons_ne_nil _ _, by
        intro e he
        rw [List.mem_singleton.mp he]
        rfl⟩, rfl⟩
    rw [hsub] at hsame
    obtain rfl := Option.some.inj hsame
    exact hodd (hashed_toCpp substitute)
  exact ⟨(challenge_read_alike_iff sceneConfig_tagsTell cppQuiet_activeTuples _).mpr hread,
    by decide +kernel⟩

end EmptySegment

end Dacar

import Dacar.EngineGraph
import Dacar.LabelPath
import Dacar.Payload
import Dacar.Utf8

/-!
# Matching hashes is matching labels

Tuples and requests meet as lists of label hashes.  As long as the hash tells the labels
involved apart, they match exactly when the paths of labels do, in every port and for every
string.
-/

namespace Dacar

variable (hmac16 : Hmac16)

/-! ## The ports -/

/-- `covers` of JavaScript and C++, one position after the other. -/
def coversByIndex (tupleHashes : List Hash) (wildcard : Bool) (requestHashes : List Hash) : Bool :=
  let agree := (List.range tupleHashes.length).all fun i => tupleHashes[i]? == requestHashes[i]?
  if wildcard then
    if tupleHashes.length > requestHashes.length then false else agree
  else if tupleHashes.length ≠ requestHashes.length then false
  else agree

/-- `Tuple.fromPlaintext` -/
def Tuple.fromPlaintext (objectId relation : String) (grantee issuer : Hash)
    (hasher : NamespaceHasher) : Except DecodeError Tuple :=
  let hashed := hasher.hashObject hmac16 objectId
  Tuple.make (hasher.hashRelation hmac16 relation) hashed.hashes hashed.wildcard grantee issuer

namespace Cpp

/-- `DELIMITER` and `WILDCARD`, as the bytes of a `std::string`. -/
def delimiter : UInt8 := 0x3a
def wildcardByte : UInt8 := 0x2a

/-- The loop over the characters, with the segments so far and the current one. -/
def splitLoop : Bytes → List Bytes → Bytes → List Bytes
  | [], segments, current => segments ++ [current]
  | c :: rest, segments, current =>
    if c = delimiter then splitLoop rest (segments ++ [current]) []
    else splitLoop rest segments (current ++ [c])

def split (objectId : Bytes) : List Bytes := splitLoop objectId [] []

def isWildcard (segment : Bytes) : Bool := segment.length == 1 && segment.head? == some wildcardByte

def hashObject (h : NamespaceHasher) (objectId : Bytes) : HashedObject :=
  if isWildcard objectId then ⟨[], true⟩
  else
    let segments := split objectId
    if segments.getLast?.any isWildcard then ⟨segments.dropLast.map (hmac16 h.salt), true⟩
    else ⟨segments.map (hmac16 h.salt), false⟩

end Cpp

/-! ## Parsing -/

/-- The labels of an object string, without its terminal `*`. -/
def labelsOf (objectId : String) : List (List Char) := LabelPath.labels ':' '*' objectId.toList

/-- The pattern's labels are the request's or, before a terminal `*`, a prefix of them. -/
def MatchesLabels (pattern request : String) : Prop :=
  LabelPath.Matches ':' '*' pattern.toList request.toList

theorem toList_eq_star {s : String} : s = "*" ↔ s.toList = ['*'] :=
  ⟨fun h => by rw [h]; rfl, fun h => String.toList_inj.mp h⟩

/-- The special case for `*` alone is no other than the general one. -/
theorem parseObject_eq (objectId : String) :
    parseObject objectId =
      ⟨(labelsOf objectId).map String.ofList, LabelPath.wildcard ':' '*' objectId.toList⟩ := by
  unfold parseObject
  by_cases h : objectId = "*"
  · subst h
    rfl
  · rw [if_neg h]
    have hlast : (splitObject objectId).getLast? = some "*" ↔
        LabelPath.wildcard ':' '*' objectId.toList = true := by
      rw [splitObject, List.getLast?_map, LabelPath.wildcard, beq_iff_eq]
      cases (objectId.toList.splitOn ':').getLast? with
      | none => simp
      | some l =>
        rw [Option.map_some, Option.some.injEq, Option.some.injEq, toList_eq_star,
          String.toList_ofList]
    dsimp only
    by_cases hw : LabelPath.wildcard ':' '*' objectId.toList = true
    · rw [if_pos (hlast.mpr hw), labelsOf, LabelPath.labels, if_pos hw, hw, splitObject,
        List.map_dropLast]
    · rw [if_neg (mt hlast.mp hw), labelsOf, LabelPath.labels, if_neg hw, eq_false_of_ne_true hw,
        splitObject]

theorem cpp_splitLoop (s : Bytes) (segments : List Bytes) (current : Bytes) :
    Cpp.splitLoop s segments current =
      segments ++ (s.splitOn Cpp.delimiter).modifyHead (current ++ ·) := by
  induction s generalizing segments current with
  | nil => simp [Cpp.splitLoop]
  | cons c s ih =>
    rw [Cpp.splitLoop, List.splitOn_cons_eq_if_modifyHead]
    by_cases hc : c = Cpp.delimiter
    · rw [if_pos hc, if_pos (by simpa using hc), ih]
      cases h : s.splitOn Cpp.delimiter <;> simp
    · rw [if_neg hc, if_neg (by simpa using hc), ih]
      cases h : s.splitOn Cpp.delimiter <;> simp

theorem cpp_split (s : Bytes) : Cpp.split s = s.splitOn Cpp.delimiter := by
  rw [Cpp.split, cpp_splitLoop]
  cases h : s.splitOn Cpp.delimiter <;> simp

theorem cpp_isWildcard {s : Bytes} : Cpp.isWildcard s = true ↔ s = [Cpp.wildcardByte] := by
  match s with
  | [] => simp [Cpp.isWildcard]
  | [c] => simp [Cpp.isWildcard]
  | _ :: _ :: _ => simp [Cpp.isWildcard]

theorem cpp_hashObject_eq (h : NamespaceHasher) (objectId : Bytes) :
    Cpp.hashObject hmac16 h objectId =
      ⟨(LabelPath.labels Cpp.delimiter Cpp.wildcardByte objectId).map (hmac16 h.salt),
        LabelPath.wildcard Cpp.delimiter Cpp.wildcardByte objectId⟩ := by
  unfold Cpp.hashObject
  have hlast : (objectId.splitOn Cpp.delimiter).getLast?.any Cpp.isWildcard =
      LabelPath.wildcard Cpp.delimiter Cpp.wildcardByte objectId := by
    rw [LabelPath.wildcard, Bool.eq_iff_iff, beq_iff_eq]
    cases (objectId.splitOn Cpp.delimiter).getLast? with
    | none => simp
    | some l => simp [cpp_isWildcard]
  by_cases hroot : Cpp.isWildcard objectId = true
  · obtain rfl := cpp_isWildcard.mp hroot
    rfl
  · rw [if_neg hroot]
    simp only [cpp_split, hlast, LabelPath.labels]
    cases LabelPath.wildcard Cpp.delimiter Cpp.wildcardByte objectId <;> simp

theorem utf8_eq (s : String) : utf8 s = Utf8.encode s.toList := by
  conv_lhs => rw [← String.ofList_toList (s := s)]
  simp [utf8, String.toUTF8, String.ofList, List.utf8Encode, Utf8.encode]

/-- On the bytes of a text the C++ port computes what the others do on the text. -/
theorem cpp_hashObject_utf8 (h : NamespaceHasher) (objectId : String) :
    Cpp.hashObject hmac16 h (utf8 objectId) = h.hashObject hmac16 objectId := by
  have hsplit : (utf8 objectId).splitOn Cpp.delimiter =
      (objectId.toList.splitOn ':').map Utf8.encode := by
    rw [utf8_eq]
    exact Utf8.splitOn_encode (d := ':') (by decide) _
  have hstar : Utf8.encode ['*'] = [Cpp.wildcardByte] := by decide
  have hwild : LabelPath.wildcard Cpp.delimiter Cpp.wildcardByte (utf8 objectId) =
      LabelPath.wildcard ':' '*' objectId.toList := by
    rw [LabelPath.wildcard, LabelPath.wildcard, hsplit, List.getLast?_map, ← hstar,
      Bool.eq_iff_iff, beq_iff_eq, beq_iff_eq]
    cases (objectId.toList.splitOn ':').getLast? with
    | none => simp
    | some l => simp [Utf8.encode_injective.eq_iff]
  have hlabels : LabelPath.labels Cpp.delimiter Cpp.wildcardByte (utf8 objectId) =
      (labelsOf objectId).map Utf8.encode := by
    rw [labelsOf, LabelPath.labels, LabelPath.labels, hwild, hsplit]
    split_ifs
    · exact List.map_dropLast.symm
    · rfl
  rw [cpp_hashObject_eq, hwild, hlabels, NamespaceHasher.hashObject, parseObject_eq,
    List.map_map, List.map_map]
  simp only [Function.comp_def, utf8_eq, String.toList_ofList]

/-! ## Matching -/

theorem coversByIndex_eq (tupleHashes : List Hash) (wildcard : Bool) (requestHashes : List Hash) :
    coversByIndex tupleHashes wildcard requestHashes =
      covers tupleHashes wildcard requestHashes := by
  have hagree (hl : tupleHashes.length ≤ requestHashes.length) :
      ((List.range tupleHashes.length).all fun i => tupleHashes[i]? == requestHashes[i]?) =
        (tupleHashes == requestHashes.take tupleHashes.length) := by
    rw [Bool.eq_iff_iff, List.all_eq_true, beq_iff_eq]
    constructor
    · intro h
      refine List.ext_getElem? fun i => ?_
      by_cases hi : i < tupleHashes.length
      · rw [List.getElem?_take_of_lt hi]
        exact beq_iff_eq.mp (h i (List.mem_range.mpr hi))
      · rw [List.getElem?_eq_none (not_lt.mp hi), List.getElem?_eq_none]
        exact (List.length_take_le _ _).trans (not_lt.mp hi)
    · intro h i hi
      rw [beq_iff_eq]
      conv_lhs => rw [h]
      exact List.getElem?_take_of_lt (List.mem_range.mp hi)
  unfold coversByIndex covers
  cases wildcard with
  | true =>
    rw [if_pos rfl, if_pos rfl]
    split_ifs with hl
    · rfl
    · exact hagree (not_lt.mp hl)
  | false =>
    rw [if_neg Bool.false_ne_true, if_neg Bool.false_ne_true]
    split_ifs with hl
    · exact (beq_eq_false_iff_ne.mpr fun h => hl (congrArg List.length h)).symm
    · rw [hagree (not_not.mp hl).le, not_not.mp hl, List.take_length]

section Hashed

variable {β : Type*} {f g : β → Hash} {as bs : List β}

theorem eq_of_map_eq (hfg : ∀ a ∈ as, ∀ b ∈ bs, f a = g b → a = b) (h : as.map f = bs.map g) :
    as = bs := by
  induction as generalizing bs with
  | nil => exact (List.map_eq_nil_iff.mp h.symm).symm
  | cons a as ih =>
    cases bs with
    | nil => cases h
    | cons b bs =>
      obtain ⟨hab, hrest⟩ := List.cons.inj h
      rw [hfg a List.mem_cons_self b List.mem_cons_self hab,
        ih (fun a' ha b' hb => hfg a' (List.mem_cons_of_mem a ha) b' (List.mem_cons_of_mem b hb))
          hrest]

/-- Hashes that keep different labels apart cover no other labels, even under two salts. -/
theorem of_covers_map (hfg : ∀ a ∈ as, ∀ b ∈ bs, f a = g b → a = b) {wildcard : Bool}
    (h : covers (as.map f) wildcard (bs.map g) = true) :
    if wildcard then as <+: bs else as = bs := by
  unfold covers at h
  cases wildcard with
  | false =>
    rw [if_neg Bool.false_ne_true, beq_iff_eq] at h
    exact eq_of_map_eq hfg h
  | true =>
    rw [if_pos rfl, List.length_map, List.length_map, ← List.map_take] at h
    split_ifs at h with hl
    rw [beq_iff_eq] at h
    exact List.prefix_iff_eq_take.mpr
      (eq_of_map_eq (fun a ha b hb => hfg a ha b (List.mem_of_mem_take hb)) h)

theorem covers_map {wildcard : Bool} (h : if wildcard then as <+: bs else as = bs) :
    covers (as.map f) wildcard (bs.map f) = true := by
  unfold covers
  cases wildcard with
  | false =>
    have has : as = bs := h
    rw [if_neg Bool.false_ne_true, beq_iff_eq, has]
  | true =>
    have hp : as <+: bs := h
    rw [if_pos rfl, List.length_map, List.length_map, if_neg (not_lt.mpr hp.length_le), beq_iff_eq,
      ← List.map_take, ← List.prefix_iff_eq_take.mp hp]

end Hashed

/-- The hash of a label under one salt. -/
def segmentHash (hasher : NamespaceHasher) (label : List Char) : Hash :=
  hmac16 hasher.salt (utf8 (String.ofList label))

theorem hashObject_eq (hasher : NamespaceHasher) (objectId : String) :
    hasher.hashObject hmac16 objectId =
      ⟨(labelsOf objectId).map (segmentHash hmac16 hasher),
        LabelPath.wildcard ':' '*' objectId.toList⟩ := by
  rw [NamespaceHasher.hashObject, parseObject_eq, List.map_map]
  rfl

instance (pattern request : String) : Decidable (MatchesLabels pattern request) :=
  inferInstanceAs (Decidable (LabelPath.Matches ':' '*' pattern.toList request.toList))

/-- The hashes under the two salts tell the labels of the pattern from those of the request. -/
def Separates (hasher hasher' : NamespaceHasher) (pattern request : String) : Prop :=
  ∀ l ∈ labelsOf pattern, ∀ l' ∈ labelsOf request,
    segmentHash hmac16 hasher l = segmentHash hmac16 hasher' l' → l = l'

instance (hasher hasher' : NamespaceHasher) (pattern request : String) :
    Decidable (Separates hmac16 hasher hasher' pattern request) :=
  inferInstanceAs (Decidable (∀ l ∈ labelsOf pattern, ∀ l' ∈ labelsOf request,
    segmentHash hmac16 hasher l = segmentHash hmac16 hasher' l' → l = l'))

variable {hmac16}

theorem matches_of_covers {hasher hasher' : NamespaceHasher} {pattern request : String}
    (h : Separates hmac16 hasher hasher' pattern request)
    (hcov : covers (hasher.hashObject hmac16 pattern).hashes
      (hasher.hashObject hmac16 pattern).wildcard
      (hasher'.hashObject hmac16 request).hashes = true) : MatchesLabels pattern request := by
  rw [hashObject_eq, hashObject_eq] at hcov
  exact of_covers_map h hcov

theorem covers_of_matches {hasher : NamespaceHasher} {pattern request : String}
    (h : MatchesLabels pattern request) :
    covers (hasher.hashObject hmac16 pattern).hashes (hasher.hashObject hmac16 pattern).wildcard
      (hasher.hashObject hmac16 request).hashes = true := by
  rw [hashObject_eq, hashObject_eq]
  exact covers_map h

theorem cpp_covers_iff {hasher : NamespaceHasher} {pattern request : Bytes}
    (h : ∀ l ∈ LabelPath.labels Cpp.delimiter Cpp.wildcardByte pattern,
      ∀ l' ∈ LabelPath.labels Cpp.delimiter Cpp.wildcardByte request,
        hmac16 hasher.salt l = hmac16 hasher.salt l' → l = l') :
    covers (Cpp.hashObject hmac16 hasher pattern).hashes
        (Cpp.hashObject hmac16 hasher pattern).wildcard
        (Cpp.hashObject hmac16 hasher request).hashes = true ↔
      LabelPath.Matches Cpp.delimiter Cpp.wildcardByte pattern request := by
  rw [cpp_hashObject_eq, cpp_hashObject_eq]
  exact ⟨of_covers_map h, covers_map⟩

/-! ## In the engine -/

namespace Engine

open VoteSearch

/-- Under one of the hypotheses the tuple's object covers the requested one. -/
def Considers (t : Tuple) (hs : List Hypothesis) : Prop :=
  ∃ h ∈ hs, covers t.objectHashes t.wildcard h.objectHashes = true

theorem considers_admin {t : Tuple} {hs : List Hypothesis} :
    Considers t (hs.map Hypothesis.admin) ↔ Considers t hs := by
  constructor
  · rintro ⟨h, hh, hcov⟩
    obtain ⟨h', hh', rfl⟩ := List.mem_map.mp hh
    exact ⟨h', hh', hcov⟩
  · rintro ⟨h, hh, hcov⟩
    exact ⟨h.admin, List.mem_map_of_mem hh, hcov⟩

/-- A tuple that is not considered casts no vote. -/
theorem votes_without {t : Tuple} {hs : List Hypothesis} (h : ¬ Considers t hs)
    (active : List Tuple) (g : Hash) :
    votes (active.filter (· ≠ t)) hs g = votes active hs g := by
  have hnone : hs.filterMap (vote t) = [] := by
    refine List.filterMap_eq_nil_iff.mpr fun hyp hh => ?_
    rw [vote, if_neg fun hcov => h ⟨hyp, hh, hcov⟩]
  unfold votes
  rw [List.filter_comm]
  generalize active.filter (fun u => decide (u.grantee = g)) = candidates
  induction candidates with
  | nil => rfl
  | cons u candidates ih =>
    by_cases hu : u = t
    · subst hu
      rw [List.filter_cons_of_neg (by simp), List.flatMap_cons, hnone, List.nil_append, ih]
    · rw [List.filter_cons_of_pos (by simpa using hu), List.flatMap_cons, List.flatMap_cons, ih]

/-- Nor does it make a difference to the verdict. -/
theorem evaluation_without {t : Tuple} {hs : List Hypothesis} (h : ¬ Considers t hs)
    (config : Config) (opts : Options) (remember : Bool) (active : List Tuple) (grantee : Hash) :
    evaluation config opts remember (active.filter (· ≠ t)) grantee hs =
      evaluation config opts remember active grantee hs := by
  have hgraph : graph config (active.filter (· ≠ t)) hs = graph config active hs := by
    unfold graph
    congr 1
    funext i
    exact votes_without (mt considers_admin.mp h) active i
  rw [evaluation_eq, evaluation_eq, hgraph, votes_without h]

variable {config : Config} {hasher : NamespaceHasher} {pattern relation request : String}
  {grantee issuer : Hash} {t : Tuple}

theorem fromPlaintext_ok
    (ht : Tuple.fromPlaintext hmac16 pattern relation grantee issuer hasher = .ok t) :
    t.relationHash = hasher.hashRelation hmac16 relation ∧
      t.objectHashes = (hasher.hashObject hmac16 pattern).hashes ∧
      t.wildcard = (hasher.hashObject hmac16 pattern).wildcard ∧
      t.grantee = grantee ∧ t.issuer = issuer := by
  unfold Tuple.fromPlaintext Tuple.make at ht
  dsimp only at ht
  split_ifs at ht
  obtain rfl := Except.ok.inj ht
  exact ⟨rfl, rfl, rfl, rfl, rfl⟩

theorem considers_iff (hconfig : hasher ∈ config.hashers)
    (ht : Tuple.fromPlaintext hmac16 pattern relation grantee issuer hasher = .ok t)
    (h : ∀ hasher' ∈ config.hashers, Separates hmac16 hasher hasher' pattern request)
    (relation' : String) :
    Considers t (config.hashers.map (hypothesis hmac16 request relation')) ↔
      MatchesLabels pattern request := by
  obtain ⟨-, hhashes, hwildcard, -, -⟩ := fromPlaintext_ok ht
  rw [Considers, hhashes, hwildcard]
  constructor
  · rintro ⟨hyp, hhyp, hcov⟩
    obtain ⟨hasher', hhasher', rfl⟩ := List.mem_map.mp hhyp
    exact matches_of_covers (h hasher' hhasher') hcov
  · intro hmatch
    exact ⟨_, List.mem_map_of_mem hconfig, covers_of_matches hmatch⟩

/-- A tuple whose pattern matches carries its relation's hash on the requested object. -/
theorem carries_of_matches
    (ht : Tuple.fromPlaintext hmac16 pattern relation grantee issuer hasher = .ok t)
    (hmatch : MatchesLabels pattern request) (relation' : String) :
    Carries t (hasher.hashRelation hmac16 relation)
      (hypothesis hmac16 request relation' hasher) := by
  obtain ⟨hrelation, hhashes, hwildcard, -, -⟩ := fromPlaintext_ok ht
  refine ⟨hrelation, ?_⟩
  rw [hhashes, hwildcard]
  exact covers_of_matches hmatch

/-- A matching grant is a vote for the grantee, and an anchor's decides when nobody denies. -/
theorem grant_counts (hconfig : hasher ∈ config.hashers)
    (ht : Tuple.fromPlaintext hmac16 pattern relation grantee issuer hasher = .ok t)
    (hmatch : MatchesLabels pattern request)
    (hsign : hasher.hashRelation hmac16 relation ≠ hasher.hashRelation hmac16 ("-" ++ relation))
    {active : List Tuple} (hactive : t ∈ active) :
    (.allow, issuer) ∈
        votes active (config.hashers.map (hypothesis hmac16 request relation)) grantee ∧
      ∀ opts : Options, config.isRootAnchor issuer = true → 1 ≤ opts.maxVisited →
        (∀ s ∈ active, s.grantee = grantee → ∀ hasher' ∈ config.hashers,
          s.relationHash ≠ hasher'.hashRelation hmac16 ("-" ++ relation)) →
        (evaluation config opts true active grantee
          (config.hashers.map (hypothesis hmac16 request relation))).1 = .allow := by
  have hc := carries_of_matches ht hmatch relation
  obtain ⟨hrelation, -, -, rfl, rfl⟩ := fromPlaintext_ok ht
  have hvote : (.allow, t.issuer) ∈
      votes active (config.hashers.map (hypothesis hmac16 request relation)) t.grantee :=
    allow_vote_of_carries hactive (List.mem_map_of_mem hconfig) hc (by rw [hrelation]; exact hsign)
  refine ⟨hvote, fun opts hroot hcap hnone => ?_⟩
  rw [evaluation_eq, toResolution_eq_allow]
  refine run_allow_of_root hcap hvote hroot fun i => no_deny_vote fun s hs hg hyp hhyp => ?_
  obtain ⟨hasher', hhasher', rfl⟩ := List.mem_map.mp hhyp
  exact hnone s hs hg hasher' hhasher'

/-- A matching deny is a vote against the grantee, and an anchor's decides. -/
theorem deny_counts (hconfig : hasher ∈ config.hashers)
    (ht : Tuple.fromPlaintext hmac16 pattern ("-" ++ relation) grantee issuer hasher = .ok t)
    (hmatch : MatchesLabels pattern request) {active : List Tuple} (hactive : t ∈ active) :
    (.deny, issuer) ∈
        votes active (config.hashers.map (hypothesis hmac16 request relation)) grantee ∧
      ∀ opts : Options, config.isRootAnchor issuer = true → 1 ≤ opts.maxVisited →
        (evaluation config opts true active grantee
          (config.hashers.map (hypothesis hmac16 request relation))).1 = .deny := by
  have hc := carries_of_matches ht hmatch relation
  obtain ⟨-, -, -, rfl, rfl⟩ := fromPlaintext_ok ht
  have hvote : (.deny, t.issuer) ∈
      votes active (config.hashers.map (hypothesis hmac16 request relation)) t.grantee :=
    deny_vote_of_carries hactive (List.mem_map_of_mem hconfig) hc
  refine ⟨hvote, fun opts hroot hcap => ?_⟩
  rw [evaluation_eq, run_deny_of_root hcap hvote hroot]
  rfl

end Engine

/-! ## All of it together -/

/-- In hash space a pattern covers exactly what its labels match, in all three ports.  So a
tuple built from a plaintext pattern is a vote in the engine's evaluation of the requests that
the pattern matches, and for any other it might as well not be there. -/
theorem matching_by_label (hmac16 : Hmac16) (hasher : NamespaceHasher) :
    (∀ pattern request : String, Separates hmac16 hasher hasher pattern request →
      (coversByIndex (hasher.hashObject hmac16 pattern).hashes
          (hasher.hashObject hmac16 pattern).wildcard
          (hasher.hashObject hmac16 request).hashes = true ↔ MatchesLabels pattern request) ∧
        (covers (hasher.hashObject hmac16 pattern).hashes
          (hasher.hashObject hmac16 pattern).wildcard
          (hasher.hashObject hmac16 request).hashes = true ↔ MatchesLabels pattern request)) ∧
    (∀ pattern request : Bytes,
      (∀ l ∈ LabelPath.labels Cpp.delimiter Cpp.wildcardByte pattern,
        ∀ l' ∈ LabelPath.labels Cpp.delimiter Cpp.wildcardByte request,
          hmac16 hasher.salt l = hmac16 hasher.salt l' → l = l') →
      (coversByIndex (Cpp.hashObject hmac16 hasher pattern).hashes
          (Cpp.hashObject hmac16 hasher pattern).wildcard
          (Cpp.hashObject hmac16 hasher request).hashes = true ↔
        LabelPath.Matches Cpp.delimiter Cpp.wildcardByte pattern request)) ∧
    (∀ (config : Config) (pattern relation request relation' : String) (grantee issuer : Hash)
      (t : Tuple), hasher ∈ config.hashers →
      Tuple.fromPlaintext hmac16 pattern relation grantee issuer hasher = .ok t →
      (∀ hasher' ∈ config.hashers, Separates hmac16 hasher hasher' pattern request) →
      (Engine.Considers t (config.hashers.map (Engine.hypothesis hmac16 request relation')) ↔
          MatchesLabels pattern request) ∧
        (¬ MatchesLabels pattern request → ∀ opts active grantee',
          Engine.evaluation config opts true (active.filter (· ≠ t)) grantee'
              (config.hashers.map (Engine.hypothesis hmac16 request relation')) =
            Engine.evaluation config opts true active grantee'
              (config.hashers.map (Engine.hypothesis hmac16 request relation')))) ∧
    (∀ (config : Config) (pattern relation request : String) (grantee issuer : Hash) (t : Tuple)
      (active : List Tuple), hasher ∈ config.hashers → MatchesLabels pattern request → t ∈ active →
      (Tuple.fromPlaintext hmac16 pattern relation grantee issuer hasher = .ok t →
        hasher.hashRelation hmac16 relation ≠ hasher.hashRelation hmac16 ("-" ++ relation) →
        (.allow, issuer) ∈ Engine.votes active
            (config.hashers.map (Engine.hypothesis hmac16 request relation)) grantee ∧
          ∀ opts : Engine.Options, config.isRootAnchor issuer = true → 1 ≤ opts.maxVisited →
            (∀ s ∈ active, s.grantee = grantee → ∀ hasher' ∈ config.hashers,
              s.relationHash ≠ hasher'.hashRelation hmac16 ("-" ++ relation)) →
            (Engine.evaluation config opts true active grantee
              (config.hashers.map (Engine.hypothesis hmac16 request relation))).1 = .allow) ∧
      (Tuple.fromPlaintext hmac16 pattern ("-" ++ relation) grantee issuer hasher = .ok t →
        (.deny, issuer) ∈ Engine.votes active
            (config.hashers.map (Engine.hypothesis hmac16 request relation)) grantee ∧
          ∀ opts : Engine.Options, config.isRootAnchor issuer = true → 1 ≤ opts.maxVisited →
            (Engine.evaluation config opts true active grantee
              (config.hashers.map (Engine.hypothesis hmac16 request relation))).1 = .deny)) ∧
    (∀ p request : String, LabelPath.wildcard ':' '*' request.toList = false →
      (LabelPath.wildcard ':' '*' p.toList = false → (MatchesLabels p request ↔ p = request)) ∧
        (MatchesLabels (p ++ ":*") request ↔
          request = p ∨ (p ++ ":").toList <+: request.toList)) ∧
    ∀ request : String, MatchesLabels "*" request := by
  refine ⟨fun pattern request h => ?_, fun pattern request h => ?_, ?_,
    fun config pattern relation request grantee issuer t active hconfig hmatch hactive =>
      ⟨fun ht hsign => Engine.grant_counts hconfig ht hmatch hsign hactive,
        fun ht => Engine.deny_counts hconfig ht hmatch hactive⟩,
    fun p request hr => ⟨fun hp => ?_, ?_⟩,
    fun request => LabelPath.matches_root (by decide) request.toList⟩
  · rw [coversByIndex_eq, and_self]
    exact ⟨matches_of_covers h, covers_of_matches⟩
  · rw [coversByIndex_eq]
    exact cpp_covers_iff h
  · intro config pattern relation request relation' grantee issuer t hconfig ht h
    have hiff := Engine.considers_iff hconfig ht h relation'
    exact ⟨hiff, fun hno opts active grantee' =>
      Engine.evaluation_without (mt hiff.mp hno) config opts true active grantee'⟩
  · rw [MatchesLabels, LabelPath.matches_exact_iff hp hr, String.toList_inj]
  · have hstar : (p ++ ":*").toList = p.toList ++ [':', '*'] := String.toList_append
    have hcolon : (p ++ ":").toList = p.toList ++ [':'] := String.toList_append
    rw [MatchesLabels, hstar, hcolon, LabelPath.matches_below_iff (by decide) hr,
      String.toList_inj]

/-! ## Under the null salt -/

def nullHasher : NamespaceHasher := ⟨Blob.fill 32 0⟩

/-- HMAC-SHA256 under the null salt, for a few labels. -/
def nullHmac16 : Hmac16 := fun _ message =>
  if message = utf8 "sensor" then
    ⟨[252, 32, 136, 178, 38, 70, 90, 184, 191, 85, 201, 48, 78, 225, 48, 228], rfl⟩
  else if message = utf8 "sensory" then
    ⟨[241, 245, 11, 252, 147, 255, 107, 150, 216, 167, 168, 89, 235, 243, 110, 158], rfl⟩
  else if message = utf8 "wind" then
    ⟨[243, 32, 102, 182, 106, 42, 7, 118, 117, 238, 136, 37, 105, 101, 49, 249], rfl⟩
  else if message = utf8 "read" then
    ⟨[31, 39, 57, 137, 82, 12, 30, 24, 187, 42, 131, 252, 51, 71, 195, 48], rfl⟩
  else Blob.fill 16 0

def sensorTuple : Tuple where
  relationHash := nullHmac16 (Blob.fill 32 0) (utf8 "read")
  objectHashes := [nullHmac16 (Blob.fill 32 0) (utf8 "sensor")]
  wildcard := true
  grantee := Blob.fill 16 1
  issuer := Blob.fill 16 2
  segments_le := Nat.le_of_ble_eq_true rfl

def nullConfig : Config where
  rootTrustAnchors := [Blob.fill 16 2]
  primarySalt := Blob.fill 32 0
  legacySalts := []
  authoritativeIdentity := none
  anchors_ne := List.cons_ne_nil _ _
  legacy_le := Nat.zero_le _

/-- `sensor:*` covers `sensor:wind` and leaves its sibling `sensory` alone. -/
theorem matching_by_label_sensor :
    (covers (nullHasher.hashObject nullHmac16 "sensor:*").hashes true
        (nullHasher.hashObject nullHmac16 "sensor:wind").hashes = true) ∧
      (coversByIndex (Cpp.hashObject nullHmac16 nullHasher (utf8 "sensor:*")).hashes true
        (Cpp.hashObject nullHmac16 nullHasher (utf8 "sensory")).hashes = false) ∧
      ¬ Engine.Considers sensorTuple
        (nullConfig.hashers.map (Engine.hypothesis nullHmac16 "sensory" "read")) ∧
      (Engine.evaluation nullConfig {} true [sensorTuple] (Blob.fill 16 1)
        (nullConfig.hashers.map (Engine.hypothesis nullHmac16 "sensor:wind" "read"))).1 = .allow ∧
      ¬ MatchesLabels ("sensor" ++ ":*") "sensory" := by
  obtain ⟨hjs, hcpp, hengine, hcounts, hbelow, -⟩ := matching_by_label nullHmac16 nullHasher
  refine ⟨(hjs "sensor:*" "sensor:wind" (by decide)).2.mpr (by decide), ?_, ?_, ?_, ?_⟩
  · exact Bool.eq_false_iff.mpr
      (mt (hcpp (utf8 "sensor:*") (utf8 "sensory") (by decide)).mp (by decide))
  · exact mt (hengine nullConfig "sensor:*" "read" "sensory" "read" _ _ sensorTuple
      (List.mem_cons_self) rfl (by decide)).1.mp (by decide)
  · exact ((hcounts nullConfig "sensor:*" "read" "sensor:wind" _ _ sensorTuple [sensorTuple]
      List.mem_cons_self (by decide) List.mem_cons_self).1 rfl (by decide)).2 {} (by decide)
        (by decide) (by decide)
  · exact mt (hbelow "sensor" "sensory" (by decide)).2.mp (by decide)

end Dacar

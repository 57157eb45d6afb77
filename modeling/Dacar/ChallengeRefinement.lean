import Dacar.ChallengeProtocol
import Dacar.EngineInterference

/-!
# The challenge against the local evaluation

The Authority evaluates a challenge on hypotheses it binds to its salts by their tags,
its own engine evaluates a request on hypotheses it hashes from plaintext.  For a client
with the same salts the two lists are the same up to order, and the votes they read off
the active tuples are the same list.
-/

namespace Dacar

open VoteSearch

/-! ## Binding entries to salts -/

section Binding

variable (hmac16 : Hmac16)

/-- `byTag` of `buildHypotheses`. -/
def hashersByTag (hashers : List NamespaceHasher) : OrderedMap Hash NamespaceHasher :=
  hashers.foldl (fun m hasher => m.upsert (hasher.idTag hmac16) fun _ => hasher) .empty

/-- No other configured salt has the tag of one of these. -/
def TagsTell (config : Config) (hashers : List NamespaceHasher) : Prop :=
  ∀ h ∈ hashers, ∀ h' ∈ config.hashers, h.idTag hmac16 = h'.idTag hmac16 → h = h'

variable {hmac16}

theorem get?_hashersByTag_concat (hashers : List NamespaceHasher) (h : NamespaceHasher)
    (tag : Hash) :
    (hashersByTag hmac16 (hashers ++ [h])).get? tag =
      if tag = h.idTag hmac16 then some h else (hashersByTag hmac16 hashers).get? tag := by
  rw [hashersByTag, List.foldl_append, ← hashersByTag, List.foldl_cons, List.foldl_nil,
    OrderedMap.get?_upsert]

/-- A tag leads to the one salt that has it, if any. -/
theorem get?_hashersByTag {hashers : List NamespaceHasher} {h : NamespaceHasher}
    (htags : ∀ h' ∈ hashers, h.idTag hmac16 = h'.idTag hmac16 → h = h') :
    (hashersByTag hmac16 hashers).get? (h.idTag hmac16) = if h ∈ hashers then some h else none := by
  induction hashers using List.reverseRecOn with
  | nil => rfl
  | append_singleton hashers last ih =>
    have hinit := ih fun h' hh' => htags h' (List.mem_append_left _ hh')
    have hlast := htags last (List.mem_append_right _ (List.mem_singleton_self last))
    rw [get?_hashersByTag_concat, hinit]
    by_cases he : h = last
    · simp [he]
    · rw [if_neg fun ht => he (hlast ht)]
      simp [he]

/-- The salts of a client that the Authority knows. -/
def knownHashers (config : Config) (c : Challenge) : List NamespaceHasher :=
  c.hashers.filter fun h => h ∈ config.hashers

/-- The bound hypotheses are those the engine would hash under the known salts itself. -/
theorem buildHypotheses_decoded {config : Config} {c : Challenge}
    (htags : TagsTell hmac16 config c.hashers) :
    buildHypotheses hmac16 config (c.decoded hmac16) =
      (knownHashers config c).map (Engine.hypothesis hmac16 c.object c.relation) := by
  rw [buildHypotheses, ← hashersByTag, Challenge.decoded, knownHashers]
  generalize c.hashers = hashers at htags
  induction hashers with
  | nil => rfl
  | cons h hashers ih =>
    have hrest := ih fun h' hh' => htags h' (List.mem_cons_of_mem h hh')
    have htag : (hashersByTag hmac16 config.hashers).get? (c.entry hmac16 h).saltIdTag =
        if h ∈ config.hashers then some h else none :=
      get?_hashersByTag (htags h List.mem_cons_self)
    by_cases hk : h ∈ config.hashers
    · rw [if_pos hk] at htag
      rw [List.map_cons, List.filterMap_cons, htag, List.filter_cons_of_pos (by simpa using hk),
        List.map_cons, ← hrest]
      rfl
    · rw [if_neg hk] at htag
      rw [List.map_cons, List.filterMap_cons, htag, List.filter_cons_of_neg (by simpa using hk),
        ← hrest]
      rfl

end Binding

/-! ## The votes under a permuted list of hypotheses -/

/-- No hash denies under one hypothesis and allows under another. -/
def Unmixed (hs : List Hypothesis) : Prop :=
  ∀ h ∈ hs, ∀ h' ∈ hs, h.denyRelationHash = h'.allowRelationHash → h = h'

/-- The same of the relation hashes under some salts. -/
def Unambiguous (hmac16 : Hmac16) (hashers : List NamespaceHasher) (relation : String) : Prop :=
  ∀ h ∈ hashers, ∀ h' ∈ hashers,
    h.hashRelation hmac16 ("-" ++ relation) = h'.hashRelation hmac16 relation → h = h'

theorem eq_of_perm_of_forall_eq {α : Type*} {l l' : List α} (hp : l.Perm l')
    (h : ∀ a ∈ l, ∀ b ∈ l, a = b) : l = l' := by
  cases l with
  | nil => exact hp.nil_eq
  | cons a l =>
    have hrep : a :: l = List.replicate (l.length + 1) a :=
      List.eq_replicate_iff.mpr ⟨rfl, fun b hb => h b hb a List.mem_cons_self⟩
    rw [hrep] at hp ⊢
    exact (List.perm_replicate.mp hp.symm).symm

namespace Engine

section Permuted

variable {hs hs' : List Hypothesis} (config : Config) (active : List Tuple)

theorem filterMap_vote_of_perm (hp : hs.Perm hs') (hu : Unmixed hs) (t : Tuple) :
    hs.filterMap (vote t) = hs'.filterMap (vote t) := by
  apply eq_of_perm_of_forall_eq (hp.filterMap _)
  intro v hv w hw
  obtain ⟨h, hh, hv⟩ := List.mem_filterMap.mp hv
  obtain ⟨h', hh', hw⟩ := List.mem_filterMap.mp hw
  unfold vote at hv hw
  split_ifs at hv hw with hcov hd hcov' hd' ha' ha hcov' hd' ha'
  · exact Option.some.inj (hv.symm.trans hw)
  · -- the candidate would deny under `h` and allow under `h'`
    obtain rfl := hu h hh h' hh' (hd.symm.trans ha')
    exact absurd hd hd'
  · obtain rfl := hu h' hh' h hh (hd'.symm.trans ha)
    exact absurd hd' hd
  · exact Option.some.inj (hv.symm.trans hw)

theorem votes_of_perm (hp : hs.Perm hs') (hu : Unmixed hs) (g : Hash) :
    votes active hs g = votes active hs' g := by
  rw [votes, votes]
  congr 1
  funext t
  exact filterMap_vote_of_perm hp hu t

theorem graph_of_perm (hp : hs.Perm hs') (hu : Unmixed (hs.map Hypothesis.admin)) :
    graph config active hs = graph config active hs' := by
  rw [graph, graph]
  congr 1
  funext g
  exact votes_of_perm active (hp.map _) hu g

variable {κ : Type*} [DecidableEq κ] {key : Tuple → κ} (e : Engine key) (grantee : Hash)

/-- The order of the hypotheses does not matter, bounds and memo included. -/
theorem evaluateHashes_of_perm (hp : hs.Perm hs') (hu : Unmixed hs)
    (hadmin : Unmixed (hs.map Hypothesis.admin)) :
    e.evaluateHashes grantee hs = e.evaluateHashes grantee hs' := by
  rw [evaluateHashes_eq, evaluateHashes_eq, search, search, graphOf, graphOf, votesOf, votesOf,
    graph_of_perm e.config _ hp hadmin, votes_of_perm _ hp hu]

/-- Nor do repetitions, as long as the bound holds and the memo misleads neither search. -/
theorem evaluateHashes_of_same (hsame : ∀ h, h ∈ hs ↔ h ∈ hs')
    (hfit : ¬ e.Exceeds true grantee hs) (hfit' : ¬ e.Exceeds true grantee hs')
    (hsafe : e.Unmisled grantee hs) (hsafe' : e.Unmisled grantee hs') :
    e.evaluateHashes grantee hs = e.evaluateHashes grantee hs' := by
  have hvotes {hs hs' : List Hypothesis} (h : ∀ x, x ∈ hs ↔ x ∈ hs') (g : Hash)
      (v : Sign × Hash) (hv : v ∈ votes e.state.activeTuples hs g) :
      v ∈ votes e.state.activeTuples hs' g := by
    obtain ⟨t, ht, hg, x, hx, hw⟩ := mem_votes.mp hv
    exact mem_votes.mpr ⟨t, ht, hg, x, (h x).mp hx, hw⟩
  have hweight {hs hs' : List Hypothesis} (h : ∀ x, x ∈ hs ↔ x ∈ hs') (G : VoteGraph Hash)
      (g : Hash) :
      SameWeight G (votes e.state.activeTuples hs g) (votes e.state.activeTuples hs' g) :=
    ⟨hvotes h g, fun v hv => .inl (hvotes (fun x => (h x).symm) g v hv)⟩
  have hadmin (x : Hypothesis) : x ∈ hs.map Hypothesis.admin ↔ x ∈ hs'.map Hypothesis.admin := by
    simp only [List.mem_map, hsame]
  have hgraph : SameGraph (e.graphOf hs) (e.graphOf hs') :=
    ⟨fun _ => rfl, fun i => hweight hadmin _ i⟩
  rw [MemoHarmless.evaluateHashes_eq_judged (.inl hsafe) hfit,
    MemoHarmless.evaluateHashes_eq_judged (.inl hsafe') hfit']
  exact hgraph.passes_eq (hweight hsame _ grantee)

end Permuted

theorem unmixed_hypotheses {hmac16 : Hmac16} {hashers : List NamespaceHasher} {relation : String}
    (hu : Unambiguous hmac16 hashers relation) (objectId : String) :
    Unmixed (hashers.map (hypothesis hmac16 objectId relation)) := by
  intro x hx x' hx' heq
  obtain ⟨h, hh, rfl⟩ := List.mem_map.mp hx
  obtain ⟨h', hh', rfl⟩ := List.mem_map.mp hx'
  rw [hu h hh h' hh' heq]

theorem unmixed_admin {hmac16 : Hmac16} {hashers : List NamespaceHasher}
    (hu : Unambiguous hmac16 hashers adminRelation) (objectId relation : String) :
    Unmixed ((hashers.map (hypothesis hmac16 objectId relation)).map Hypothesis.admin) := by
  intro x hx x' hx' heq
  obtain ⟨_, hy, rfl⟩ := List.mem_map.mp hx
  obtain ⟨_, hy', rfl⟩ := List.mem_map.mp hx'
  obtain ⟨h, hh, rfl⟩ := List.mem_map.mp hy
  obtain ⟨h', hh', rfl⟩ := List.mem_map.mp hy'
  rw [hu h hh h' hh' heq]

theorem evaluateHashes_nil {κ : Type*} [DecidableEq κ] {key : Tuple → κ} (e : Engine key)
    (grantee : Hash) : e.evaluateHashes grantee [] = false := by
  have hvotes : e.votesOf grantee [] = [] := by simp [votesOf, votes]
  rw [evaluateHashes_eq, search, hvotes, run, VoteSearch.resolve]
  split_ifs <;> rfl

end Engine

/-! ## The Authority's answer -/

section Answer

variable {κ : Type*} [DecidableEq κ] {key : Tuple → κ}

/-- `handle` answers the client's payload with a signed ALLOW. -/
def Deployment.SignsAllow (D : Deployment) (state : StateVector key) (clock : Clock) (phys : ℕ)
    (c : Challenge) : Prop :=
  ∃ receipt, receipt.verdict = .allow ∧
    (answer D.hmac16 D.decode D.sign D.config state clock phys
      (c.toPayload D.hmac16 D.encode)).1 = .ok receipt ∧
    (handle D.hmac16 D.decode D.sign D.encode D.config state clock phys
      (c.toPayload D.hmac16 D.encode)).1 = receipt.toPayload D.encode

variable {D : Deployment} {state : StateVector key} {clock : Clock} {phys : ℕ} {c : Challenge}

theorem answer_of_codec
    (hcodec : D.decode (c.toPayload D.hmac16 D.encode) = .ok (c.toValue D.hmac16)) :
    DecodedChallenge.fromPayload D.decode (c.toPayload D.hmac16 D.encode) =
      .ok (c.decoded D.hmac16) := by
  rw [DecodedChallenge.fromPayload, hcodec]
  exact c.fromValue_toValue D.hmac16

/-- It signs whenever its clock has a reading, and signs ALLOW when it allows. -/
theorem signsAllow_iff
    (hcodec : D.decode (c.toPayload D.hmac16 D.encode) = .ok (c.toValue D.hmac16)) :
    D.SignsAllow state clock phys c ↔
      (clock.now phys).1.isSome = true ∧
        allowed D.hmac16 D.config state (c.decoded D.hmac16) = true := by
  have hread := answer_of_codec hcodec
  constructor
  · rintro ⟨receipt, hallow, hanswer, -⟩
    obtain ⟨decoded, hd, -, hverdict⟩ := answer_eq_ok (Prod.ext hanswer rfl)
    obtain rfl := Except.ok.inj (hread.symm.trans hd)
    refine ⟨?_, verdictOf_eq_allow (hverdict.symm.trans hallow)⟩
    unfold answer at hanswer
    rw [hread] at hanswer
    dsimp only at hanswer
    split at hanswer
    · cases hanswer
    · next serverHlc h => rw [h, Option.isSome_some]
  · rintro ⟨hclock, hallow⟩
    obtain ⟨serverHlc, hnow⟩ := Option.isSome_iff_exists.mp hclock
    have hanswer : ∃ receipt : Receipt, receipt.verdict = .allow ∧
        (answer D.hmac16 D.decode D.sign D.config state clock phys
          (c.toPayload D.hmac16 D.encode)).1 = .ok receipt := by
      unfold answer
      rw [hread]
      dsimp only
      rw [hallow]
      split
      · next h => cases hnow.symm.trans h
      · exact ⟨_, rfl, rfl⟩
    obtain ⟨receipt, hverdict, hanswer⟩ := hanswer
    refine ⟨receipt, hverdict, hanswer, ?_⟩
    rw [handle]
    dsimp only
    rw [hanswer]
    rfl

/-- The request hashed under some salts. -/
def Challenge.hypotheses (hmac16 : Hmac16) (c : Challenge) (hashers : List NamespaceHasher) :
    List Hypothesis :=
  hashers.map (Engine.hypothesis hmac16 c.object c.relation)

/-- `Engine(config, state)` of the Authority. -/
def Deployment.engine (D : Deployment) (state : StateVector key) : Engine key :=
  ⟨D.config, state, {}⟩

/-- The challenge is answered as the Authority's engine evaluates the request; no answer is
signed without a reading of its clock. -/
def Deployment.AnswersAsEngine (D : Deployment) (state : StateVector key) (clock : Clock)
    (phys : ℕ) (c : Challenge) : Prop :=
  D.SignsAllow state clock phys c ↔
    (clock.now phys).1.isSome = true ∧
      (D.engine state).evaluate D.hmac16 c.object c.relation c.grantee = true

/-- Under both lists of salts the evaluation stays within the bound and is not misled by its
memo. -/
structure Deployment.Settled (D : Deployment) (state : StateVector key) (c : Challenge) : Prop where
  local_fits : ¬ (D.engine state).Exceeds true c.grantee (c.hypotheses D.hmac16 D.config.hashers)
  remote_fits : ¬ (D.engine state).Exceeds true c.grantee
    (c.hypotheses D.hmac16 (knownHashers D.config c))
  local_unmisled : (D.engine state).Unmisled c.grantee (c.hypotheses D.hmac16 D.config.hashers)
  remote_unmisled : (D.engine state).Unmisled c.grantee
    (c.hypotheses D.hmac16 (knownHashers D.config c))

theorem allowed_decoded (htags : TagsTell D.hmac16 D.config c.hashers) :
    allowed D.hmac16 D.config state (c.decoded D.hmac16) =
      (D.engine state).evaluateHashes c.grantee
        (c.hypotheses D.hmac16 (knownHashers D.config c)) := by
  rw [allowed, buildHypotheses_decoded htags, ← Challenge.hypotheses]
  cases h : c.hypotheses D.hmac16 (knownHashers D.config c) with
  | nil => exact (Engine.evaluateHashes_nil _ _).symm
  | cons x xs => rfl

end Answer

/-- Two requests that differ in the nonce and in the client's salts only. -/
structure Challenge.SameRequest (c c' : Challenge) : Prop where
  object : c.object = c'.object
  relation : c.relation = c'.relation
  grantee : c.grantee = c'.grantee

/-- A challenge is answered as the Authority's own engine would answer the request: by a
client that lists the Authority's salts in any order, and also by one that repeats some of
them if that is settled.  Salts the Authority does not know make no difference. -/
theorem challenge_refines_evaluate {κ : Type*} [DecidableEq κ] {key : Tuple → κ}
    (D : Deployment) (state : StateVector key) (clock : Clock) (phys : ℕ) (c : Challenge)
    (hcodec : D.decode (c.toPayload D.hmac16 D.encode) = .ok (c.toValue D.hmac16))
    (htags : TagsTell D.hmac16 D.config c.hashers) :
    ((knownHashers D.config c).Perm D.config.hashers →
      Unambiguous D.hmac16 D.config.hashers c.relation →
      Unambiguous D.hmac16 D.config.hashers adminRelation →
      D.AnswersAsEngine state clock phys c) ∧
    ((∀ h ∈ D.config.hashers, h ∈ c.hashers) → D.Settled state c →
      D.AnswersAsEngine state clock phys c) ∧
    ∀ c', c.SameRequest c' →
      D.decode (c'.toPayload D.hmac16 D.encode) = .ok (c'.toValue D.hmac16) →
      TagsTell D.hmac16 D.config c'.hashers → knownHashers D.config c = knownHashers D.config c' →
      (D.SignsAllow state clock phys c ↔ D.SignsAllow state clock phys c') := by
  have hsigns : D.SignsAllow state clock phys c ↔ (clock.now phys).1.isSome = true ∧
      (D.engine state).evaluateHashes c.grantee
        (c.hypotheses D.hmac16 (knownHashers D.config c)) = true := by
    rw [signsAllow_iff hcodec, allowed_decoded htags]
  refine ⟨fun hperm hrelation hadmin => ?_, fun hall hsettled => ?_, ?_⟩
  · have hsame := (D.engine state).evaluateHashes_of_perm c.grantee
      (hperm.symm.map (Engine.hypothesis D.hmac16 c.object c.relation))
      (Engine.unmixed_hypotheses hrelation _) (Engine.unmixed_admin hadmin _ _)
    rw [Deployment.AnswersAsEngine, hsigns, Challenge.hypotheses, ← hsame]
    rfl
  · have hmem (h : NamespaceHasher) : h ∈ D.config.hashers ↔ h ∈ knownHashers D.config c := by
      simpa [knownHashers] using hall h
    have hsame := (D.engine state).evaluateHashes_of_same c.grantee
      (fun x => by simp only [Challenge.hypotheses, List.mem_map, hmem]) hsettled.remote_fits
      hsettled.local_fits hsettled.remote_unmisled hsettled.local_unmisled
    rw [Deployment.AnswersAsEngine, hsigns, hsame]
    rfl
  · intro c' hrequest hcodec' htags' hknown
    rw [hsigns, signsAllow_iff hcodec', allowed_decoded htags', hknown, Challenge.hypotheses,
      Challenge.hypotheses, hrequest.object, hrequest.relation, hrequest.grantee]

/-! ## Salts in another order, and a salt listed twice -/

section Clients

/-- The salt's first byte and then the label, in 16 bytes. -/
def labelHash : Hmac16 := fun salt label =>
  ⟨(salt.val.take 1 ++ label ++ List.replicate 16 0).take 16, by simp; omega⟩

def hasher (b : UInt8) : NamespaceHasher := ⟨Blob.fill 32 b⟩

/-- Identity 0 is the anchor and the Authority, with these legacy salts beside salt 0. -/
def salted (legacySalts : List Salt) (h : legacySalts.length ≤ maxLegacySalts) : Deployment where
  hmac16 := labelHash
  encode := pack
  decode := unpackAll
  ed25519 key m sig := decide (key = Blob.fill 32 0) && decide (sig = padded m)
  config := { Engine.sceneConfig with legacySalts := legacySalts, legacy_le := h }
  sign := padded
  publicKey := Blob.fill 64 0

/-- Whether identity 1 may `open` everything, asked under these salts. -/
def asking (hashers : List NamespaceHasher) (h : hashers ≠ []) : Challenge where
  object := "*"
  relation := "open"
  grantee := Engine.identity 1
  nonce := Blob.fill 32 7
  hashers := hashers
  hashers_ne := h

def labelled (issuer grantee : UInt8) (relation : String) : Tuple :=
  Engine.permit issuer grantee ((hasher 0).hashRelation labelHash relation)

/-- Identity 1 is allowed by the end of a chain of admins that begins with 9.  Issuer 10
vouches for 9 and is three steps from the anchor; so does 13, whom the anchor denies, through
the last of the three. -/
def longChain : List Tuple :=
  labelled 2 1 "open" ::
    ((List.range 7).map fun n => labelled (UInt8.ofNat (n + 3)) (UInt8.ofNat (n + 2)) "admin") ++
    [labelled 10 9 "admin", labelled 11 10 "admin", labelled 12 11 "admin", labelled 0 12 "admin",
      labelled 13 9 "admin", labelled 12 13 "admin", labelled 0 13 "-admin"]

def oneSalt : Deployment := salted [] (Nat.zero_le _)

def repeating : Challenge := asking [hasher 0, hasher 0] (by simp)

set_option maxRecDepth 4000 in
theorem repeating_codec : oneSalt.decode (repeating.toPayload oneSalt.hmac16 oneSalt.encode) =
    .ok (repeating.toValue oneSalt.hmac16) := by
  rfl

/-- A client with the Authority's one salt listed twice is told ALLOW where the engine denies,
well within the bound: asked about 9 again, it finds the last of the three steps in the
memo. -/
theorem repeated_salt_allows :
    (∀ h, h ∈ repeating.hashers ↔ h ∈ oneSalt.config.hashers) ∧
      oneSalt.decode (repeating.toPayload oneSalt.hmac16 oneSalt.encode) =
        .ok (repeating.toValue oneSalt.hmac16) ∧
      (∀ hashers ∈ [repeating.hashers, oneSalt.config.hashers],
        ¬ (oneSalt.engine (Engine.granted longChain)).Exceeds true repeating.grantee
          (repeating.hypotheses oneSalt.hmac16 hashers)) ∧
      oneSalt.SignsAllow (Engine.granted longChain) {} 1 repeating ∧
      (oneSalt.engine (Engine.granted longChain)).evaluate oneSalt.hmac16 repeating.object
        repeating.relation repeating.grantee = false := by
  refine ⟨fun h => ?_, repeating_codec, ?_, ?_, ?_⟩
  · simp [repeating, asking, oneSalt, salted, Config.hashers, Engine.sceneConfig, hasher]
  · decide +kernel
  · rw [signsAllow_iff repeating_codec]
    decide +kernel
  · decide +kernel

def twoSalts : Deployment := salted [Blob.fill 32 1] (by decide)

/-- The Authority's salts in the other order, around one it does not know. -/
def reordering : Challenge := asking [hasher 1, hasher 9, hasher 0] (by simp)

/-- The same with a salt repeated. -/
def reorderingTwice : Challenge := asking [hasher 1, hasher 9, hasher 0, hasher 1] (by simp)

set_option maxRecDepth 4000 in
theorem reordering_codec :
    twoSalts.decode (reordering.toPayload twoSalts.hmac16 twoSalts.encode) =
      .ok (reordering.toValue twoSalts.hmac16) := by
  rfl

set_option maxRecDepth 4000 in
theorem reorderingTwice_codec :
    twoSalts.decode (reorderingTwice.toPayload twoSalts.hmac16 twoSalts.encode) =
      .ok (reorderingTwice.toValue twoSalts.hmac16) := by
  rfl

theorem reordered_salts_answered :
    twoSalts.AnswersAsEngine (Engine.granted [labelled 0 1 "open"]) {} 1 reordering ∧
      twoSalts.AnswersAsEngine (Engine.granted [labelled 0 1 "open"]) {} 1 reorderingTwice := by
  constructor
  · refine (challenge_refines_evaluate twoSalts (Engine.granted [labelled 0 1 "open"]) {} 1
      reordering reordering_codec ?_).1 ?_ ?_ ?_
    · unfold TagsTell
      decide +kernel
    · decide +kernel
    · unfold Unambiguous
      decide +kernel
    · unfold Unambiguous
      decide +kernel
  · refine (challenge_refines_evaluate twoSalts (Engine.granted [labelled 0 1 "open"]) {} 1
      reorderingTwice reorderingTwice_codec ?_).2.1 ?_
      ⟨?_, ?_, .inr ?_, .inr ?_⟩
    · unfold TagsTell
      decide +kernel
    · decide +kernel
    · decide +kernel
    · decide +kernel
    · decide +kernel
    · decide +kernel

end Clients

end Dacar

import Dacar.EngineGraph

/-!
# The C++ engine

The C++ engine compares byte strings, so the object of a request may have segments that are
no hashes, and its memo is keyed by one packed byte string.  It is the same search over votes
all the same, and on segments of 16 bytes over the same votes.
-/

namespace Dacar.Cpp

open VoteSearch

structure Hypothesis where
  hasher : NamespaceHasher
  objectHashes : List Bytes
  allowRelationHash : Hash
  denyRelationHash : Hash

def covers (tupleHashes : List Hash) (wildcard : Bool) (requestHashes : List Bytes) : Bool :=
  if wildcard then
    if tupleHashes.length > requestHashes.length then false
    else tupleHashes.map Subtype.val == requestHashes.take tupleHashes.length
  else tupleHashes.map Subtype.val == requestHashes

namespace Engine

open Dacar.Engine (Flags Options granteeIndex)

structure Memory where
  memo : List Bytes
  counter : ℕ

section Resolve

variable (authority : Hash → Memory → Bool × Memory)

/-- The inner loop of `resolve`. -/
def scanHypotheses (candidate : Tuple) : List Hypothesis → Flags → Memory → Flags × Memory
  | [], f, m => (f, m)
  | hyp :: hyps, f, m =>
    if candidate.relationHash = hyp.denyRelationHash then
      if covers candidate.objectHashes candidate.wildcard hyp.objectHashes then
        let r := authority candidate.issuer m
        scanHypotheses candidate hyps { f with denyValid := f.denyValid || r.1 } r.2
      else scanHypotheses candidate hyps f m
    else if candidate.relationHash = hyp.allowRelationHash then
      if covers candidate.objectHashes candidate.wildcard hyp.objectHashes then
        let r := authority candidate.issuer m
        scanHypotheses candidate hyps { f with allowValid := f.allowValid || r.1 } r.2
      else scanHypotheses candidate hyps f m
    else scanHypotheses candidate hyps f m

/-- The outer loop of `resolve`. -/
def scanCandidates (hyps : List Hypothesis) : List Tuple → Flags → Memory → Flags × Memory
  | [], f, m => (f, m)
  | candidate :: candidates, f, m =>
    let r := scanHypotheses authority candidate hyps f m
    scanCandidates hyps candidates r.1 r.2

def resolve (maxVisited : ℕ) (index : OrderedMap Hash (List Tuple)) (hyps : List Hypothesis)
    (grantee : Hash) (m : Memory) : Resolution × Memory :=
  let m := { m with counter := m.counter + 1 }
  if m.counter > maxVisited then (.none, m)
  else
    let r := scanCandidates authority hyps ((index.get? grantee).getD []) ⟨false, false⟩ m
    (r.1.resolution, r.2)

end Resolve

variable (hmac16 : Hmac16)

/-- The question whether an issuer may delegate, its hashes computed on the spot. -/
def admin (hyp : Hypothesis) : Hypothesis :=
  { hyp with
    allowRelationHash := hyp.hasher.hashRelation hmac16 adminRelation
    denyRelationHash := hyp.hasher.hashRelation hmac16 ("-" ++ adminRelation) }

/-- What `memo_key` appends to the issuer; the count is one byte. -/
def objectKey (hyps : List Hypothesis) : Bytes :=
  hyps.flatMap fun hyp => (hyp.hasher.idTag hmac16).val ++
    UInt8.ofNat hyp.objectHashes.length :: hyp.objectHashes.flatten

def memoKey (issuer : Hash) (hyps : List Hypothesis) : Bytes := issuer.val ++ objectKey hmac16 hyps

/-- `hops` counts what is left of `_max_depth`. -/
def authority (config : Config) (opts : Options) (index : OrderedMap Hash (List Tuple)) :
    ℕ → List Hypothesis → List Hash → Hash → Memory → Bool × Memory
  | 0, hyps, _, issuer, m =>
    if config.isRootAnchor issuer then (true, m)
    else if m.memo.contains (memoKey hmac16 issuer hyps) then (true, m)
    else (false, m)
  | hops + 1, hyps, visited, issuer, m =>
    if config.isRootAnchor issuer then (true, m)
    else if m.memo.contains (memoKey hmac16 issuer hyps) then (true, m)
    else if visited.contains issuer then (false, m)
    else
      let adminHyps := hyps.map (admin hmac16)
      let r := resolve (authority config opts index hops adminHyps (issuer :: visited))
        opts.maxVisited index adminHyps issuer m
      if r.1 = .allow then (true, { r.2 with memo := memoKey hmac16 issuer hyps :: r.2.memo })
      else (false, r.2)

def evaluation (config : Config) (opts : Options) (active : List Tuple) (grantee : Hash)
    (hyps : List Hypothesis) : Resolution × Memory :=
  let index := granteeIndex active
  resolve (authority hmac16 config opts index opts.maxDepth hyps []) opts.maxVisited index hyps
    grantee ⟨[], 0⟩

/-- `evaluate_hashes` -/
def evaluateHashes (config : Config) (opts : Options) (active : List Tuple) (grantee : Hash)
    (hyps : List Hypothesis) : Bool :=
  decide ((evaluation hmac16 config opts active grantee hyps).1 = .allow)

/-! ## The votes it reads -/

def vote (candidate : Tuple) (hyp : Hypothesis) : Option (Sign × Hash) :=
  if covers candidate.objectHashes candidate.wildcard hyp.objectHashes then
    if candidate.relationHash = hyp.denyRelationHash then some (.deny, candidate.issuer)
    else if candidate.relationHash = hyp.allowRelationHash then some (.allow, candidate.issuer)
    else none
  else none

def votes (active : List Tuple) (hyps : List Hypothesis) (grantee : Hash) : List (Sign × Hash) :=
  (active.filter fun t => t.grantee = grantee).flatMap fun t => hyps.filterMap (vote t)

def graph (config : Config) (active : List Tuple) (hyps : List Hypothesis) : VoteGraph Hash where
  root := config.isRootAnchor
  votes := votes active (hyps.map (admin hmac16))

/-- The engine's memory, all of whose keys end alike. -/
def toMemory (K : Bytes) (m : Mem Hash) : Memory := ⟨m.memo.map fun i => i.val ++ K, m.counter⟩

open Dacar.Engine (toFlags toResolution resolution_toFlags toResolution_eq_allow settings
  get?_granteeIndex)

section Refinement

variable {K : Bytes} {auth : Hash → Mem Hash → Bool × Mem Hash}
  {authority' : Hash → Memory → Bool × Memory}

theorem scanHypotheses_eq
    (hauth : ∀ i m, authority' i (toMemory K m) = ((auth i m).1, toMemory K (auth i m).2))
    (candidate : Tuple) (hyps : List Hypothesis) (t : Tally) (m : Mem Hash) :
    scanHypotheses authority' candidate hyps (toFlags t) (toMemory K m) =
      (toFlags (scan auth (hyps.filterMap (vote candidate)) t m).1,
        toMemory K (scan auth (hyps.filterMap (vote candidate)) t m).2) := by
  induction hyps generalizing t m with
  | nil => rfl
  | cons hyp hyps ih =>
    rw [scanHypotheses]
    by_cases hcov : covers candidate.objectHashes candidate.wildcard hyp.objectHashes = true
    · by_cases hd : candidate.relationHash = hyp.denyRelationHash
      · have hvote : vote candidate hyp = some (.deny, candidate.issuer) := by
          rw [vote, if_pos hcov, if_pos hd]
        rw [if_pos hd, if_pos hcov, List.filterMap_cons_some hvote, hauth]
        exact ih (t.add .deny (auth candidate.issuer m).1) _
      · by_cases ha : candidate.relationHash = hyp.allowRelationHash
        · have hvote : vote candidate hyp = some (.allow, candidate.issuer) := by
            rw [vote, if_pos hcov, if_neg hd, if_pos ha]
          rw [if_neg hd, if_pos ha, if_pos hcov, List.filterMap_cons_some hvote, hauth]
          exact ih (t.add .allow (auth candidate.issuer m).1) _
        · have hvote : vote candidate hyp = none := by
            rw [vote, if_pos hcov, if_neg hd, if_neg ha]
          rw [if_neg hd, if_neg ha, List.filterMap_cons_none hvote]
          exact ih t m
    · have hvote : vote candidate hyp = none := by rw [vote, if_neg hcov]
      rw [if_neg hcov, if_neg hcov, List.filterMap_cons_none hvote]
      simp only [ite_self]
      exact ih t m

theorem scanCandidates_eq
    (hauth : ∀ i m, authority' i (toMemory K m) = ((auth i m).1, toMemory K (auth i m).2))
    (hyps : List Hypothesis) (candidates : List Tuple) (t : Tally) (m : Mem Hash) :
    scanCandidates authority' hyps candidates (toFlags t) (toMemory K m) =
      (toFlags (scan auth (candidates.flatMap fun c => hyps.filterMap (vote c)) t m).1,
        toMemory K (scan auth (candidates.flatMap fun c => hyps.filterMap (vote c)) t m).2) := by
  induction candidates generalizing t m with
  | nil => rfl
  | cons c candidates ih =>
    rw [scanCandidates, List.flatMap_cons, scan_append]
    simp only [scanHypotheses_eq hauth]
    exact ih _ _

theorem resolve_eq
    (hauth : ∀ i m, authority' i (toMemory K m) = ((auth i m).1, toMemory K (auth i m).2))
    (maxVisited : ℕ) (active : List Tuple) (hyps : List Hypothesis) (grantee : Hash)
    (m : Mem Hash) :
    resolve authority' maxVisited (granteeIndex active) hyps grantee (toMemory K m) =
      (toResolution (VoteSearch.resolve maxVisited auth (votes active hyps grantee) m).1,
        toMemory K (VoteSearch.resolve maxVisited auth (votes active hyps grantee) m).2) := by
  unfold resolve VoteSearch.resolve
  by_cases h : maxVisited < m.tick.counter
  · rw [if_pos h, if_pos (show (toMemory K m).counter + 1 > maxVisited from h)]
    rfl
  · rw [if_neg h, if_neg (show ¬ (toMemory K m).counter + 1 > maxVisited from h),
      get?_granteeIndex]
    have hscan := scanCandidates_eq hauth hyps (active.filter fun t => t.grantee = grantee)
      .empty m.tick
    change ((scanCandidates authority' hyps _ (toFlags .empty) (toMemory K m.tick)).1.resolution,
      (scanCandidates authority' hyps _ (toFlags .empty) (toMemory K m.tick)).2) = _
    rw [hscan]
    exact Prod.ext (resolution_toFlags _) rfl

variable {hmac16}

theorem objectKey_admin (hyps : List Hypothesis) :
    objectKey hmac16 (hyps.map (admin hmac16)) = objectKey hmac16 hyps := by
  rw [objectKey, List.flatMap_map]
  rfl

theorem admin_admin (hyps : List Hypothesis) :
    (hyps.map (admin hmac16)).map (admin hmac16) = hyps.map (admin hmac16) := by
  rw [List.map_map]
  rfl

/-- The keys of one evaluation differ in the issuer only. -/
theorem memoKey_mem {hyps : List Hypothesis} (hkey : objectKey hmac16 hyps = K) (m : Mem Hash)
    (i : Hash) : (toMemory K m).memo.contains (memoKey hmac16 i hyps) = true ↔ i ∈ m.memo := by
  rw [List.contains_iff_mem, memoKey, hkey, toMemory]
  constructor
  · intro h
    obtain ⟨j, hj, he⟩ := List.mem_map.mp h
    rwa [← Subtype.ext (List.append_cancel_right he)]
  · intro h
    exact List.mem_map.mpr ⟨i, h, rfl⟩

variable (config : Config) (opts : Options) (active : List Tuple) (hypotheses : List Hypothesis)

theorem settle_toMemory {hyps : List Hypothesis} (hkey : objectKey hmac16 hyps = K) (i : Hash)
    (r : Decision × Mem Hash) :
    (if r.1 = .allow then
      (true, { toMemory K r.2 with memo := memoKey hmac16 i hyps :: (toMemory K r.2).memo })
      else (false, toMemory K r.2)) =
    ((settle (settings opts true) i r).1, toMemory K (settle (settings opts true) i r).2) := by
  unfold settle
  by_cases h : r.1 = .allow
  · rw [if_pos h, if_pos h, memoKey, hkey]
    rfl
  · rw [if_neg h, if_neg h]

theorem authority_eq {hyps : List Hypothesis}
    (hadmin : hyps.map (admin hmac16) = hypotheses.map (admin hmac16))
    (hkey : objectKey hmac16 hyps = K) (hops : ℕ) (visited : List Hash) (i : Hash) (m : Mem Hash) :
    authority hmac16 config opts (granteeIndex active) hops hyps visited i (toMemory K m) =
      ((VoteSearch.authority (graph hmac16 config active hypotheses) (settings opts true) hops
          visited i m).1,
        toMemory K (VoteSearch.authority (graph hmac16 config active hypotheses)
          (settings opts true) hops visited i m).2) := by
  -- root and memo together are the search's `known`
  have hknown : ∀ {hyps : List Hypothesis} (i : Hash) (m : Mem Hash), objectKey hmac16 hyps = K →
      ∀ x : Bool × Memory,
        (if config.isRootAnchor i then (true, toMemory K m)
          else if (toMemory K m).memo.contains (memoKey hmac16 i hyps) then (true, toMemory K m)
          else x) =
        if known (graph hmac16 config active hypotheses) (settings opts true) m i then
          (true, toMemory K m) else x := by
    intro hyps i m hkey x
    have hroot : (graph hmac16 config active hypotheses).root i = config.isRootAnchor i := rfl
    rw [known, hroot]
    simp only [memoKey_mem hkey]
    cases config.isRootAnchor i with
    | true => rfl
    | false => simp [settings]
  induction hops generalizing hyps visited i m with
  | zero =>
    rw [authority, hknown i m hkey]
    cases hk : known (graph hmac16 config active hypotheses) (settings opts true) m i with
    | true => rw [authority_known hk, if_pos rfl]
    | false => rw [authority_zero hk, if_neg Bool.false_ne_true]
  | succ hops ih =>
    rw [authority, hknown i m hkey]
    cases hk : known (graph hmac16 config active hypotheses) (settings opts true) m i with
    | true => rw [authority_known hk, if_pos rfl]
    | false =>
      rw [if_neg Bool.false_ne_true]
      by_cases hv : i ∈ visited
      · rw [authority_visited hk hv, if_pos (List.contains_iff_mem.mpr hv)]
      · have hrec := resolve_eq (K := K)
          (fun j m => ih ((admin_admin hyps).trans hadmin) ((objectKey_admin hyps).trans hkey)
            (i :: visited) j m) opts.maxVisited active (hyps.map (admin hmac16)) i m
        have hvotes : votes active (hyps.map (admin hmac16)) i =
            (graph hmac16 config active hypotheses).votes i := by
          rw [hadmin]
          rfl
        rw [hvotes] at hrec
        rw [authority_open hk hv, if_neg (mt List.contains_iff_mem.mp hv)]
        simp only [hrec, toResolution_eq_allow]
        exact settle_toMemory opts hkey i _

/-- One C++ evaluation is one search. -/
theorem evaluation_eq (grantee : Hash) :
    evaluation hmac16 config opts active grantee hypotheses =
      (toResolution (run (graph hmac16 config active hypotheses) (settings opts true)
          opts.maxDepth (votes active hypotheses grantee)).1,
        toMemory (objectKey hmac16 hypotheses) (run (graph hmac16 config active hypotheses)
          (settings opts true) opts.maxDepth (votes active hypotheses grantee)).2) :=
  resolve_eq (fun i m => authority_eq config opts active hypotheses rfl rfl opts.maxDepth [] i m)
    opts.maxVisited active hypotheses grantee .fresh

end Refinement

/-! ## Segments of 16 bytes -/

/-- A hypothesis of the other ports. -/
def ofHashes (h : Dacar.Hypothesis) : Hypothesis where
  hasher := h.hasher
  objectHashes := h.objectHashes.map Subtype.val
  allowRelationHash := h.allowRelationHash
  denyRelationHash := h.denyRelationHash

theorem covers_map_val (tupleHashes requestHashes : List Hash) (wildcard : Bool) :
    covers tupleHashes wildcard (requestHashes.map Subtype.val) =
      Dacar.covers tupleHashes wildcard requestHashes := by
  have hbeq : ∀ xs ys : List Hash, (xs.map Subtype.val == ys.map Subtype.val) = (xs == ys) := by
    intro xs ys
    rw [Bool.eq_iff_iff, beq_iff_eq, beq_iff_eq]
    exact List.map_inj_right fun _ _ => Subtype.ext
  unfold covers Dacar.covers
  rw [List.length_map, ← List.map_take, hbeq, hbeq]

theorem vote_ofHashes (t : Tuple) (h : Dacar.Hypothesis) :
    vote t (ofHashes h) = Dacar.Engine.vote t h := by
  unfold vote Dacar.Engine.vote ofHashes
  rw [covers_map_val]

theorem votes_ofHashes (active : List Tuple) (hs : List Dacar.Hypothesis) (grantee : Hash) :
    votes active (hs.map ofHashes) grantee = Dacar.Engine.votes active hs grantee := by
  unfold votes Dacar.Engine.votes
  congr 1
  funext t
  rw [List.filterMap_map]
  exact List.filterMap_congr fun h _ => vote_ofHashes t h

variable {hmac16} in
/-- The admin hashes are the hasher's own, as both ports compute them. -/
theorem map_admin_ofHashes {hs : List Dacar.Hypothesis}
    (hadmin : ∀ h ∈ hs, h.adminAllowHash = h.hasher.hashRelation hmac16 adminRelation ∧
      h.adminDenyHash = h.hasher.hashRelation hmac16 ("-" ++ adminRelation)) :
    (hs.map ofHashes).map (admin hmac16) = (hs.map Dacar.Hypothesis.admin).map ofHashes := by
  rw [List.map_map, List.map_map]
  apply List.map_congr_left
  intro h hh
  obtain ⟨hallow, hdeny⟩ := hadmin h hh
  simp only [Function.comp_apply, ofHashes, admin, Dacar.Hypothesis.admin, hallow, hdeny]

variable {hmac16} in
theorem evaluateHashes_ofHashes (config : Config) (opts : Options) (active : List Tuple)
    (grantee : Hash) {hs : List Dacar.Hypothesis}
    (hadmin : ∀ h ∈ hs, h.adminAllowHash = h.hasher.hashRelation hmac16 adminRelation ∧
      h.adminDenyHash = h.hasher.hashRelation hmac16 ("-" ++ adminRelation)) :
    evaluateHashes hmac16 config opts active grantee (hs.map ofHashes) =
      decide ((Dacar.Engine.evaluation config opts true active grantee hs).1 = .allow) := by
  have hgraph : graph hmac16 config active (hs.map ofHashes) =
      Dacar.Engine.graph config active hs := by
    unfold graph Dacar.Engine.graph
    rw [map_admin_ofHashes hadmin]
    congr 1
    funext i
    exact votes_ofHashes active _ i
  rw [evaluateHashes, evaluation_eq, Dacar.Engine.evaluation_eq, hgraph, votes_ofHashes]

end Engine

end Dacar.Cpp

import Dacar.StateVector

/-!
# The evaluation engine

`evaluateHashes` resolves a pre-hashed request against the active tuples: any valid
deny wins, then any valid allow, then nothing.  A tuple is valid when its issuer's
authority traces back to a Root Trust Anchor through the reserved `admin` relation.
The recursion is bounded in depth, by a set of the issuers on its path and by a step
counter shared across the whole request, and it remembers positive results.
-/

namespace Dacar

def defaultMaxDepth : ℕ := 10
def defaultMaxVisited : ℕ := 50
def adminRelation : String := "admin"
def maxLegacySalts : ℕ := 2

/-- Bootstrap configuration; the fields the engine and the challenge read. -/
structure Config where
  rootTrustAnchors : List Hash
  primarySalt : Salt
  legacySalts : List Salt
  authoritativeIdentity : Option Hash
  anchors_ne : rootTrustAnchors ≠ []
  legacy_le : legacySalts.length ≤ maxLegacySalts

namespace Config

/-- Primary hasher, then the legacy ones in order. -/
def hashers (c : Config) : List NamespaceHasher :=
  ⟨c.primarySalt⟩ :: c.legacySalts.map NamespaceHasher.mk

def isRootAnchor (c : Config) (identityHash : Hash) : Bool :=
  decide (identityHash ∈ c.rootTrustAnchors)

end Config

/-- A request hashed under one salt. -/
structure Hypothesis where
  hasher : NamespaceHasher
  objectHashes : List Hash
  allowRelationHash : Hash
  denyRelationHash : Hash
  adminAllowHash : Hash
  adminDenyHash : Hash
  deriving DecidableEq

/-- The question whether an issuer may delegate on the same object. -/
def Hypothesis.admin (h : Hypothesis) : Hypothesis :=
  { h with allowRelationHash := h.adminAllowHash, denyRelationHash := h.adminDenyHash }

inductive Resolution
  | deny
  | allow
  | none
  deriving DecidableEq

namespace Engine

/-- Active tuples by grantee, each list in insertion order. -/
def granteeIndex (active : List Tuple) : OrderedMap Hash (List Tuple) :=
  active.foldl (fun index t => index.upsert t.grantee fun arr => arr.getD [] ++ [t]) .empty

/-- The object part of a memo key; it is the same in every call of one evaluation. -/
abbrev ObjectKey := List (Salt × List Hash)

def objectKey (hs : List Hypothesis) : ObjectKey := hs.map fun h => (h.hasher.salt, h.objectHashes)

/-- The memo holds the keys mapped to `true`; nothing else is ever stored. -/
structure Memory where
  memo : List (Hash × ObjectKey)
  counter : ℕ
  deriving DecidableEq

structure Options where
  maxDepth : ℕ := defaultMaxDepth
  maxVisited : ℕ := defaultMaxVisited

structure Flags where
  denyValid : Bool
  allowValid : Bool

def Flags.resolution (f : Flags) : Resolution :=
  if f.denyValid then .deny else if f.allowValid then .allow else .none

section Resolve

variable (authority : Hash → Memory → Bool × Memory)

/-- The inner loop: one candidate under every hypothesis. -/
def scanHypotheses (candidate : Tuple) : List Hypothesis → Flags → Memory → Flags × Memory
  | [], f, m => (f, m)
  | h :: hs, f, m =>
    -- the issuer is asked about also when the flag is already up
    if candidate.relationHash = h.denyRelationHash then
      if covers candidate.objectHashes candidate.wildcard h.objectHashes then
        let r := authority candidate.issuer m
        scanHypotheses candidate hs { f with denyValid := f.denyValid || r.1 } r.2
      else scanHypotheses candidate hs f m
    else if candidate.relationHash = h.allowRelationHash then
      if covers candidate.objectHashes candidate.wildcard h.objectHashes then
        let r := authority candidate.issuer m
        scanHypotheses candidate hs { f with allowValid := f.allowValid || r.1 } r.2
      else scanHypotheses candidate hs f m
    else scanHypotheses candidate hs f m

/-- The outer loop. -/
def scanCandidates (hs : List Hypothesis) : List Tuple → Flags → Memory → Flags × Memory
  | [], f, m => (f, m)
  | candidate :: candidates, f, m =>
    let r := scanHypotheses authority candidate hs f m
    scanCandidates hs candidates r.1 r.2

/-- `_resolve`: past the work bound it answers `none` without looking. -/
def resolve (maxVisited : ℕ) (index : OrderedMap Hash (List Tuple)) (hs : List Hypothesis)
    (granteeId : Hash) (m : Memory) : Resolution × Memory :=
  -- every call counts, also the one that is cut off
  let m := { m with counter := m.counter + 1 }
  if m.counter > maxVisited then (.none, m)
  else
    let candidates := (index.get? granteeId).getD []
    let r := scanCandidates authority hs candidates ⟨false, false⟩ m
    (r.1.resolution, r.2)

end Resolve

/-- `authority(issuer, hs, depth, visited)`.  The source counts `depth` up to `maxDepth`;
`hops` counts what is left of it down to zero.  The source always remembers; with
`remember` false it is the same recursion without the memo. -/
def authority (config : Config) (opts : Options) (remember : Bool)
    (index : OrderedMap Hash (List Tuple)) :
    ℕ → List Hypothesis → List Hash → Hash → Memory → Bool × Memory
  | 0, hs, _, issuer, m =>
    -- the depth is looked at after the memo
    if config.isRootAnchor issuer then (true, m)
    else if remember && decide ((issuer, objectKey hs) ∈ m.memo) then (true, m)
    else (false, m)
  | hops + 1, hs, visited, issuer, m =>
    if config.isRootAnchor issuer then (true, m)
    else if remember && decide ((issuer, objectKey hs) ∈ m.memo) then (true, m)
    else if issuer ∈ visited then (false, m)
    else
      let adminHyps := hs.map Hypothesis.admin
      let r := resolve (authority config opts remember index hops adminHyps (issuer :: visited))
        opts.maxVisited index adminHyps issuer m
      if r.1 = .allow then
        (true, if remember then { r.2 with memo := (issuer, objectKey hs) :: r.2.memo } else r.2)
      else (false, r.2)

/-- The top-level `_resolve`, with the memo and the counter it leaves behind. -/
def evaluation (config : Config) (opts : Options) (remember : Bool) (active : List Tuple)
    (grantee : Hash) (hypotheses : List Hypothesis) : Resolution × Memory :=
  let index := granteeIndex active
  resolve (authority config opts remember index opts.maxDepth hypotheses [])
    opts.maxVisited index hypotheses grantee ⟨[], 0⟩

end Engine

/-- An engine over a state whose entries are filed by `key`. -/
structure Engine {κ : Type*} [DecidableEq κ] (key : Tuple → κ) where
  config : Config
  state : StateVector key
  options : Engine.Options

namespace Engine

variable {κ : Type*} [DecidableEq κ] {key : Tuple → κ}

def evaluateHashes (e : Engine key) (grantee : Hash) (hypotheses : List Hypothesis) : Bool :=
  decide
    ((evaluation e.config e.options true e.state.activeTuples grantee hypotheses).1 = .allow)

/-- `evaluateHashes` without its memo. -/
def evaluateUnmemoised (e : Engine key) (grantee : Hash) (hypotheses : List Hypothesis) : Bool :=
  decide
    ((evaluation e.config e.options false e.state.activeTuples grantee hypotheses).1 = .allow)

/-- Some call was cut off by the work bound. -/
def Exceeds (e : Engine key) (remember : Bool) (grantee : Hash) (hypotheses : List Hypothesis) :
    Prop :=
  e.options.maxVisited <
    (evaluation e.config e.options remember e.state.activeTuples grantee hypotheses).2.counter

instance (e : Engine key) (remember : Bool) (grantee : Hash) (hypotheses : List Hypothesis) :
    Decidable (e.Exceeds remember grantee hypotheses) :=
  inferInstanceAs (Decidable (_ < _))

/-- Hash a plaintext request under one salt. -/
def hypothesis (hmac16 : Hmac16) (objectId relation : String) (hasher : NamespaceHasher) :
    Hypothesis where
  hasher := hasher
  objectHashes := (hasher.hashObject hmac16 objectId).hashes
  allowRelationHash := hasher.hashRelation hmac16 relation
  denyRelationHash := hasher.hashRelation hmac16 ("-" ++ relation)
  adminAllowHash := hasher.hashRelation hmac16 adminRelation
  adminDenyHash := hasher.hashRelation hmac16 ("-" ++ adminRelation)

def evaluate (hmac16 : Hmac16) (e : Engine key) (objectId relation : String) (grantee : Hash) :
    Bool :=
  e.evaluateHashes grantee (e.config.hashers.map (hypothesis hmac16 objectId relation))

end Engine

end Dacar

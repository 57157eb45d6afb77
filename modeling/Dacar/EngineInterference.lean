import Dacar.EngineGraph

/-!
# What other tuples can do to a verdict

Tuples by issuers without authority, and the order in which tuples reached the node,
are compared through the search: neither changes a verdict while the work bound
holds and the memo cannot mislead.
-/

namespace Dacar.Engine

open VoteSearch

variable {κ : Type*} [DecidableEq κ] {key : Tuple → κ}

/-! ## Outsiders -/

section Outsiders

variable {config : Config} {active active' : List Tuple} {hs : List Hypothesis} {J : List Tuple}

/-- The issuers of these tuples. -/
def Issuers (J : List Tuple) (i : Hash) : Prop := ∃ t ∈ J, t.issuer = i

theorem votes_padded (h : Padded (· ∈ J) active active') (hs : List Hypothesis) (g : Hash) :
    Padded (fun v => Issuers J v.2) (votes active hs g) (votes active' hs g) := by
  refine (h.filter fun t => t.grantee = g).flatMap _ fun t ht v hv => ?_
  obtain ⟨_, _, hv⟩ := List.mem_filterMap.mp hv
  exact ⟨t, ht, (vote_issuer hv).symm⟩

theorem graph_padded (config : Config) (h : Padded (· ∈ J) active active')
    (hs : List Hypothesis) :
    PaddedGraph (Issuers J) (graph config active hs) (graph config active' hs) :=
  ⟨fun _ => rfl, fun i => votes_padded h (hs.map Hypothesis.admin) i⟩

theorem sameWeight_of_padded {G : VoteGraph Hash} {vs vs' : List (Sign × Hash)}
    (h : Padded (fun v => Issuers J v.2) vs vs') (hJ : ∀ i, Issuers J i → ¬ Linked G i) :
    SameWeight G vs vs' :=
  ⟨fun _ hv => h.mem hv, fun _ hv => (h.mem_or_extra hv).imp_right (hJ _)⟩

end Outsiders

/-- Tuples whose issuers are not linked to an anchor change no verdict, if the bound holds
with and without them and the search either meets no delegated authority below them or
has its verdict changed by the memo neither with nor without them. -/
theorem outsiders_cannot_interfere (e : Engine key) (s' : StateVector key) (grantee : Hash)
    (hypotheses : List Hypothesis) (J : List Tuple)
    (hpad : Padded (· ∈ J) e.state.activeTuples s'.activeTuples)
    (hJ : ∀ t ∈ J, ¬ Delegated e.config s'.activeTuples hypotheses t.issuer)
    (hfit : ¬ e.Exceeds true grantee hypotheses)
    (hfit' : ¬ { e with state := s' }.Exceeds true grantee hypotheses)
    (hsafe : Apart (graph e.config s'.activeTuples hypotheses) (Issuers J) ∨
      e.MemoHarmless grantee hypotheses ∧
        { e with state := s' }.MemoHarmless grantee hypotheses) :
    e.evaluateHashes grantee hypotheses =
      { e with state := s' }.evaluateHashes grantee hypotheses := by
  have hpadG := graph_padded e.config hpad hypotheses
  have hpadV := votes_padded hpad hypotheses grantee
  have hout : ∀ i, Issuers J i → ¬ Linked (graph e.config s'.activeTuples hypotheses) i := by
    rintro _ ⟨t, ht, rfl⟩ hl
    exact hJ t ht (delegated_of_linked hl)
  rcases hsafe with hapart | ⟨hsafe, hsafe'⟩
  · rw [not_exceeds_iff] at hfit'
    rw [evaluateHashes_eq, evaluateHashes_eq]
    have hrun := (run_padded hpadG hout hapart hpadV hfit').1
    exact congrArg (fun v => decide (v = Decision.allow)) hrun
  · have hsame : SameGraph (graph e.config e.state.activeTuples hypotheses)
        (graph e.config s'.activeTuples hypotheses) :=
      ⟨fun _ => rfl, fun i => sameWeight_of_padded (hpadG.votes i) hout⟩
    rw [hsafe.evaluateHashes_eq_judged hfit, hsafe'.evaluateHashes_eq_judged hfit']
    exact hsame.passes_eq (sameWeight_of_padded hpadV hout)

/-- Fifty tuples by issuers nobody has granted anything. -/
def flood : List Tuple :=
  (List.range 50).map fun n => permit (UInt8.ofNat (n + 100)) 1 sceneAllow

/-- One delegated issuer who allows the grantee. -/
def honest : List Tuple := [permit 2 1 sceneAllow, permit 0 2 sceneAdmin]

/-- Putting `J`, whose issuers nobody has linked to an anchor, into `ts` changes the verdict. -/
structure Interferes (J ts ts' : List Tuple) : Prop where
  padded : Padded (· ∈ J) (scene {} ts).state.activeTuples (scene {} ts').state.activeTuples
  outsiders : ∀ t ∈ J,
    ¬ Delegated sceneConfig (scene {} ts').state.activeTuples [sceneHypothesis] t.issuer
  changed : (scene {} ts).evaluateHashes (identity 1) [sceneHypothesis] ≠
    (scene {} ts').evaluateHashes (identity 1) [sceneHypothesis]

theorem interferes_front {J ts : List Tuple}
    (hts : (scene {} ts).state.activeTuples = ts)
    (hts' : (scene {} (J ++ ts)).state.activeTuples = J ++ ts)
    (hroot : ∀ t ∈ J, sceneConfig.isRootAnchor t.issuer = false)
    (hgrant : ∀ t ∈ J, ∀ s ∈ J ++ ts, s.grantee = t.issuer →
      ∀ h ∈ [sceneHypothesis], s.relationHash ≠ h.adminAllowHash)
    (hchanged : (scene {} ts).evaluateHashes (identity 1) [sceneHypothesis] ≠
      (scene {} (J ++ ts)).evaluateHashes (identity 1) [sceneHypothesis]) :
    Interferes J ts (J ++ ts) := by
  refine ⟨?_, fun t ht => ?_, hchanged⟩
  · rw [hts, hts']
    exact (Padded.refl ts).put_append fun _ h => h
  · rw [hts']
    exact not_delegated (hroot t ht) (hgrant t ht)

/-- An outsider whom issuer 3 denies, below a climb that ends at 3. -/
def watched : List Tuple := permit 3 9 sceneAdminDeny :: climb

/-- A flood uses up the work bound before the honest tuple is reached; and, far below the
bound, an outsider's deny makes the search remember the issuer that the climb needs. -/
theorem outsiders_interfere :
    Interferes flood honest (flood ++ honest) ∧
      Interferes [permit 9 1 sceneDeny] watched ([permit 9 1 sceneDeny] ++ watched) ∧
      ¬ (scene {} watched).Exceeds true (identity 1) [sceneHypothesis] ∧
      ¬ (scene {} ([permit 9 1 sceneDeny] ++ watched)).Exceeds true (identity 1)
        [sceneHypothesis] := by
  refine ⟨interferes_front ?_ ?_ ?_ ?_ ?_, interferes_front ?_ ?_ ?_ ?_ ?_, ?_, ?_⟩ <;>
    decide +kernel

/-- An outsider's deny beside two admins who made each other admin. -/
theorem outsider_deny_ignored :
    (scene {} peers).evaluateHashes (identity 1) [sceneHypothesis] =
      (scene {} (permit 8 1 sceneDeny :: peers)).evaluateHashes (identity 1)
        [sceneHypothesis] := by
  have hplain : (scene {} peers).state.activeTuples = peers := by decide +kernel
  have hdenied : (granted (permit 8 1 sceneDeny :: peers)).activeTuples =
      permit 8 1 sceneDeny :: peers := by decide +kernel
  refine outsiders_cannot_interfere (scene {} peers) (granted (permit 8 1 sceneDeny :: peers))
    (identity 1) [sceneHypothesis] [permit 8 1 sceneDeny] ?_ ?_ (by decide +kernel)
    (by decide +kernel)
    (.inr ⟨.inl (.inr (by decide +kernel)), .inl (.inr (by decide +kernel))⟩)
  · rw [hplain, hdenied]
    exact .put (by simp) (.refl _)
  · rw [hdenied]
    intro t ht
    obtain rfl := List.mem_singleton.mp ht
    exact not_delegated (by decide +kernel) (by decide +kernel)

/-! ## Replicas -/

section Replicas

variable {active active' : List Tuple}

theorem votes_subset (h : ∀ t ∈ active, t ∈ active') (hs : List Hypothesis) (g : Hash)
    {v : Sign × Hash} (hv : v ∈ votes active hs g) : v ∈ votes active' hs g := by
  obtain ⟨t, ht, hg, hw⟩ := mem_votes.mp hv
  exact mem_votes.mpr ⟨t, h t ht, hg, hw⟩

theorem sameWeight_of_same (h : ∀ t, t ∈ active ↔ t ∈ active') (G : VoteGraph Hash)
    (hs : List Hypothesis) (g : Hash) : SameWeight G (votes active hs g) (votes active' hs g) :=
  ⟨fun _ hv => votes_subset (fun t => (h t).mp) hs g hv,
    fun _ hv => .inl (votes_subset (fun t => (h t).mpr) hs g hv)⟩

theorem activeTuples_of_get?_eq {s s' : StateVector key}
    (h : ∀ k, s.entries.get? k = s'.entries.get? k) (t : Tuple) :
    t ∈ s.activeTuples ↔ t ∈ s'.activeTuples := by
  simp only [StateVector.mem_activeTuples, h]

end Replicas

/-- Two nodes holding the same entries, in whatever order, give the same verdict if the
bound holds on both and the memo changes neither's. -/
theorem replicas_agree (e : Engine key) (s' : StateVector key) (grantee : Hash)
    (hypotheses : List Hypothesis)
    (hsame : ∀ k, e.state.entries.get? k = s'.entries.get? k)
    (hfit : ¬ e.Exceeds true grantee hypotheses)
    (hfit' : ¬ { e with state := s' }.Exceeds true grantee hypotheses)
    (hsafe : e.MemoHarmless grantee hypotheses)
    (hsafe' : { e with state := s' }.MemoHarmless grantee hypotheses) :
    e.evaluateHashes grantee hypotheses =
      { e with state := s' }.evaluateHashes grantee hypotheses := by
  have hact := activeTuples_of_get?_eq hsame
  rw [hsafe.evaluateHashes_eq_judged hfit, hsafe'.evaluateHashes_eq_judged hfit']
  have hgraph : SameGraph (graph e.config e.state.activeTuples hypotheses)
      (graph e.config s'.activeTuples hypotheses) :=
    ⟨fun _ => rfl, fun i => sameWeight_of_same hact _ (hypotheses.map Hypothesis.admin) i⟩
  exact hgraph.passes_eq (sameWeight_of_same hact _ hypotheses grantee)

/-- Two admins (3 and 4) who vouch for each other vote on a third (2) whom the anchor
denies; a fourth (5), vouched for by the anchor, is looked at last. -/
def vouching : List Tuple :=
  ((List.range 45).map fun n => permit (UInt8.ofNat (n + 100)) 1 sceneAllow) ++
    [permit 2 1 sceneAllow, permit 5 1 sceneAllow, permit 0 2 sceneAdminDeny,
      permit 4 3 sceneAdmin, permit 0 3 sceneAdmin, permit 3 4 sceneAdmin, permit 0 5 sceneAdmin]

def orderOne : List Tuple := [permit 3 2 sceneAdmin, permit 4 2 sceneAdmin] ++ vouching
def orderTwo : List Tuple := [permit 4 2 sceneAdmin, permit 3 2 sceneAdmin] ++ vouching

/-- The order in which tuples arrived decides whether the work bound is reached; and, far
below the bound, whether the denied denier is looked at before the climb that its memo
entry helps. -/
theorem order_decides_verdict :
    ((∀ k, (granted orderOne).entries.get? k = (granted orderTwo).entries.get? k) ∧
      (scene {} orderOne).evaluateHashes (identity 1) [sceneHypothesis] = false ∧
      (scene {} orderTwo).evaluateHashes (identity 1) [sceneHypothesis] = true) ∧
    (∀ k, (granted (climb ++ deniedDenier)).entries.get? k =
        (granted (deniedDenier ++ climb)).entries.get? k) ∧
      ¬ (scene {} (climb ++ deniedDenier)).Exceeds true (identity 1) [sceneHypothesis] ∧
      ¬ (scene {} (deniedDenier ++ climb)).Exceeds true (identity 1) [sceneHypothesis] ∧
      (scene {} (climb ++ deniedDenier)).evaluateHashes (identity 1) [sceneHypothesis] = false ∧
      (scene {} (deniedDenier ++ climb)).evaluateHashes (identity 1) [sceneHypothesis] = true := by
  refine ⟨⟨OrderedMap.get?_eq_of_perm ?_, ?_, ?_⟩, OrderedMap.get?_eq_of_perm ?_, ?_, ?_, ?_, ?_⟩
    <;> decide +kernel

/-- Two orders of the two admins' tuples and the stranger's. -/
theorem replicas_agree_peers :
    (scene {} peers).evaluateHashes (identity 1) [sceneHypothesis] =
      (scene {} peers.reverse).evaluateHashes (identity 1) [sceneHypothesis] :=
  replicas_agree (scene {} peers) (granted peers.reverse) (identity 1) [sceneHypothesis]
    (OrderedMap.get?_eq_of_perm (by decide +kernel)) (by decide +kernel) (by decide +kernel)
    (.inl (.inr (by decide +kernel))) (.inl (.inr (by decide +kernel)))

end Dacar.Engine

import Dacar.EngineSoundness
import Dacar.VoteSearch.Paths

/-!
# Delegation chains and the hop bound

The paths of the search are the delegation chains of the request.  Without denies the
engine finds a chain exactly when there is one within the hop bound; with denies, an
issuer remembered near the top may stand in for a chain that is too long.
-/

namespace Dacar.Engine

open VoteSearch

section Chains

variable (config : Config) (active : List Tuple) (hs : List Hypothesis)

/-- The issuers of a chain that are no Root Trust Anchors. -/
def delegates (ts : List Tuple) : List Hash :=
  (ts.map Tuple.issuer).filter fun i => !config.isRootAnchor i

/-- Active tuples that lead from a Root Trust Anchor to the grantee. -/
structure Chained (grantee : Hash) (t₀ : Tuple) (ts : List Tuple) : Prop where
  mem_active : t₀ ∈ active
  grantee_eq : t₀.grantee = grantee
  allows : ∃ h ∈ hs, Carries t₀ h.allowRelationHash h
  delegated : (t₀ :: ts).IsChain (DelegatesTo active hs)
  anchored : config.isRootAnchor ((t₀ :: ts).getLast (by simp)).issuer = true

end Chains

variable {config : Config} {active : List Tuple} {hs : List Hypothesis} {grantee : Hash}

/-- A path behind an issuer, as a chain of admin tuples behind what it issued. -/
theorem exists_chain_of_path {i : Hash} {l : List Hash} (hp : Path (graph config active hs) i l) :
    ∀ t₀ : Tuple, t₀.issuer = i →
      ∃ ts, (t₀ :: ts).IsChain (DelegatesTo active hs) ∧
        config.isRootAnchor ((t₀ :: ts).getLast (by simp)).issuer = true ∧
        delegates config (t₀ :: ts) = l := by
  induction hp with
  | root hr =>
    rintro t₀ rfl
    have hroot : config.isRootAnchor t₀.issuer = true := hr
    exact ⟨[], .singleton _, hr, by simp [delegates, hroot]⟩
  | step hr ha _ ih =>
    rintro t₀ rfl
    obtain ⟨t, ht, hg, hi, hc⟩ := exists_of_admin_vote ha
    obtain ⟨ts, hchain, hroot, hdel⟩ := ih t hi
    have hnot : config.isRootAnchor t₀.issuer = false := hr
    refine ⟨t :: ts, .cons_cons ⟨ht, hg, hc⟩ hchain, hroot, ?_⟩
    rw [← hdel]
    simp [delegates, hnot]

/-- A chain behind an issuer, as a path that passes some of its delegates. -/
theorem exists_path_of_chain
    (hadmin : ∀ t ∈ active, ∀ h ∈ hs, t.relationHash = h.adminAllowHash →
      t.relationHash ≠ h.adminDenyHash) (ts : List Tuple) (t₀ : Tuple)
    (hchain : (t₀ :: ts).IsChain (DelegatesTo active hs))
    (hroot : config.isRootAnchor ((t₀ :: ts).getLast (by simp)).issuer = true) :
    ∃ l, Path (graph config active hs) t₀.issuer l ∧ l.Sublist (delegates config (t₀ :: ts)) := by
  induction ts generalizing t₀ with
  | nil => exact ⟨[], .root hroot, List.nil_sublist _⟩
  | cons t ts ih =>
    cases hr : config.isRootAnchor t₀.issuer with
    | true => exact ⟨[], .root hr, List.nil_sublist _⟩
    | false =>
      obtain ⟨⟨ht, hg, h, hh, hc⟩, hrest⟩ := List.isChain_cons_cons.mp hchain
      obtain ⟨l, hl, hsub⟩ := ih t hrest hroot
      have hvote : (.allow, t.issuer) ∈ votes active (hs.map Hypothesis.admin) t.grantee :=
        allow_vote_of_carries ht (List.mem_map_of_mem hh) hc (hadmin t ht h hh hc.1)
      rw [hg] at hvote
      refine ⟨t₀.issuer :: l, .step hr hvote hl, ?_⟩
      have hdel : delegates config (t₀ :: t :: ts) = t₀.issuer :: delegates config (t :: ts) := by
        simp [delegates, hr]
      rw [hdel]
      exact hsub.cons_cons _

variable {κ : Type*} [DecidableEq κ] {key : Tuple → κ}

/-- When nobody denies the grantee and nobody is denied the admin relation, a request within
the work bound is allowed exactly when a chain with distinct delegates within the hop bound
leads to the grantee. -/
theorem exact_without_denies (e : Engine key) (grantee : Hash) (hypotheses : List Hypothesis)
    (hdeny : ∀ t ∈ e.state.activeTuples, t.grantee = grantee →
      ∀ h ∈ hypotheses, t.relationHash ≠ h.denyRelationHash)
    (hadmin : ∀ t ∈ e.state.activeTuples, ∀ h ∈ hypotheses, t.relationHash ≠ h.adminDenyHash)
    (hfit : ¬ e.Exceeds true grantee hypotheses) :
    e.evaluateHashes grantee hypotheses = true ↔
      ∃ t₀ ts, Chained e.config e.state.activeTuples hypotheses grantee t₀ ts ∧
        (delegates e.config (t₀ :: ts)).length ≤ e.options.maxDepth ∧
        (delegates e.config (t₀ :: ts)).Nodup := by
  have hnodeny : ∀ i j, (.deny, j) ∉ (e.graphOf hypotheses).votes i :=
    no_admin_deny_vote e.config hadmin
  have hidle : IdleDenies (e.graphOf hypotheses) e.options.maxDepth
      (e.votesOf grantee hypotheses) :=
    idleDenies_of_strangers _ (fun t ht hg h hh he => absurd he (hdeny t ht hg h hh))
      fun t ht h hh he => absurd he (hadmin t ht h hh)
  rw [evaluateHashes_eq, search, run_agrees (fun _ => .inr (settled_of_idle hidle))
    ((e.not_exceeds_iff _ _ _).mp hfit), passes_iff]
  constructor
  · rintro ⟨-, j, hj, hpj⟩
    obtain ⟨t₀, ht₀, hg, hi, hc⟩ := exists_of_allow_vote hj
    obtain ⟨l, hl, hlen, hnodup, -⟩ := (holds_iff_path hnodeny).mp hpj
    obtain ⟨ts, hchain, hroot, hdel⟩ := exists_chain_of_path hl t₀ hi
    exact ⟨t₀, ts, ⟨ht₀, hg, hc, hchain, hroot⟩, hdel ▸ hlen, hdel ▸ hnodup⟩
  · rintro ⟨t₀, ts, hc, hlen, hnodup⟩
    obtain ⟨h, hh, hcarries⟩ := hc.allows
    obtain ⟨l, hl, hsub⟩ := exists_path_of_chain (fun t ht h hh _ => hadmin t ht h hh) ts t₀
      hc.delegated hc.anchored
    have hvote := allow_vote_of_carries hc.mem_active hh hcarries
      (hdeny t₀ hc.mem_active hc.grantee_eq h hh)
    rw [hc.grantee_eq] at hvote
    have hholds : holds (e.graphOf hypotheses) e.options.maxDepth [] t₀.issuer = true :=
      (holds_iff_path hnodeny).mpr
        ⟨l, hl, hsub.length_le.trans hlen, hsub.nodup hnodup, by simp⟩
    exact ⟨fun j hj => absurd hj (no_deny_vote hdeny), t₀.issuer, hvote, hholds⟩

theorem exact_without_denies_delegated :
    ∃ t₀ ts, Chained sceneConfig
      (scene {} [permit 2 1 sceneAllow, permit 0 2 sceneAdmin]).state.activeTuples
      [sceneHypothesis] (identity 1) t₀ ts ∧
      (delegates sceneConfig (t₀ :: ts)).length ≤ 10 ∧ (delegates sceneConfig (t₀ :: ts)).Nodup :=
  (exact_without_denies (scene {} [permit 2 1 sceneAllow, permit 0 2 sceneAdmin]) (identity 1)
    [sceneHypothesis] (by decide +kernel) (by decide +kernel) (by decide +kernel)).mp
    (by decide +kernel)

/-- A chain within the bound puts an issuer within the bound behind one of the votes. -/
theorem Chained.linkedWithin {t₀ : Tuple} {ts : List Tuple} {n : ℕ}
    (hc : Chained config active hs grantee t₀ ts)
    (hallow : ∀ h ∈ hs, h.allowRelationHash ≠ h.denyRelationHash)
    (hadmin : ∀ h ∈ hs, h.adminAllowHash ≠ h.adminDenyHash)
    (hlen : (delegates config (t₀ :: ts)).length ≤ n) :
    ∃ v ∈ votes active hs grantee, v.1 = .allow ∧
      VoteSearch.linkedWithin (graph config active hs) n v.2 = true := by
  obtain ⟨h, hh, hcarries⟩ := hc.allows
  obtain ⟨l, hl, hsub⟩ := exists_path_of_chain (fun t _ h hh he => he ▸ hadmin h hh) ts t₀
    hc.delegated hc.anchored
  have hvote := allow_vote_of_carries hc.mem_active hh hcarries (hcarries.1 ▸ hallow h hh)
  rw [hc.grantee_eq] at hvote
  exact ⟨_, hvote, rfl, linkedWithin_iff.mpr ⟨l, hl, hsub.length_le.trans hlen⟩⟩

end Dacar.Engine

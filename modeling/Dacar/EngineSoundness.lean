import Dacar.EngineGraph

/-!
# What an ALLOW rests on

An evaluation that allows has a chain of active tuples from the grantee back to a
Root Trust Anchor, and no Root Trust Anchor denies anything along it.  This needs
nothing of the bounds, the memo or the order of the tuples.
-/

namespace Dacar.Engine

open VoteSearch

section Chains

variable (config : Config) (active : List Tuple) (hs : List Hypothesis)

/-- `t` lets the issuer of `s` delegate on the requested object. -/
def DelegatesTo (s t : Tuple) : Prop :=
  t ∈ active ∧ t.grantee = s.issuer ∧ ∃ h ∈ hs, Carries t h.adminAllowHash h

/-- No Root Trust Anchor denies `rel` on the requested object to `i`. -/
def UndeniedByRoots (rel : Hypothesis → Hash) (i : Hash) : Prop :=
  ∀ t ∈ active, t.grantee = i → config.isRootAnchor t.issuer = true →
    ∀ h ∈ hs, ¬ Carries t (rel h) h

/-- A chain of active tuples that authorises the grantee. -/
structure Authorises (grantee : Hash) (t₀ : Tuple) (ts : List Tuple) : Prop where
  mem_active : t₀ ∈ active
  grantee_eq : t₀.grantee = grantee
  allows : ∃ h ∈ hs, Carries t₀ h.allowRelationHash h
  delegated : (t₀ :: ts).IsChain (DelegatesTo active hs)
  anchored : config.isRootAnchor ((t₀ :: ts).getLast (by simp)).issuer = true
  undenied : UndeniedByRoots config active hs Hypothesis.denyRelationHash grantee
  issuers_undenied : ∀ t ∈ (t₀ :: ts).dropLast,
    UndeniedByRoots config active hs Hypothesis.adminDenyHash t.issuer

end Chains

variable {config : Config} {active : List Tuple} {hs : List Hypothesis}

theorem undeniedByRoots_of_undenied {hs' : List Hypothesis} {i : Hash}
    (hd : Undenied (graph config active hs) (votes active hs' i)) :
    UndeniedByRoots config active hs' Hypothesis.denyRelationHash i := by
  rintro t ht rfl hroot h hh hc
  have hfalse := hd t.issuer (deny_vote_of_carries ht hh hc)
  exact absurd (hroot.symm.trans hfalse) (by simp)

/-- The same for the admin relation, which is what the votes in the graph are about. -/
theorem admin_undenied {i : Hash}
    (hd : Undenied (graph config active hs) ((graph config active hs).votes i)) :
    UndeniedByRoots config active hs Hypothesis.adminDenyHash i := by
  have hadmin : UndeniedByRoots config active (hs.map Hypothesis.admin)
      Hypothesis.denyRelationHash i := undeniedByRoots_of_undenied hd
  intro t ht hg hroot h hh hc
  exact hadmin t ht hg hroot h.admin (List.mem_map_of_mem hh) hc

theorem exists_of_admin_vote {i j : Hash} (hv : (.allow, j) ∈ (graph config active hs).votes i) :
    ∃ t ∈ active, t.grantee = i ∧ t.issuer = j ∧ ∃ h ∈ hs, Carries t h.adminAllowHash h := by
  obtain ⟨t, ht, hg, hi, _, hadmin, hc⟩ := exists_of_allow_vote hv
  obtain ⟨h, hh, rfl⟩ := List.mem_map.mp hadmin
  exact ⟨t, ht, hg, hi, h, hh, hc⟩

/-- A warranted issuer has a chain of admin tuples behind it. -/
theorem exists_chain {i : Hash} (hw : Warranted (graph config active hs) i) :
    ∀ t₀ : Tuple, t₀.issuer = i →
      ∃ ts, (t₀ :: ts).IsChain (DelegatesTo active hs) ∧
        config.isRootAnchor ((t₀ :: ts).getLast (by simp)).issuer = true ∧
        ∀ t ∈ (t₀ :: ts).dropLast,
          UndeniedByRoots config active hs Hypothesis.adminDenyHash t.issuer := by
  induction hw with
  | root hr =>
    rintro t₀ rfl
    exact ⟨[], .singleton _, hr, by simp⟩
  | step hd ha _ ih =>
    rintro t₀ rfl
    obtain ⟨t, ht, hg, hi, hc⟩ := exists_of_admin_vote ha
    obtain ⟨ts, hchain, hroot, hclear⟩ := ih t hi
    refine ⟨t :: ts, .cons_cons ⟨ht, hg, hc⟩ hchain, hroot, ?_⟩
    intro s hs
    rw [List.dropLast_cons_cons] at hs
    rcases List.mem_cons.mp hs with rfl | hs
    · exact admin_undenied hd
    · exact hclear s hs

variable {κ : Type*} [DecidableEq κ] {key : Tuple → κ}

/-- ALLOW is backed by a chain to a Root Trust Anchor along which no anchor denies. -/
theorem authorization_sound (e : Engine key) (grantee : Hash) (hypotheses : List Hypothesis)
    (h : e.evaluateHashes grantee hypotheses = true) :
    ∃ t₀ ts, Authorises e.config e.state.activeTuples hypotheses grantee t₀ ts := by
  rw [evaluateHashes_eq, decide_eq_true_iff] at h
  obtain ⟨hd, j, hj, hw⟩ := run_warranted h
  obtain ⟨t₀, ht₀, hg, hi, hc⟩ := exists_of_allow_vote hj
  obtain ⟨ts, hchain, hroot, hclear⟩ := exists_chain hw t₀ hi
  exact ⟨t₀, ts, ht₀, hg, hc, hchain, hroot, undeniedByRoots_of_undenied hd, hclear⟩

theorem authorization_sound_delegated :
    ∃ t₀ ts, Authorises sceneConfig
      (scene {} [permit 2 1 sceneAllow, permit 0 2 sceneAdmin]).state.activeTuples
      [sceneHypothesis] (identity 1) t₀ ts :=
  authorization_sound (scene {} [permit 2 1 sceneAllow, permit 0 2 sceneAdmin]) (identity 1)
    [sceneHypothesis] (by decide +kernel)

end Dacar.Engine

import Dacar.EngineInterference
import Dacar.VoteSearch.Insertion

/-!
# One more deny

A further explicit deny to the grantee casts only deny votes, and none in the admin
graph.  A request that was denied can still come to be allowed, by what looking at the
issuer of the deny leaves in the memo or takes from the work bound.
-/

namespace Dacar.Engine

open VoteSearch

/-- An explicit deny to the grantee under one of the salts, whose hash is that of no other
relation the request asks about. -/
structure DeniesTo (hs : List Hypothesis) (grantee : Hash) (t : Tuple) : Prop where
  grantee_eq : t.grantee = grantee
  denies : ∃ h ∈ hs, t.relationHash = h.denyRelationHash
  not_allow : ∀ h ∈ hs, t.relationHash ≠ h.allowRelationHash
  not_admin : ∀ h ∈ hs, t.relationHash ≠ h.adminAllowHash
  not_admin_deny : ∀ h ∈ hs, t.relationHash ≠ h.adminDenyHash

variable {config : Config} {hs : List Hypothesis} {grantee : Hash} {t : Tuple}
  {pre post : List Tuple}

theorem votes_append (pre post : List Tuple) (hs : List Hypothesis) (g : Hash) :
    votes (pre ++ post) hs g = votes pre hs g ++ votes post hs g := by
  simp [votes]

theorem votes_cons (t : Tuple) (post : List Tuple) (hs : List Hypothesis) (g : Hash) :
    votes (t :: post) hs g =
      (if t.grantee = g then hs.filterMap (vote t) else []) ++ votes post hs g := by
  rw [votes, List.filter_cons]
  split_ifs with h <;> simp_all [votes]

theorem vote_eq_deny {h : Hypothesis} {v : Sign × Hash} (ha : t.relationHash ≠ h.allowRelationHash)
    (hv : vote t h = some v) : v = (.deny, t.issuer) := by
  unfold vote at hv
  split_ifs at hv with hcov hd
  exact (Option.some.inj hv).symm

theorem DeniesTo.votes_eq_deny (ht : DeniesTo hs grantee t) :
    ∀ v ∈ hs.filterMap (vote t), v = (.deny, t.issuer) := by
  intro v hv
  obtain ⟨h, hh, hvote⟩ := List.mem_filterMap.mp hv
  exact vote_eq_deny (ht.not_allow h hh) hvote

/-- The tuple casts no vote in the admin graph. -/
theorem DeniesTo.graph_eq (ht : DeniesTo hs grantee t) (config : Config) (pre post : List Tuple) :
    graph config (pre ++ t :: post) hs = graph config (pre ++ post) hs := by
  have hnone : (hs.map Hypothesis.admin).filterMap (vote t) = [] := by
    rw [List.filterMap_eq_nil_iff]
    intro x hx
    obtain ⟨h, hh, rfl⟩ := List.mem_map.mp hx
    have ha : t.relationHash ≠ h.admin.allowRelationHash := ht.not_admin h hh
    have hd : t.relationHash ≠ h.admin.denyRelationHash := ht.not_admin_deny h hh
    rw [vote, if_neg hd, if_neg ha, ite_self]
  have hvotes : votes (pre ++ t :: post) (hs.map Hypothesis.admin) =
      votes (pre ++ post) (hs.map Hypothesis.admin) := by
    funext g
    rw [votes_append, votes_append, votes_cons, hnone, ite_self, List.nil_append]
  rw [graph, hvotes]
  rfl

variable {κ : Type*} [DecidableEq κ] {key : Tuple → κ}

theorem deniesTo_scene (issuer : UInt8) :
    DeniesTo [sceneHypothesis] (identity 1) (permit issuer 1 sceneDeny) where
  grantee_eq := rfl
  denies := ⟨sceneHypothesis, List.mem_cons_self, rfl⟩
  not_allow := by simp only [permit]; decide +kernel
  not_admin := by simp only [permit]; decide +kernel
  not_admin_deny := by simp only [permit]; decide +kernel

end Dacar.Engine

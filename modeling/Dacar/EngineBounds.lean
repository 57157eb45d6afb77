import Dacar.EngineGraph

/-!
# The work bound and the memo

Past the work bound an issuer that is neither an anchor nor remembered counts as
unauthorised, whether its tuple allows or denies; and a remembered issuer counts as
authorised on every path, also where a bound would have cut the search for it.
Here is when a request fails closed in spite of the first, and when the second makes no
difference.
-/

namespace Dacar.Engine

open VoteSearch

variable {κ : Type*} [DecidableEq κ] {key : Tuple → κ}

/-- An evaluation that reaches the work bound denies. -/
def FailsClosed (e : Engine key) (grantee : Hash) (hypotheses : List Hypothesis) : Prop :=
  e.Exceeds true grantee hypotheses → e.evaluateHashes grantee hypotheses = false

/-- Forty-nine strangers exhaust the bound, so the deny of a delegated issuer is dropped and
the anchor's allow after it stands. -/
def exhausted : List Tuple :=
  ((List.range 49).map fun n => permit (UInt8.ofNat (n + 100)) 1 sceneAllow) ++
    [permit 2 1 sceneDeny, permit 0 2 sceneAdmin, permit 0 1 sceneAllow]

/-- With and without its memo an evaluation gives one verdict, if the memo misleads it nowhere
or to no effect. -/
theorem memo_transparent (e : Engine key) (grantee : Hash) (hypotheses : List Hypothesis)
    (hsafe : e.Unmisled grantee hypotheses)
    (hfit : ¬ e.Exceeds true grantee hypotheses)
    (hfit' : ¬ e.Exceeds false grantee hypotheses) :
    e.evaluateHashes grantee hypotheses = e.evaluateUnmemoised grantee hypotheses := by
  rw [not_exceeds_iff] at hfit hfit'
  rw [evaluateHashes_eq, evaluateUnmemoised_eq]
  exact (run_agrees (fun _ => hsafe) hfit).trans (run_agrees (fun _ => hsafe) hfit').symm

/-- The denied denier makes the search remember issuer 3, and only the memo lets the climb
past the depth bound. -/
theorem climb_needs_memo :
    ¬ (scene {} (deniedDenier ++ climb)).Exceeds true (identity 1) [sceneHypothesis] ∧
      ¬ (scene {} (deniedDenier ++ climb)).Exceeds false (identity 1) [sceneHypothesis] ∧
      (scene {} (deniedDenier ++ climb)).evaluateHashes (identity 1) [sceneHypothesis] = true ∧
      (scene {} (deniedDenier ++ climb)).evaluateUnmemoised (identity 1) [sceneHypothesis] =
        false := by
  refine ⟨?_, ?_, ?_, ?_⟩ <;> decide +kernel

/-- Two admins who made each other admin, and a stranger who denies. -/
theorem memo_transparent_peers :
    (scene {} peers).evaluateHashes (identity 1) [sceneHypothesis] =
      (scene {} peers).evaluateUnmemoised (identity 1) [sceneHypothesis] :=
  memo_transparent (scene {} peers) (identity 1) [sceneHypothesis] (.inr (by decide +kernel))
    (by decide +kernel) (by decide +kernel)

end Dacar.Engine

import Dacar.EngineGraph
import Dacar.Namespace

/-!
# The trace of `check`

`check` prints the verdict of the engine and, below it, the active tuples that match the request,
one line each.  The lines are the votes the engine counted, so they say why it answered as it
did.
-/

namespace Dacar.Cli

open Engine VoteSearch

variable {κ : Type*} {key : Tuple → κ}

/-- One line of the trace. -/
structure TraceLine where
  kind : Sign
  tuple : Tuple
  hasher : NamespaceHasher
  /-- `is a Root Trust Anchor`, or `is NOT an anchor` -/
  anchor : Bool

/-- The body of the inner loop, over the active tuples. -/
def matchTuple (config : Config) (grantee : Hash) (h : Hypothesis) (tup : Tuple) :
    Option TraceLine :=
  if tup.grantee ≠ grantee then none
  else if tup.relationHash = h.denyRelationHash ∧
      covers tup.objectHashes tup.wildcard h.objectHashes = true then
    some ⟨.deny, tup, h.hasher, config.isRootAnchor tup.issuer⟩
  else if tup.relationHash = h.allowRelationHash ∧
      covers tup.objectHashes tup.wildcard h.objectHashes = true then
    some ⟨.allow, tup, h.hasher, config.isRootAnchor tup.issuer⟩
  else none

/-- `_find_matching_tuples`, with the request hashed under each salt. -/
def findMatchingTuples (config : Config) (state : StateVector key) (hypotheses : List Hypothesis)
    (grantee : Hash) : List TraceLine :=
  hypotheses.flatMap fun h => state.activeTuples.filterMap (matchTuple config grantee h)

/-- `cmd_check`: what the exit code says, and the lines of the trace. -/
def check [DecidableEq κ] (hmac16 : Hmac16) (config : Config) (state : StateVector key)
    (relation objectId : String) (grantee : Hash) : Bool × List TraceLine :=
  let engine : Engine key := ⟨config, state, {}⟩
  (engine.evaluate hmac16 objectId relation grantee,
    findMatchingTuples config state (config.hashers.map (hypothesis hmac16 objectId relation))
      grantee)

/-! ## Lines and votes -/

section Votes

variable {config : Config} {state : StateVector key} {hs : List Hypothesis} {grantee : Hash}

/-- A tuple has a line where it casts a vote. -/
theorem matchTuple_eq (h : Hypothesis) {tup : Tuple} (hg : tup.grantee = grantee) :
    matchTuple config grantee h tup =
      (vote tup h).map fun v => ⟨v.1, tup, h.hasher, config.isRootAnchor tup.issuer⟩ := by
  unfold matchTuple vote
  rw [if_neg (not_not.mpr hg)]
  by_cases hcov : covers tup.objectHashes tup.wildcard h.objectHashes = true
  · simp only [hcov, and_true, if_true]
    split_ifs <;> rfl
  · simp [hcov]

theorem mem_findMatchingTuples {line : TraceLine} :
    line ∈ findMatchingTuples config state hs grantee ↔
      ∃ h ∈ hs, ∃ tup ∈ state.activeTuples, tup.grantee = grantee ∧
        vote tup h = some (line.kind, tup.issuer) ∧
        line = ⟨line.kind, tup, h.hasher, config.isRootAnchor tup.issuer⟩ := by
  simp only [findMatchingTuples, List.mem_flatMap, List.mem_filterMap]
  refine exists_congr fun h => and_congr_right fun _ => exists_congr fun tup =>
    and_congr_right fun _ => ?_
  constructor
  · intro hmatch
    have hg : tup.grantee = grantee := by
      by_contra hne
      rw [matchTuple, if_pos hne] at hmatch
      cases hmatch
    rw [matchTuple_eq h hg, Option.map_eq_some_iff] at hmatch
    obtain ⟨v, hv, rfl⟩ := hmatch
    refine ⟨hg, ?_, rfl⟩
    rw [hv, ← vote_issuer hv]
  · rintro ⟨hg, hv, hline⟩
    rw [matchTuple_eq h hg, hv, Option.map_some]
    exact congrArg some hline.symm

/-- The lines of a kind are the votes of that sign. -/
theorem exists_line_iff {kind : Sign} {issuer : Hash} :
    (∃ line ∈ findMatchingTuples config state hs grantee,
        line.kind = kind ∧ line.tuple.issuer = issuer) ↔
      (kind, issuer) ∈ votes state.activeTuples hs grantee := by
  rw [mem_votes]
  constructor
  · rintro ⟨line, hline, rfl, rfl⟩
    obtain ⟨h, hh, tup, htup, hg, hv, heq⟩ := mem_findMatchingTuples.mp hline
    have htuple : line.tuple = tup := congrArg TraceLine.tuple heq
    exact ⟨tup, htup, hg, h, hh, htuple ▸ hv⟩
  · rintro ⟨tup, htup, hg, h, hh, hv⟩
    have hissuer : issuer = tup.issuer := vote_issuer hv
    refine ⟨⟨kind, tup, h.hasher, config.isRootAnchor tup.issuer⟩,
      mem_findMatchingTuples.mpr ⟨h, hh, tup, htup, hg, ?_, rfl⟩, rfl, hissuer.symm⟩
    rw [hv, hissuer]

theorem line_anchor {line : TraceLine} (h : line ∈ findMatchingTuples config state hs grantee) :
    line.anchor = config.isRootAnchor line.tuple.issuer := by
  obtain ⟨h, -, tup, -, -, -, heq⟩ := mem_findMatchingTuples.mp h
  rw [heq]

end Votes

/-! ## Why the engine answers so -/

section Explains

variable (config : Config) (active : List Tuple) (hs : List Hypothesis)

/-- An allowed request has an allow line by an issuer whom admin grants link to an anchor, and no
deny line by an anchor; a denied one has no allow line by an anchor, or a deny line by an issuer
who is linked to one. -/
structure Explains (verdict : Bool) (lines : List TraceLine) : Prop where
  allowed : verdict = true →
    (∃ line ∈ lines, line.kind = .allow ∧ Delegated config active hs line.tuple.issuer) ∧
      ∀ line ∈ lines, line.kind = .deny → line.anchor = false
  denied : verdict = false → (∀ line ∈ lines, line.kind = .allow → line.anchor = false) ∨
    ∃ line ∈ lines, line.kind = .deny ∧ Delegated config active hs line.tuple.issuer

end Explains

section Check

variable [DecidableEq κ] {e : Engine key} {hs : List Hypothesis} {grantee : Hash}

/-- Where an anchor allows, only a delegated deny keeps the engine from allowing. -/
theorem exists_deny_of_not_allow (hcap : 1 ≤ e.options.maxVisited) {j : Hash}
    (hj : (.allow, j) ∈ e.votesOf grantee hs) (hroot : e.config.isRootAnchor j = true)
    (hrun : (e.search true grantee hs).1 ≠ .allow) :
    ∃ i, (.deny, i) ∈ e.votesOf grantee hs ∧ Linked (e.graphOf hs) i := by
  by_contra hnone
  push Not at hnone
  apply hrun
  rw [search, run_fst hcap]
  refine Tally.verdict_eq_allow.mpr ⟨?_, ?_⟩
  · exact scan_has_eq_false (s := .deny) (I := MemoWarranted (e.graphOf hs))
      (fun v _ m hm => (authority_warranted _ [] v.2 m hm).2)
      (fun i hi m hm => authority_of_not_linked hm (hnone i hi)) rfl .fresh
  · refine scan_has_of_mem hj (fun m => ?_) .empty _
    have hr : (e.graphOf hs).root j = true := hroot
    rw [authority_root hr]

variable (hmac16 : Hmac16) (config : Config) (state : StateVector key) (objectId relation : String)

/-- The trace that `check` prints explains the verdict it prints, for every request. -/
theorem check_explained (grantee : Hash) :
    Explains config state.activeTuples (config.hashers.map (hypothesis hmac16 objectId relation))
      (check hmac16 config state relation objectId grantee).1
      (check hmac16 config state relation objectId grantee).2 := by
  let e : Engine key := ⟨config, state, {}⟩
  let hs := config.hashers.map (hypothesis hmac16 objectId relation)
  have hcap : 1 ≤ e.options.maxVisited := show 1 ≤ defaultMaxVisited by decide
  have hverdict : (check hmac16 config state relation objectId grantee).1 =
      decide ((e.search true grantee hs).1 = .allow) := evaluateHashes_eq e grantee hs
  constructor
  · intro hallowed
    rw [hverdict, decide_eq_true_eq] at hallowed
    obtain ⟨hundenied, j, hj, hwarranted⟩ := run_warranted hallowed
    obtain ⟨line, hline, hkind, hissuer⟩ := exists_line_iff.mpr hj
    refine ⟨⟨line, hline, hkind, hissuer ▸ delegated_of_linked hwarranted.linked⟩, ?_⟩
    intro line hline hkind
    rw [line_anchor hline]
    exact hundenied _ (exists_line_iff.mp ⟨line, hline, hkind, rfl⟩)
  · intro hdenied
    rw [hverdict, decide_eq_false_iff_not] at hdenied
    by_cases hanchor : ∃ line ∈ findMatchingTuples config state hs grantee,
        line.kind = .allow ∧ line.anchor = true
    · obtain ⟨line, hline, hkind, htrue⟩ := hanchor
      rw [line_anchor hline] at htrue
      obtain ⟨i, hi, hlinked⟩ := exists_deny_of_not_allow hcap
        (exists_line_iff.mp ⟨line, hline, hkind, rfl⟩) htrue hdenied
      obtain ⟨deny, hdeny, hsign, rfl⟩ := exists_line_iff.mpr hi
      exact .inr ⟨deny, hdeny, hsign, delegated_of_linked hlinked⟩
    · push Not at hanchor
      exact .inl fun line hline hkind => Bool.eq_false_of_not_eq_true (hanchor line hline hkind)

end Check

end Dacar.Cli

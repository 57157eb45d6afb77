import Dacar.Engine
import Dacar.VoteSearch.Idle
import Dacar.VoteSearch.Interference

/-!
# The engine as a search over votes

For one request, an active tuple whose object covers the requested one is a vote of
its issuer on its grantee, under each salt whose relation hash it carries.  The
engine's recursion is the bounded search of `VoteSearch` over these votes: the memo
keys differ only in the issuer, because every call asks about the same object.
-/

namespace Dacar.Engine

open VoteSearch

/-- The vote a tuple casts under one hypothesis, if any. -/
def vote (candidate : Tuple) (h : Hypothesis) : Option (Sign × Hash) :=
  if covers candidate.objectHashes candidate.wildcard h.objectHashes then
    if candidate.relationHash = h.denyRelationHash then some (.deny, candidate.issuer)
    else if candidate.relationHash = h.allowRelationHash then some (.allow, candidate.issuer)
    else none
  else none

/-- The votes of the active tuples on one grantee, in scan order. -/
def votes (active : List Tuple) (hs : List Hypothesis) (grantee : Hash) : List (Sign × Hash) :=
  (active.filter fun t => t.grantee = grantee).flatMap fun t => hs.filterMap (vote t)

/-- Who may delegate on the requested object, as far as the active tuples say. -/
def graph (config : Config) (active : List Tuple) (hs : List Hypothesis) : VoteGraph Hash where
  root := config.isRootAnchor
  votes := votes active (hs.map Hypothesis.admin)

def settings (opts : Options) (remember : Bool) : Settings := ⟨opts.maxVisited, remember⟩

/-! ## The grantee index -/

theorem get?_granteeIndex_foldl (active : List Tuple) (index : OrderedMap Hash (List Tuple))
    (g : Hash) :
    ((active.foldl (fun index t => index.upsert t.grantee fun arr => arr.getD [] ++ [t])
      index).get? g).getD [] =
        (index.get? g).getD [] ++ active.filter fun t => t.grantee = g := by
  induction active generalizing index with
  | nil => simp
  | cons t active ih =>
    rw [List.foldl_cons, ih, OrderedMap.get?_upsert, List.filter_cons]
    by_cases h : g = t.grantee
    · simp [h]
    · have h' : ¬ t.grantee = g := fun he => h he.symm
      simp [h, h']

theorem get?_granteeIndex (active : List Tuple) (g : Hash) :
    ((granteeIndex active).get? g).getD [] = active.filter fun t => t.grantee = g := by
  have h := get?_granteeIndex_foldl active .empty g
  simpa [granteeIndex] using h

/-! ## Reading a search as an evaluation -/

section Refinement

/-- The engine's memory, all of whose memo keys carry the object key `K`. -/
def toMemory (K : ObjectKey) (m : Mem Hash) : Memory :=
  ⟨m.memo.map fun i => (i, K), m.counter⟩

def toFlags (t : Tally) : Flags := ⟨t.deny, t.allow⟩

def toResolution : Decision → Resolution
  | .deny => .deny
  | .allow => .allow
  | .none => .none

theorem resolution_toFlags (t : Tally) : (toFlags t).resolution = toResolution t.verdict := by
  obtain ⟨d, a⟩ := t
  cases d <;> cases a <;> rfl

@[simp] theorem toResolution_eq_allow (v : Decision) : toResolution v = .allow ↔ v = .allow := by
  cases v <;> simp [toResolution]

variable {K : ObjectKey} {auth : Hash → Mem Hash → Bool × Mem Hash}
  {authority' : Hash → Memory → Bool × Memory}

/-- The inner loop scans the votes of one candidate. -/
theorem scanHypotheses_eq
    (hauth : ∀ i m, authority' i (toMemory K m) = ((auth i m).1, toMemory K (auth i m).2))
    (candidate : Tuple) (hs : List Hypothesis) (t : Tally) (m : Mem Hash) :
    scanHypotheses authority' candidate hs (toFlags t) (toMemory K m) =
      (toFlags (scan auth (hs.filterMap (vote candidate)) t m).1,
        toMemory K (scan auth (hs.filterMap (vote candidate)) t m).2) := by
  induction hs generalizing t m with
  | nil => rfl
  | cons h hs ih =>
    rw [scanHypotheses]
    by_cases hcov : covers candidate.objectHashes candidate.wildcard h.objectHashes = true
    · by_cases hd : candidate.relationHash = h.denyRelationHash
      · have hvote : vote candidate h = some (.deny, candidate.issuer) := by
          rw [vote, if_pos hcov, if_pos hd]
        rw [if_pos hd, if_pos hcov, List.filterMap_cons_some hvote, hauth]
        exact ih (t.add .deny (auth candidate.issuer m).1) _
      · by_cases ha : candidate.relationHash = h.allowRelationHash
        · have hvote : vote candidate h = some (.allow, candidate.issuer) := by
            rw [vote, if_pos hcov, if_neg hd, if_pos ha]
          rw [if_neg hd, if_pos ha, if_pos hcov, List.filterMap_cons_some hvote, hauth]
          exact ih (t.add .allow (auth candidate.issuer m).1) _
        · have hvote : vote candidate h = none := by
            rw [vote, if_pos hcov, if_neg hd, if_neg ha]
          rw [if_neg hd, if_neg ha, List.filterMap_cons_none hvote]
          exact ih t m
    · have hvote : vote candidate h = none := by rw [vote, if_neg hcov]
      rw [if_neg hcov, if_neg hcov, List.filterMap_cons_none hvote]
      simp only [ite_self]
      exact ih t m

theorem scanCandidates_eq
    (hauth : ∀ i m, authority' i (toMemory K m) = ((auth i m).1, toMemory K (auth i m).2))
    (hs : List Hypothesis) (candidates : List Tuple) (t : Tally) (m : Mem Hash) :
    scanCandidates authority' hs candidates (toFlags t) (toMemory K m) =
      (toFlags (scan auth (candidates.flatMap fun c => hs.filterMap (vote c)) t m).1,
        toMemory K (scan auth (candidates.flatMap fun c => hs.filterMap (vote c)) t m).2) := by
  induction candidates generalizing t m with
  | nil => rfl
  | cons c candidates ih =>
    rw [scanCandidates, List.flatMap_cons, scan_append]
    simp only [scanHypotheses_eq hauth]
    exact ih _ _

theorem resolve_eq
    (hauth : ∀ i m, authority' i (toMemory K m) = ((auth i m).1, toMemory K (auth i m).2))
    (maxVisited : ℕ) (active : List Tuple) (hs : List Hypothesis) (grantee : Hash)
    (m : Mem Hash) :
    resolve authority' maxVisited (granteeIndex active) hs grantee (toMemory K m) =
      (toResolution (VoteSearch.resolve maxVisited auth (votes active hs grantee) m).1,
        toMemory K (VoteSearch.resolve maxVisited auth (votes active hs grantee) m).2) := by
  unfold resolve VoteSearch.resolve
  by_cases h : maxVisited < m.tick.counter
  · rw [if_pos h, if_pos (show (toMemory K m).counter + 1 > maxVisited from h)]
    rfl
  · rw [if_neg h, if_neg (show ¬ (toMemory K m).counter + 1 > maxVisited from h),
      get?_granteeIndex]
    have hscan := scanCandidates_eq hauth hs (active.filter fun t => t.grantee = grantee)
      .empty m.tick
    change ((scanCandidates authority' hs _ (toFlags .empty) (toMemory K m.tick)).1.resolution,
      (scanCandidates authority' hs _ (toFlags .empty) (toMemory K m.tick)).2) = _
    rw [hscan]
    exact Prod.ext (resolution_toFlags _) rfl

variable (config : Config) (opts : Options) (remember : Bool) (active : List Tuple)
  (hypotheses : List Hypothesis)

theorem admin_admin (hs : List Hypothesis) :
    (hs.map Hypothesis.admin).map Hypothesis.admin = hs.map Hypothesis.admin := by
  rw [List.map_map]
  rfl

theorem objectKey_admin (hs : List Hypothesis) :
    objectKey (hs.map Hypothesis.admin) = objectKey hs := by
  rw [objectKey, List.map_map]
  rfl

theorem mem_toMemory (K : ObjectKey) (m : Mem Hash) (i : Hash) :
    decide ((i, K) ∈ (toMemory K m).memo) = decide (i ∈ m.memo) := by
  simp [toMemory]

theorem settle_toMemory (K : ObjectKey) (i : Hash) (r : Decision × Mem Hash) :
    (if r.1 = .allow then
      (true, if remember then { toMemory K r.2 with memo := (i, K) :: (toMemory K r.2).memo }
        else toMemory K r.2)
      else (false, toMemory K r.2)) =
    ((settle (settings opts remember) i r).1,
      toMemory K (settle (settings opts remember) i r).2) := by
  unfold settle
  by_cases h : r.1 = .allow
  · rw [if_pos h, if_pos h]
    cases remember <;> rfl
  · rw [if_neg h, if_neg h]

/-- `authority` asked about any of the hypotheses of this evaluation. -/
theorem authority_eq {hs : List Hypothesis}
    (hadmin : hs.map Hypothesis.admin = hypotheses.map Hypothesis.admin)
    (hkey : objectKey hs = K) (hops : ℕ) (visited : List Hash) (i : Hash) (m : Mem Hash) :
    authority config opts remember (granteeIndex active) hops hs visited i (toMemory K m) =
      ((VoteSearch.authority (graph config active hypotheses) (settings opts remember) hops
          visited i m).1,
        toMemory K (VoteSearch.authority (graph config active hypotheses)
          (settings opts remember) hops visited i m).2) := by
  -- the source's two tests, root and memo, are the search's `known`
  have hknown : ∀ {hs : List Hypothesis} (i : Hash) (m : Mem Hash), objectKey hs = K →
      ∀ x : Bool × Memory,
        (if config.isRootAnchor i then (true, toMemory K m)
          else if remember && decide ((i, objectKey hs) ∈ (toMemory K m).memo) then
            (true, toMemory K m)
          else x) =
        if known (graph config active hypotheses) (settings opts remember) m i then
          (true, toMemory K m) else x := by
    intro hs i m hkey x
    have hroot : (graph config active hypotheses).root i = config.isRootAnchor i := rfl
    rw [hkey, mem_toMemory, known, hroot]
    cases config.isRootAnchor i with
    | true => rfl
    | false =>
      rw [if_neg Bool.false_ne_true, Bool.false_or]
      simp only [settings, Bool.and_eq_true, decide_eq_true_eq]
  induction hops generalizing hs visited i m with
  | zero =>
    rw [authority, hknown i m hkey]
    cases hk : known (graph config active hypotheses) (settings opts remember) m i with
    | true => rw [authority_known hk, if_pos rfl]
    | false => rw [authority_zero hk, if_neg Bool.false_ne_true]
  | succ hops ih =>
    rw [authority, hknown i m hkey]
    cases hk : known (graph config active hypotheses) (settings opts remember) m i with
    | true => rw [authority_known hk, if_pos rfl]
    | false =>
      rw [if_neg Bool.false_ne_true]
      by_cases hv : i ∈ visited
      · rw [authority_visited hk hv, if_pos hv]
      · -- below the top every call asks about the admin relation of the same object
        have hrec := resolve_eq (K := K)
          (fun j m => ih ((admin_admin hs).trans hadmin) ((objectKey_admin hs).trans hkey)
            (i :: visited) j m) opts.maxVisited active (hs.map Hypothesis.admin) i m
        have hvotes : votes active (hs.map Hypothesis.admin) i =
            (graph config active hypotheses).votes i := by
          rw [hadmin]
          rfl
        rw [hvotes] at hrec
        rw [authority_open hk hv, if_neg hv]
        simp only [hrec, hkey, toResolution_eq_allow]
        exact settle_toMemory opts remember K i _

/-- One evaluation is one search. -/
theorem evaluation_eq (grantee : Hash) :
    evaluation config opts remember active grantee hypotheses =
      (toResolution (run (graph config active hypotheses) (settings opts remember) opts.maxDepth
          (votes active hypotheses grantee)).1,
        toMemory (objectKey hypotheses) (run (graph config active hypotheses)
          (settings opts remember) opts.maxDepth (votes active hypotheses grantee)).2) :=
  resolve_eq (fun i m => authority_eq config opts remember active hypotheses rfl rfl
    opts.maxDepth [] i m) opts.maxVisited active hypotheses grantee .fresh

end Refinement

/-! ## Votes and the tuples behind them -/

/-- The tuple carries this relation hash on an object that covers the requested one. -/
def Carries (t : Tuple) (relationHash : Hash) (h : Hypothesis) : Prop :=
  t.relationHash = relationHash ∧ covers t.objectHashes t.wildcard h.objectHashes = true

section Votes

variable {active : List Tuple} {hs : List Hypothesis} {g j : Hash}

theorem mem_votes {v : Sign × Hash} : v ∈ votes active hs g ↔
    ∃ t ∈ active, t.grantee = g ∧ ∃ h ∈ hs, vote t h = some v := by
  simp only [votes, List.mem_flatMap, List.mem_filter, List.mem_filterMap, decide_eq_true_eq]
  constructor
  · rintro ⟨t, ⟨ht, hg⟩, h, hh, hv⟩
    exact ⟨t, ht, hg, h, hh, hv⟩
  · rintro ⟨t, ht, hg, h, hh, hv⟩
    exact ⟨t, ⟨ht, hg⟩, h, hh, hv⟩

theorem vote_issuer {t : Tuple} {h : Hypothesis} {v : Sign × Hash} (hv : vote t h = some v) :
    v.2 = t.issuer := by
  unfold vote at hv
  split_ifs at hv <;> cases hv <;> rfl

theorem exists_of_allow_vote (hv : (.allow, j) ∈ votes active hs g) :
    ∃ t ∈ active, t.grantee = g ∧ t.issuer = j ∧ ∃ h ∈ hs, Carries t h.allowRelationHash h := by
  obtain ⟨t, ht, hg, h, hh, hv⟩ := mem_votes.mp hv
  refine ⟨t, ht, hg, (vote_issuer hv).symm, h, hh, ?_⟩
  unfold vote at hv
  split_ifs at hv with hcov hd ha
  · cases hv
  · exact ⟨ha, hcov⟩

theorem exists_of_deny_vote (hv : (.deny, j) ∈ votes active hs g) :
    ∃ t ∈ active, t.grantee = g ∧ t.issuer = j ∧ ∃ h ∈ hs, Carries t h.denyRelationHash h := by
  obtain ⟨t, ht, hg, h, hh, hv⟩ := mem_votes.mp hv
  refine ⟨t, ht, hg, (vote_issuer hv).symm, h, hh, ?_⟩
  unfold vote at hv
  split_ifs at hv with hcov hd
  · exact ⟨hd, hcov⟩
  · cases hv

theorem deny_vote_of_carries {t : Tuple} (ht : t ∈ active) {h : Hypothesis} (hh : h ∈ hs)
    (hc : Carries t h.denyRelationHash h) : (.deny, t.issuer) ∈ votes active hs t.grantee :=
  mem_votes.mpr ⟨t, ht, rfl, h, hh, by rw [vote, if_pos hc.2, if_pos hc.1]⟩

theorem allow_vote_of_carries {t : Tuple} (ht : t ∈ active) {h : Hypothesis} (hh : h ∈ hs)
    (hc : Carries t h.allowRelationHash h) (hd : t.relationHash ≠ h.denyRelationHash) :
    (.allow, t.issuer) ∈ votes active hs t.grantee :=
  mem_votes.mpr ⟨t, ht, rfl, h, hh, by rw [vote, if_pos hc.2, if_neg hd, if_pos hc.1]⟩

theorem no_deny_vote (h : ∀ t ∈ active, t.grantee = g → ∀ h ∈ hs,
    t.relationHash ≠ h.denyRelationHash) : (.deny, j) ∉ votes active hs g := by
  intro hj
  obtain ⟨t, ht, hg, _, x, hx, hc⟩ := exists_of_deny_vote hj
  exact h t ht hg x hx hc.1

theorem no_admin_deny_vote (config : Config)
    (h : ∀ t ∈ active, ∀ h ∈ hs, t.relationHash ≠ h.adminDenyHash) (i j : Hash) :
    (.deny, j) ∉ (graph config active hs).votes i := by
  refine no_deny_vote fun t ht _ x hx => ?_
  obtain ⟨y, hy, rfl⟩ := List.mem_map.mp hx
  exact h t ht y hy

end Votes

/-! ## Delegated authority -/

section Delegation

variable (config : Config) (active : List Tuple) (hs : List Hypothesis)

/-- A Root Trust Anchor, or linked to one by active admin grants on the requested object. -/
inductive Delegated : Hash → Prop
  | anchor {i : Hash} (h : config.isRootAnchor i = true) : Delegated i
  | granted {t : Tuple} {h : Hypothesis} (ht : t ∈ active) (hh : h ∈ hs)
      (hc : Carries t h.adminAllowHash h) (hi : Delegated t.issuer) : Delegated t.grantee

variable {config active hs}

theorem delegated_of_linked {i : Hash} (h : Linked (graph config active hs) i) :
    Delegated config active hs i := by
  induction h with
  | root hr => exact .anchor hr
  | step ha _ ih =>
    obtain ⟨t, ht, hg, hi, _, hadmin, hc⟩ := exists_of_allow_vote ha
    obtain ⟨h, hh, rfl⟩ := List.mem_map.mp hadmin
    subst hg hi
    exact .granted ht hh hc ih

theorem not_delegated {i : Hash} (hr : config.isRootAnchor i = false)
    (hg : ∀ t ∈ active, t.grantee = i → ∀ h ∈ hs, t.relationHash ≠ h.adminAllowHash) :
    ¬ Delegated config active hs i := by
  intro h
  cases h with
  | anchor h => simp [hr] at h
  | granted ht hh hc _ => exact hg _ ht rfl _ hh hc.1

/-- Where every deny is by an issuer without delegated authority, no deny can count. -/
theorem idleDenies_of_strangers (H : ℕ) {g : Hash}
    (hdeny : ∀ t ∈ active, t.grantee = g → ∀ h ∈ hs, t.relationHash = h.denyRelationHash →
      ¬ Delegated config active hs t.issuer)
    (hadmin : ∀ t ∈ active, ∀ h ∈ hs, t.relationHash = h.adminDenyHash →
      ¬ Delegated config active hs t.issuer) :
    IdleDenies (graph config active hs) H (votes active hs g) where
  top := by
    intro j hj hl
    obtain ⟨t, ht, hg, rfl, x, hx, hc⟩ := exists_of_deny_vote hj
    exact hdeny t ht hg x hx hc.1 (delegated_of_linked hl)
  below := by
    intro _ _ i _ j hj hl
    obtain ⟨t, ht, -, rfl, x, hx, hc⟩ := exists_of_deny_vote hj
    obtain ⟨y, hy, rfl⟩ := List.mem_map.mp hx
    exact hadmin t ht y hy hc.1 (delegated_of_linked hl)

end Delegation

/-! ## Evaluations as searches -/

section Search

variable {κ : Type*} [DecidableEq κ] {key : Tuple → κ} (e : Engine key) (remember : Bool)
  (grantee : Hash) (hypotheses : List Hypothesis)

/-- The graph an engine searches for one request. -/
def graphOf : VoteGraph Hash := graph e.config e.state.activeTuples hypotheses

/-- The votes on the grantee of the request. -/
def votesOf : List (Sign × Hash) := votes e.state.activeTuples hypotheses grantee

/-- The search that one evaluation is. -/
def search : Decision × Mem Hash :=
  run (e.graphOf hypotheses) (settings e.options remember) e.options.maxDepth
    (e.votesOf grantee hypotheses)

/-- The memo misleads the search for the request nowhere, or to no effect. -/
def Unmisled : Prop :=
  VoteSearch.Unmisled (e.graphOf hypotheses) e.options.maxDepth (e.votesOf grantee hypotheses)

/-- What can be said of the verdict beforehand, whatever will be remembered. -/
def prospect : Prospect :=
  outlook (e.graphOf hypotheses) (fun n => decide (n < e.options.maxVisited)) e.options.maxDepth
    (e.votesOf grantee hypotheses)

/-- The verdict of the same search without the memo and the work bound. -/
def judged : Bool :=
  passes (holds (e.graphOf hypotheses) e.options.maxDepth []) (e.votesOf grantee hypotheses)

/-- The memo does not change the verdict: it misleads the search nowhere or to no effect, or
the search comes to its own verdict all the same. -/
def MemoHarmless : Prop :=
  e.Unmisled grantee hypotheses ∨
    e.evaluateHashes grantee hypotheses = e.judged grantee hypotheses

theorem evaluateHashes_eq :
    e.evaluateHashes grantee hypotheses =
      decide ((e.search true grantee hypotheses).1 = .allow) := by
  rw [evaluateHashes, evaluation_eq, decide_eq_decide]
  exact toResolution_eq_allow _

theorem evaluateUnmemoised_eq :
    e.evaluateUnmemoised grantee hypotheses =
      decide ((e.search false grantee hypotheses).1 = .allow) := by
  rw [evaluateUnmemoised, evaluation_eq, decide_eq_decide]
  exact toResolution_eq_allow _

theorem exceeds_iff :
    e.Exceeds remember grantee hypotheses ↔
      e.options.maxVisited < (e.search remember grantee hypotheses).2.counter := by
  rw [Exceeds, evaluation_eq]
  rfl

theorem not_exceeds_iff :
    ¬ e.Exceeds remember grantee hypotheses ↔
      (e.search remember grantee hypotheses).2.counter ≤ (settings e.options remember).cap := by
  rw [exceeds_iff, not_lt]
  rfl

variable {e grantee hypotheses}

/-- Within the work bound a memo that does not change the verdict leaves that of the search. -/
theorem MemoHarmless.evaluateHashes_eq_judged (h : e.MemoHarmless grantee hypotheses)
    (hfit : ¬ e.Exceeds true grantee hypotheses) :
    e.evaluateHashes grantee hypotheses = e.judged grantee hypotheses := by
  rcases h with hsafe | hsame
  · rw [evaluateHashes_eq]
    exact run_agrees (fun _ => hsafe) ((not_exceeds_iff e true grantee hypotheses).mp hfit)
  · exact hsame

variable (e grantee hypotheses)

/-- An evaluation allows if it surely does, and only if it may. -/
theorem evaluateHashes_foreseen :
    (e.prospect grantee hypotheses).Admits (e.evaluateHashes grantee hypotheses) := by
  rw [evaluateHashes_eq]
  exact run_foreseen rfl (fun h => of_decide_eq_true h) (.inl fun _ => rfl)

end Search

/-! ## Small scenes

Identities and relation hashes that repeat one byte, tuples over every object, one
salt: enough to run an evaluation on. -/

section Scenes

def identity (b : UInt8) : Hash := Blob.fill 16 b

def permit (issuer grantee : UInt8) (relation : Hash) : Tuple where
  relationHash := relation
  objectHashes := []
  wildcard := true
  grantee := identity grantee
  issuer := identity issuer
  segments_le := Nat.zero_le _

def sceneAllow : Hash := Blob.fill 16 0xa1
def sceneDeny : Hash := Blob.fill 16 0xd1
def sceneAdmin : Hash := Blob.fill 16 0xa2
def sceneAdminDeny : Hash := Blob.fill 16 0xd2

def sceneHypothesis : Hypothesis where
  hasher := ⟨Blob.fill 32 0⟩
  objectHashes := []
  allowRelationHash := sceneAllow
  denyRelationHash := sceneDeny
  adminAllowHash := sceneAdmin
  adminDenyHash := sceneAdminDeny

/-- Identity 0 is the one Root Trust Anchor. -/
def sceneConfig : Config where
  rootTrustAnchors := [identity 0]
  primarySalt := Blob.fill 32 0
  legacySalts := []
  authoritativeIdentity := none
  anchors_ne := by simp
  legacy_le := by decide

/-- The state after one grant of each tuple, in this order. -/
def granted (ts : List Tuple) : StateVector Tuple.key :=
  ts.foldl (fun s t => s.record ⟨t, .grant, 0, [], Nat.zero_le _⟩)
    (.empty defaultDeletionHorizonDays)

/-- An allow whose issuer is ten delegations away from issuer 3, one more than the depth
bound admits; 3 is delegated by the anchor. -/
def climb : List Tuple :=
  [permit 11 1 sceneAllow] ++
    ((List.range 9).map fun n => permit (UInt8.ofNat (n + 12)) (UInt8.ofNat (n + 11)) sceneAdmin) ++
    [permit 3 20 sceneAdmin, permit 0 3 sceneAdmin]

/-- A deny whose issuer the anchor denies, but is found out only after issuer 3. -/
def deniedDenier : List Tuple :=
  [permit 2 1 sceneDeny, permit 3 2 sceneAdmin, permit 0 2 sceneAdminDeny]

/-- Two admins of the anchor's who also made each other admin; one of them allows, and a
stranger denies. -/
def peers : List Tuple :=
  [permit 2 1 sceneAllow, permit 9 1 sceneDeny, permit 0 2 sceneAdmin, permit 3 2 sceneAdmin,
    permit 0 3 sceneAdmin, permit 2 3 sceneAdmin]

def scene (opts : Options) (ts : List Tuple) : Engine Tuple.key := ⟨sceneConfig, granted ts, opts⟩

end Scenes

end Dacar.Engine

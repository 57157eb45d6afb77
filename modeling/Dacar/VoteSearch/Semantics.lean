import Dacar.VoteSearch.Sound

/-!
# The search without its counter and its memo

`holds` is the judgement the search approximates: the same recursion with the
same hop bound and the same cycle check, but with unlimited steps and nothing
remembered.  A search that stays within its cap and remembers nothing computes it.
-/

namespace VoteSearch

variable {ι : Type*}

/-- The tally of the votes when `p` says which casters count. -/
def tallyBy (p : ι → Bool) (vs : List (Sign × ι)) (t : Tally) : Tally :=
  vs.foldl (fun t v => t.add v.1 (p v.2)) t

/-- The verdict of these votes is to allow. -/
def passes (p : ι → Bool) (vs : List (Sign × ι)) : Bool :=
  decide ((tallyBy p vs .empty).verdict = .allow)

section Tallies

variable {p q : ι → Bool} {vs : List (Sign × ι)}

theorem tallyBy_has (s : Sign) (t : Tally) : (tallyBy p vs t).has s = true ↔
    t.has s = true ∨ ∃ j, (s, j) ∈ vs ∧ p j = true := by
  induction vs generalizing t with
  | nil => simp [tallyBy]
  | cons v vs ih =>
    obtain ⟨s', i⟩ := v
    rw [tallyBy, List.foldl_cons, ← tallyBy, ih, Tally.has_add, Bool.or_eq_true, or_assoc]
    refine or_congr_right ?_
    simp only [Bool.and_eq_true, decide_eq_true_eq, List.mem_cons, Prod.mk.injEq]
    grind

/-- Nobody who counts denies, and somebody who counts allows. -/
theorem passes_iff : passes p vs = true ↔
    (∀ j, (.deny, j) ∈ vs → p j = false) ∧ ∃ j, (.allow, j) ∈ vs ∧ p j = true := by
  have hd : (tallyBy p vs .empty).deny = true ↔ _ := tallyBy_has .deny .empty
  have ha : (tallyBy p vs .empty).allow = true ↔ _ := tallyBy_has .allow .empty
  simp only [Tally.has, Tally.empty, Bool.false_eq_true, false_or] at hd ha
  rw [passes, decide_eq_true_iff, Tally.verdict_eq_allow, ← Bool.not_eq_true, ← ha]
  simp only [Tally.empty, hd, not_exists, not_and, Bool.not_eq_true]

end Tallies

variable [DecidableEq ι]

/-- The judgement of a node with `hops` left and `visited` on the path. -/
def holds (G : VoteGraph ι) : ℕ → List ι → ι → Bool
  | 0, _, i => G.root i
  | hops + 1, visited, i =>
    G.root i || (decide (i ∉ visited) && passes (holds G hops (i :: visited)) (G.votes i))

section Holds

variable {G : VoteGraph ι} {hops : ℕ} {visited : List ι} {i : ι}

theorem holds_root (h : G.root i = true) : holds G hops visited i = true := by
  cases hops <;> simp [holds, h]

theorem holds_cut (h : G.root i = false) (hc : hops = 0 ∨ i ∈ visited) :
    holds G hops visited i = false := by
  rcases hc with rfl | hv
  · simp [holds, h]
  · cases hops <;> simp [holds, h, hv]

theorem holds_open (h : G.root i = false) (hv : i ∉ visited) :
    holds G (hops + 1) visited i = passes (holds G hops (i :: visited)) (G.votes i) := by
  simp [holds, h, hv]

theorem holds_warranted (h : holds G hops visited i = true) : Warranted G i := by
  induction hops generalizing visited i with
  | zero => exact .root h
  | succ hops ih =>
    cases hr : G.root i with
    | true => exact .root hr
    | false =>
      by_cases hv : i ∈ visited
      · simp [holds_cut hr (.inr hv)] at h
      · rw [holds_open hr hv] at h
        obtain ⟨hdeny, j, hj, hpj⟩ := passes_iff.mp h
        refine .step (fun d hd => ?_) hj (ih hpj)
        -- a denier that held was no root, since roots always hold
        by_contra hroot
        have htrue : holds G hops (i :: visited) d = true := holds_root (by simpa using hroot)
        simp [hdeny d hd] at htrue

theorem holds_linked (h : holds G hops visited i = true) : Linked G i := (holds_warranted h).linked

end Holds

/-! ## The contexts a search can meet -/

/-- A node together with the hops left and the path by which a search for the votes
`vs` with `H` hops can reach it. -/
inductive Context (G : VoteGraph ι) (H : ℕ) (vs : List (Sign × ι)) : ℕ → List ι → ι → Prop
  | start {s : Sign} {i : ι} (h : (s, i) ∈ vs) : Context G H vs H [] i
  | step {hops : ℕ} {visited : List ι} {i j : ι} {s : Sign}
      (h : Context G H vs (hops + 1) visited i) (hr : G.root i = false) (hv : i ∉ visited)
      (hj : (s, j) ∈ G.votes i) :
      Context G H vs hops (i :: visited) j

/-- No deny the search can meet is cast by a node that allow votes link to a root. -/
structure IdleDenies (G : VoteGraph ι) (H : ℕ) (vs : List (Sign × ι)) : Prop where
  top : ∀ j, (.deny, j) ∈ vs → ¬ Linked G j
  below : ∀ hops visited i, Context G H vs hops visited i → ∀ j, (.deny, j) ∈ G.votes i →
    ¬ Linked G j

/-! ## Searches that stay within their cap -/

section Agreement

variable {auth : ι → Mem ι → Bool × Mem ι} {vs : List (Sign × ι)} {cap : ℕ}

omit [DecidableEq ι] in
/-- If, within the cap, every vote is answered by `p`, so is the scan. -/
theorem scan_agrees {p : ι → Bool} {I : List ι → Prop}
    (hmono : ∀ i m, m.counter ≤ (auth i m).2.counter)
    (hauth : ∀ v ∈ vs, ∀ m, I m.memo → (auth v.2 m).2.counter ≤ cap →
      (auth v.2 m).1 = p v.2 ∧ I (auth v.2 m).2.memo)
    {t : Tally} {m : Mem ι} (hm : I m.memo) (hfit : (scan auth vs t m).2.counter ≤ cap) :
    (scan auth vs t m).1 = tallyBy p vs t ∧ I (scan auth vs t m).2.memo := by
  induction vs generalizing t m with
  | nil => exact ⟨rfl, hm⟩
  | cons v vs ih =>
    have hle : (auth v.2 m).2.counter ≤ cap :=
      (scan_counter_le (fun w _ m => hmono w.2 m) _ _).trans hfit
    obtain ⟨hp, hinv⟩ := hauth v List.mem_cons_self m hm hle
    have hrest := ih (fun w hw => hauth w (List.mem_cons_of_mem v hw)) hinv hfit
    rw [tallyBy, List.foldl_cons, ← tallyBy, ← hp]
    exact hrest

omit [DecidableEq ι] in
theorem resolve_agrees {p : ι → Bool} {I : List ι → Prop}
    (hmono : ∀ i m, m.counter ≤ (auth i m).2.counter)
    (hauth : ∀ v ∈ vs, ∀ m, I m.memo → (auth v.2 m).2.counter ≤ cap →
      (auth v.2 m).1 = p v.2 ∧ I (auth v.2 m).2.memo)
    {m : Mem ι} (hm : I m.memo) (hfit : (resolve cap auth vs m).2.counter ≤ cap) :
    decide ((resolve cap auth vs m).1 = .allow) = passes p vs ∧
      I (resolve cap auth vs m).2.memo := by
  have he := resolve_of_fits hfit
  rw [he] at hfit ⊢
  obtain ⟨ht, hinv⟩ := scan_agrees hmono hauth (m := m.tick) hm hfit
  exact ⟨by rw [passes, ← ht], hinv⟩

variable {G : VoteGraph ι} {cfg : Settings} {H : ℕ}

theorem authority_plain (hcfg : cfg.memoised = false) (hops : ℕ) (visited : List ι) (i : ι)
    (m : Mem ι) (hfit : (authority G cfg hops visited i m).2.counter ≤ cfg.cap) :
    (authority G cfg hops visited i m).1 = holds G hops visited i := by
  induction hops, visited, i, m using authority_induct G cfg with
  | hknown hops visited i m hk =>
    rcases known_iff.mp hk with hr | ⟨hmemo, -⟩
    · exact (holds_root hr).symm
    · rw [hcfg] at hmemo
      cases hmemo
  | hcut hops visited i m hk hcut =>
    have hr : G.root i = false := (Bool.or_eq_false_iff.mp hk).1
    exact (holds_cut hr hcut).symm
  | hopen hops visited i m hk hv ih =>
    have hr : G.root i = false := (Bool.or_eq_false_iff.mp hk).1
    rw [settle_counter] at hfit
    rw [settle_fst, holds_open hr hv]
    exact (resolve_agrees (p := holds G hops (i :: visited)) (I := fun _ => True)
      (fun j m => authority_counter_le hops (i :: visited) j m)
      (fun w _ m _ hf => ⟨ih w.2 m hf, trivial⟩) trivial hfit).1

/-- Within its cap a search that remembers nothing computes `holds`. -/
theorem run_plain (hcfg : cfg.memoised = false)
    (hfit : (run G cfg H vs).2.counter ≤ cfg.cap) :
    decide ((run G cfg H vs).1 = .allow) = passes (holds G H []) vs :=
  (resolve_agrees (p := holds G H []) (I := fun _ => True)
    (fun i m => authority_counter_le H [] i m)
    (fun v _ m _ hf => ⟨authority_plain hcfg H [] v.2 m hf, trivial⟩) trivial hfit).1

end Agreement

end VoteSearch

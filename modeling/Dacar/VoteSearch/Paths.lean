import Dacar.VoteSearch.Recall

/-!
# Paths of allow votes and the hop bound

A positive answer stands at the end of a path of allow votes from a root.  Without
denies the judgement is the existence of a short enough simple path.  With denies a node
remembered below one of them may be met again with fewer hops left than its path takes.
-/

namespace VoteSearch

variable {ι : Type*} (G : VoteGraph ι)

/-- The nodes from one to a root along allow votes, the root left out. -/
inductive Path : ι → List ι → Prop
  | root {i : ι} (h : G.root i = true) : Path i []
  | step {i j : ι} {l : List ι} (hr : G.root i = false) (ha : (.allow, j) ∈ G.votes i)
      (hj : Path j l) : Path i (i :: l)

/-- Some path to a root passes at most `hops` nodes. -/
def linkedWithin : ℕ → ι → Bool
  | 0, i => G.root i
  | hops + 1, i =>
    G.root i || (G.votes i).any fun v => decide (v.1 = .allow) && linkedWithin hops v.2

variable {G}

theorem linkedWithin_root {hops : ℕ} {i : ι} (h : G.root i = true) :
    linkedWithin G hops i = true := by
  cases hops <;> simp [linkedWithin, h]

theorem linkedWithin_step {hops : ℕ} {i j : ι} (ha : (.allow, j) ∈ G.votes i)
    (hj : linkedWithin G hops j = true) : linkedWithin G (hops + 1) i = true := by
  rw [linkedWithin, Bool.or_eq_true, List.any_eq_true]
  exact .inr ⟨(.allow, j), ha, by simpa using hj⟩

theorem linkedWithin_iff {hops : ℕ} {i : ι} :
    linkedWithin G hops i = true ↔ ∃ l, Path G i l ∧ l.length ≤ hops := by
  constructor
  · intro h
    induction hops generalizing i with
    | zero => exact ⟨[], .root h, le_rfl⟩
    | succ hops ih =>
      cases hr : G.root i with
      | true => exact ⟨[], .root hr, Nat.zero_le _⟩
      | false =>
        rw [linkedWithin, hr, Bool.false_or, List.any_eq_true] at h
        obtain ⟨⟨s, j⟩, hv, hj⟩ := h
        obtain ⟨rfl, hj⟩ : s = .allow ∧ linkedWithin G hops j = true := by simpa using hj
        obtain ⟨l, hl, hlen⟩ := ih hj
        exact ⟨i :: l, .step hr hv hl, Nat.succ_le_succ hlen⟩
  · rintro ⟨l, hl, hlen⟩
    induction hl generalizing hops with
    | root hr => exact linkedWithin_root hr
    | step hr ha _ ih =>
      obtain ⟨hops, rfl⟩ : ∃ n, hops = n + 1 :=
        Nat.exists_eq_succ_of_ne_zero (by simp at hlen; omega)
      exact linkedWithin_step ha (ih (Nat.le_of_succ_le_succ hlen))

/-! ## Judgements without denies -/

section DenyFree

variable [DecidableEq ι]

/-- Where nobody is denied, a node holds exactly when a simple path that avoids the
visited nodes leads from it to a root within the hops. -/
theorem holds_iff_path (hfree : ∀ i j, (.deny, j) ∉ G.votes i) {hops : ℕ} {visited : List ι}
    {i : ι} : holds G hops visited i = true ↔
      ∃ l, Path G i l ∧ l.length ≤ hops ∧ l.Nodup ∧ ∀ x ∈ l, x ∉ visited := by
  constructor
  · intro h
    induction hops generalizing visited i with
    | zero => exact ⟨[], .root h, le_rfl, .nil, by simp⟩
    | succ hops ih =>
      cases hr : G.root i with
      | true => exact ⟨[], .root hr, Nat.zero_le _, .nil, by simp⟩
      | false =>
        have hv : i ∉ visited := by
          intro hv
          rw [holds_cut hr (.inr hv)] at h
          cases h
        rw [holds_open hr hv] at h
        obtain ⟨-, j, hj, hpj⟩ := passes_iff.mp h
        obtain ⟨l, hl, hlen, hnodup, havoid⟩ := ih hpj
        refine ⟨i :: l, .step hr hj hl, Nat.succ_le_succ hlen,
          List.nodup_cons.mpr ⟨fun hi => havoid i hi List.mem_cons_self, hnodup⟩, fun x hx => ?_⟩
        rcases List.mem_cons.mp hx with rfl | hx
        · exact hv
        · exact fun hxv => havoid x hx (List.mem_cons_of_mem i hxv)
  · rintro ⟨l, hl, hlen, hnodup, havoid⟩
    induction hl generalizing hops visited with
    | root hr => exact holds_root hr
    | @step i j l hr ha _ ih =>
      obtain ⟨hops, rfl⟩ : ∃ n, hops = n + 1 :=
        Nat.exists_eq_succ_of_ne_zero (by simp at hlen; omega)
      obtain ⟨hi, hnodup⟩ := List.nodup_cons.mp hnodup
      rw [holds_open hr (havoid i List.mem_cons_self)]
      refine passes_iff.mpr ⟨fun d hd => absurd hd (hfree i d), j, ha, ?_⟩
      refine ih (Nat.le_of_succ_le_succ hlen) hnodup fun x hx hxv => ?_
      rcases List.mem_cons.mp hxv with rfl | hxv
      · exact hi hx
      · exact havoid x (List.mem_cons_of_mem i hx) hxv

end DenyFree

/-- A node that holds has a path within the hops. -/
theorem holds_linkedWithin [DecidableEq ι] {hops : ℕ} {visited : List ι} {i : ι}
    (h : holds G hops visited i = true) : linkedWithin G hops i = true := by
  induction hops generalizing visited i with
  | zero => exact h
  | succ hops ih =>
    cases hr : G.root i with
    | true => exact linkedWithin_root hr
    | false =>
      by_cases hv : i ∈ visited
      · rw [holds_cut hr (.inr hv)] at h
        cases h
      · rw [holds_open hr hv] at h
        obtain ⟨-, j, hj, hpj⟩ := passes_iff.mp h
        exact linkedWithin_step hj (ih hpj)

/-! ## Remembered nodes and the hops left

If no caster has a path within the hops, no node on a path of allow votes is found
authorised, unless one found below a deny is remembered there. -/

/-- A node that is looked at with some hops left; `granted` when allow votes alone led to it. -/
structure Look (ι : Type*) where
  granted : Bool
  hops : ℕ
  node : ι
  deriving DecidableEq

section Trail

variable [DecidableEq ι]

/-- The nodes a search may look at, in scan order: roots and nodes already on the path are
answered at once. -/
def trail (G : VoteGraph ι) : ℕ → Bool → List ι → ι → List (Look ι)
  | 0, granted, visited, i => if G.root i || decide (i ∈ visited) then [] else [⟨granted, 0, i⟩]
  | hops + 1, granted, visited, i =>
    if G.root i || decide (i ∈ visited) then []
    else ⟨granted, hops + 1, i⟩ :: (G.votes i).flatMap fun v =>
      trail G hops (granted && decide (v.1 = .allow)) (i :: visited) v.2

theorem mem_trail {hops : ℕ} {granted : Bool} {visited : List ι} {i : ι} (hr : G.root i = false)
    (hv : i ∉ visited) : ⟨granted, hops, i⟩ ∈ trail G hops granted visited i := by
  cases hops <;> simp [trail, hr, hv]

theorem trail_open {hops : ℕ} {granted : Bool} {visited : List ι} {i : ι} (hr : G.root i = false)
    (hv : i ∉ visited) : trail G (hops + 1) granted visited i =
      ⟨granted, hops + 1, i⟩ :: (G.votes i).flatMap fun v =>
        trail G hops (granted && decide (v.1 = .allow)) (i :: visited) v.2 := by
  simp [trail, hr, hv]

/-- If the first look, below a deny, may find the node, the second, along allow votes, has the
hops that its path takes. -/
def KeepsHops (G : VoteGraph ι) (a b : Look ι) : Prop :=
  a.granted = false → 0 < a.hops → b.granted = true → a.node = b.node → Warranted G a.node →
    linkedWithin G b.hops a.node = true

/-- No warranted node that was looked at below a deny is looked at later along allow votes
with too few hops. -/
def HopSafe (G : VoteGraph ι) (H : ℕ) (vs : List (Sign × ι)) : Prop :=
  (vs.flatMap fun v => trail G H (decide (v.1 = .allow)) [] v.2).Pairwise (KeepsHops G)

/-- Every remembered node was looked at before, below a deny, and is not on the current path. -/
structure MemoBelow (G : VoteGraph ι) (done : List (Look ι)) (visited memo : List ι) : Prop where
  warranted : ∀ i ∈ memo, Warranted G i
  below : ∀ i ∈ memo, ∃ a ∈ done, a.granted = false ∧ 0 < a.hops ∧ a.node = i
  apart : ∀ i ∈ memo, i ∉ visited

omit [DecidableEq ι] in
theorem MemoBelow.mono {done done' : List (Look ι)} {visited memo : List ι}
    (h : MemoBelow G done visited memo) (hsub : ∀ a ∈ done, a ∈ done') :
    MemoBelow G done' visited memo := by
  refine ⟨h.warranted, fun i hi => ?_, h.apart⟩
  obtain ⟨a, ha, hbelow⟩ := h.below i hi
  exact ⟨a, hsub a ha, hbelow⟩

section Scan

variable {auth : ι → Mem ι → Bool × Mem ι} {vs : List (Sign × ι)} (granted : Bool)
  (tr : Sign × ι → List (Look ι)) {R : Look ι → Look ι → Prop}
  {I : List (Look ι) → List ι → Prop}

omit [DecidableEq ι] in
/-- A scan follows the trails of its votes, one after the other. -/
theorem scan_follows (hauth : ∀ v ∈ vs, ∀ done m, (done ++ tr v).Pairwise R → I done m.memo →
      ((granted && decide (v.1 = .allow)) = true → (auth v.2 m).1 = false) ∧
        I (done ++ tr v) (auth v.2 m).2.memo)
    {done : List (Look ι)} (hR : (done ++ vs.flatMap tr).Pairwise R)
    {t : Tally} (ht : granted = true → t.allow = false) {m : Mem ι} (hm : I done m.memo) :
    (granted = true → (scan auth vs t m).1.allow = false) ∧
      I (done ++ vs.flatMap tr) (scan auth vs t m).2.memo := by
  induction vs generalizing done t m with
  | nil => simpa [scan] using ⟨ht, hm⟩
  | cons v vs ih =>
    rw [List.flatMap_cons, ← List.append_assoc] at hR ⊢
    obtain ⟨hno, hm'⟩ := hauth v List.mem_cons_self done m (List.pairwise_append.mp hR).1 hm
    refine ih (fun w hw => hauth w (List.mem_cons_of_mem v hw)) hR (fun hg => ?_) hm'
    obtain ⟨s, i⟩ := v
    cases s with
    | deny => exact ht hg
    | allow =>
      have hi : (auth i m).1 = false := hno (by simp [hg])
      rw [Tally.add_allow_allow, ht hg, hi]
      rfl

omit [DecidableEq ι] in
theorem resolve_follows (cap : ℕ) {visited : List ι}
    (hauth : ∀ v ∈ vs, ∀ done m, (done ++ tr v).Pairwise (KeepsHops G) →
      MemoBelow G done visited m.memo →
      ((granted && decide (v.1 = .allow)) = true → (auth v.2 m).1 = false) ∧
        MemoBelow G (done ++ tr v) visited (auth v.2 m).2.memo)
    {done : List (Look ι)} (hR : (done ++ vs.flatMap tr).Pairwise (KeepsHops G))
    {m : Mem ι} (hm : MemoBelow G done visited m.memo) :
    (granted = true → (resolve cap auth vs m).1 ≠ .allow) ∧
      MemoBelow G (done ++ vs.flatMap tr) visited (resolve cap auth vs m).2.memo := by
  unfold resolve
  split_ifs with hc
  · exact ⟨by simp, hm.mono fun a ha => List.mem_append_left _ ha⟩
  · have hempty : granted = true → Tally.empty.allow = false := fun _ => rfl
    obtain ⟨hno, hm'⟩ := scan_follows granted tr (I := fun done => MemoBelow G done visited)
      hauth hR hempty (m := m.tick) hm
    refine ⟨fun hg h => ?_, hm'⟩
    have hallow := (Tally.verdict_eq_allow.mp h).2
    rw [hno hg] at hallow
    cases hallow

end Scan

variable {cfg : Settings}

/-- Along allow votes no node without a path within the hops is found, cut off or not. -/
theorem authority_follows (hcfg : cfg.memoised = true) (hops : ℕ) (visited : List ι) (i : ι)
    (m : Mem ι) {granted : Bool} {done : List (Look ι)}
    (hR : (done ++ trail G hops granted visited i).Pairwise (KeepsHops G))
    (hm : MemoBelow G done visited m.memo)
    (hfar : granted = true → linkedWithin G hops i = false) :
    (granted = true → (authority G cfg hops visited i m).1 = false) ∧
      MemoBelow G (done ++ trail G hops granted visited i) visited
        (authority G cfg hops visited i m).2.memo := by
  induction hops, visited, i, m using authority_induct G cfg generalizing granted done with
  | hknown hops visited i m hk =>
    refine ⟨fun hg => ?_, hm.mono fun a ha => List.mem_append_left _ ha⟩
    have hnear : linkedWithin G hops i = true := by
      cases hr : G.root i with
      | true => exact linkedWithin_root hr
      | false =>
        -- remembered, so looked at before, below a deny
        obtain ⟨-, hi⟩ := (known_iff.mp hk).resolve_left (by simp [hr])
        obtain ⟨a, ha, hbelow, hpos, rfl⟩ := hm.below i hi
        exact (List.pairwise_append.mp hR).2.2 a ha _ (mem_trail hr (hm.apart _ hi)) hbelow hpos
          hg rfl (hm.warranted _ hi)
    rw [hfar hg] at hnear
    cases hnear
  | hcut => exact ⟨fun _ => rfl, hm.mono fun a ha => List.mem_append_left _ ha⟩
  | hopen hops visited i m hk hv ih =>
    have hr : G.root i = false := (Bool.or_eq_false_iff.mp hk).1
    have hnew : i ∉ m.memo := by
      intro hi
      rw [known_iff.mpr (.inr ⟨hcfg, hi⟩)] at hk
      cases hk
    rw [trail_open hr hv, List.append_cons] at hR ⊢
    have hstart : MemoBelow G (done ++ [⟨granted, hops + 1, i⟩]) (i :: visited) m.memo :=
      ⟨hm.warranted, (hm.mono fun a ha => List.mem_append_left _ ha).below,
        fun x hx => List.not_mem_cons_of_ne_of_not_mem (fun h => hnew (h ▸ hx)) (hm.apart x hx)⟩
    obtain ⟨hno, hmemo⟩ := resolve_follows granted
      (fun v => trail G hops (granted && decide (v.1 = .allow)) (i :: visited) v.2) cfg.cap
      (fun v hv' done m hR hm => ih v.2 m hR hm fun hg => by
        obtain ⟨hgranted, hallow⟩ := Bool.and_eq_true_iff.mp hg
        have hvote : (.allow, v.2) ∈ G.votes i := of_decide_eq_true hallow ▸ hv'
        by_contra hnear
        have hlink := linkedWithin_step hvote (by simpa using hnear)
        rw [hfar hgranted] at hlink
        cases hlink) hR hstart
    have hwarranted : (authority G cfg (hops + 1) visited i m).1 = true → Warranted G i :=
      (authority_warranted (hops + 1) visited i m hm.warranted).1
    rw [authority_open hk hv, settle_fst, decide_eq_true_iff] at hwarranted
    refine ⟨fun hg => ?_, ?_, ?_, ?_⟩
    · rw [settle_fst, decide_eq_false_iff_not]
      exact hno hg
    · exact settle_memo_forall cfg i hmemo.warranted hwarranted
    · refine settle_memo_forall cfg i hmemo.below fun h => ⟨⟨granted, hops + 1, i⟩, by simp, ?_,
        Nat.succ_pos _, rfl⟩
      by_contra hg
      exact hno (by simpa using hg) h
    · exact settle_memo_forall cfg i
        (fun x hx => fun hxv => hmemo.apart x hx (List.mem_cons_of_mem i hxv)) fun _ => hv

end Trail

section Run

variable [DecidableEq ι] {cfg : Settings} {H : ℕ} {vs : List (Sign × ι)}

/-- The hop bound cannot be overrun: no allow may count; or no node found below a deny is met
along allow votes with too few hops left; or the search keeps within its cap and is not
misled. -/
def HopBounded (G : VoteGraph ι) (cfg : Settings) (H : ℕ) (vs : List (Sign × ι)) : Prop :=
  (outlook G (fun n => decide (n < cfg.cap)) H vs).maybe = false ∨ HopSafe G H vs ∨
    ((run G cfg H vs).2.counter ≤ cfg.cap ∧ Unmisled G H vs)

/-- What a search allows is allowed by a node within the hop bound. -/
theorem run_within (hcfg : cfg.memoised = true) (hbound : HopBounded G cfg H vs)
    (h : (run G cfg H vs).1 = .allow) : ∃ j, (.allow, j) ∈ vs ∧ linkedWithin G H j = true := by
  rcases hbound with hnever | hsafe | ⟨hfit, hunmisled⟩
  · have hmay := (run_foreseen hcfg (fun h => of_decide_eq_true h) (.inl fun _ => rfl)).maybe
      (decide_eq_true h)
    rw [hnever] at hmay
    cases hmay
  · by_contra hfar
    have hno : ∀ j, (.allow, j) ∈ vs → linkedWithin G H j = false := fun j hj => by
      by_contra hnear
      exact hfar ⟨j, hj, by simpa using hnear⟩
    have hfresh : MemoBelow G [] [] (Mem.fresh (ι := ι)).memo := ⟨by simp [Mem.fresh],
      by simp [Mem.fresh], by simp [Mem.fresh]⟩
    have hsafe' : ([] ++ vs.flatMap fun v : Sign × ι =>
        trail G H (decide (v.1 = Sign.allow)) [] v.2).Pairwise (KeepsHops G) := hsafe
    exact (resolve_follows true (fun v => trail G H (decide (v.1 = .allow)) [] v.2) cfg.cap
      (fun v hv done m hR hm => by
        rw [Bool.true_and]
        exact authority_follows hcfg H [] v.2 m hR hm fun hallow =>
          hno v.2 (of_decide_eq_true hallow ▸ hv)) hsafe' hfresh).1 rfl h
  · have hpass : passes (holds G H []) vs = true := by
      rw [← run_agrees (fun _ => hunmisled) hfit, h]
      rfl
    obtain ⟨-, j, hj, hpj⟩ := passes_iff.mp hpass
    exact ⟨j, hj, holds_linkedWithin hpj⟩

end Run

end VoteSearch

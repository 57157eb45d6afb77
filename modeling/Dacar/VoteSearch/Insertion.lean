import Dacar.VoteSearch.Interference

/-!
# Putting in denies by one caster

A deny put into the votes of a search can only be counted as a deny, but looking at its
caster takes steps and may leave nodes in the memo.  Here is when a search that did not
allow still does not.
-/

namespace VoteSearch

variable {ι : Type*} {G : VoteGraph ι} {cfg : Settings} {H : ℕ}

/-- Whatever a search for these votes looks at is a root or unwarranted. -/
def Barren (G : VoteGraph ι) (H : ℕ) (vs : List (Sign × ι)) : Prop :=
  ∀ hops visited i, Context G H vs hops visited i → G.root i = true ∨ ¬ Warranted G i

/-- A caster nobody votes on stands in barren ground. -/
theorem barren_of_no_votes {s : Sign} {x : ι} (hr : G.root x = false) (hx : G.votes x = []) :
    Barren G H [(s, x)] := by
  have honly : ∀ hops visited i, Context G H [(s, x)] hops visited i → i = x := by
    intro hops visited i hc
    induction hc with
    | start h => exact congrArg Prod.snd (List.mem_singleton.mp h)
    | step _ _ _ hj ih =>
      rw [ih, hx] at hj
      exact absurd hj List.not_mem_nil
  intro hops visited i hc
  obtain rfl := honly _ _ i hc
  refine .inr fun hw => ?_
  cases hw with
  | root h => exact absurd (h.symm.trans hr) (by simp)
  | step _ ha _ =>
    rw [hx] at ha
    exact absurd ha List.not_mem_nil

variable [DecidableEq ι] {vs vs' pre ds post : List (Sign × ι)} {x : ι}

/-- Looking at an unwarranted node in barren ground finds nothing and remembers nothing. -/
theorem authority_barren (hbarren : Barren G H vs) (hops : ℕ) (visited : List ι) (i : ι)
    (m : Mem ι) (hc : Context G H vs hops visited i) (hi : ¬ Warranted G i)
    (hm : MemoWarranted G m) : (authority G cfg hops visited i m).1 = false ∧
      (authority G cfg hops visited i m).2.memo = m.memo := by
  have hfalse : (authority G cfg hops visited i m).1 = false := by
    by_contra h
    exact hi ((authority_warranted hops visited i m hm).1 (by simpa using h))
  refine ⟨hfalse, ?_⟩
  clear hfalse
  induction hops, visited, i, m using authority_induct G cfg with
  | hknown => rfl
  | hcut => rfl
  | hopen hops visited i m hk hv ih =>
    have hr : G.root i = false := (Bool.or_eq_false_iff.mp hk).1
    have hres : (resolve cfg.cap (authority G cfg hops (i :: visited)) (G.votes i) m).2.memo =
        m.memo := by
      refine resolve_memo (I := fun memo => memo = m.memo) ?_ rfl
      rintro ⟨s, j⟩ hj m' hm'
      have hok : MemoWarranted G m' := fun y hy => hm y (hm' ▸ hy)
      have hcj : Context G H vs hops (i :: visited) j := .step hc hr hv hj
      rcases hbarren _ _ j hcj with hroot | hw
      · rw [authority_root hroot]
        exact hm'
      · exact (ih j m' hcj hw hok).trans hm'
    rcases settle_memo cfg i
      (resolve cfg.cap (authority G cfg hops (i :: visited)) (G.votes i) m) with h | ⟨ha, -, -⟩
    · rw [h, hres]
    · -- remembering `i` would take a warrant for it
      have hw : (authority G cfg (hops + 1) visited i m).1 = true → Warranted G i :=
        (authority_warranted (hops + 1) visited i m hm).1
      rw [authority_open hk hv, settle_fst, decide_eq_true_iff] at hw
      exact absurd (hw ha) hi

/-- Nothing but the steps already taken tells the two memories apart. -/
theorem authority_ahead (hops : ℕ) (visited : List ι) (i : ι) (m m' : Mem ι) (ha : Ahead m m')
    (hm : MemoWarranted G m') (hfit : (authority G cfg hops visited i m').2.counter ≤ cfg.cap) :
    (authority G cfg hops visited i m).1 = (authority G cfg hops visited i m').1 ∧
      Ahead (authority G cfg hops visited i m).2 (authority G cfg hops visited i m').2 := by
  have hnobody : ∀ i, ¬ Touched G (fun _ => False) i := by
    intro i hi
    induction hi with
    | start h => exact h
    | step _ _ _ ih => exact ih
  exact authority_padded (J := fun _ => False) ⟨fun _ => rfl, fun i => .refl _⟩
    (fun i hi => hi.elim) (fun i hi => absurd hi (hnobody i)) hops visited i m m' ha hm hfit

/-- Within the cap, votes by a caster in barren ground change nothing. -/
theorem run_barren (hpad : Padded (fun v : Sign × ι => v.2 = x) vs vs') {s : Sign}
    (hbarren : Barren G H [(s, x)]) (hx : G.root x = false)
    (hfit : (run G cfg H vs').2.counter ≤ cfg.cap) : (run G cfg H vs).1 = (run G cfg H vs').1 := by
  have hc : Context G H [(s, x)] H [] x := .start List.mem_cons_self
  have hw : ¬ Warranted G x := (hbarren _ _ x hc).resolve_left (by simp [hx])
  refine (resolve_padded (J := fun i => i = x) (I := MemoWarranted G) (fun m hm => hm)
    (fun j m => authority_counter_le H [] j m)
    (fun j m hm => (authority_warranted H [] j m hm).2)
    (fun j m m' ha hm hf => authority_ahead H [] j m m' ha hm hf)
    (fun j m hj hm => ?_) hpad ⟨rfl, le_rfl⟩ .fresh hfit).1
  subst hj
  exact authority_barren hbarren H [] _ m hc hw hm

/-- After votes that do not allow, votes none of which is an allow change nothing. -/
theorem run_not_allow_append (hpre : (run G cfg H pre).1 ≠ .allow)
    (hpost : ∀ j, (.allow, j) ∉ post) : (run G cfg H (pre ++ post)).1 ≠ .allow := by
  by_cases hcap : 1 ≤ cfg.cap
  · rw [run_of_cap hcap] at hpre ⊢
    rw [scan_append]
    generalize scan (authority G cfg H []) pre .empty Mem.fresh.tick = r at hpre
    intro h
    obtain ⟨hdeny, hallow⟩ := Tally.verdict_eq_allow.mp h
    refine hpre (Tally.verdict_eq_allow.mpr ⟨?_, ?_⟩)
    · by_contra hd
      have hstill : (scan (authority G cfg H []) post r.1 r.2).1.deny = true :=
        scan_has_mono (s := .deny) (by simpa [Tally.has] using hd)
      exact absurd (hdeny.symm.trans hstill) Bool.false_ne_true
    · by_contra ha
      have hnone : (scan (authority G cfg H []) post r.1 r.2).1.allow = false :=
        scan_has_eq_false (s := .allow) (I := fun _ => True) (fun _ _ _ _ => trivial)
          (fun j hj => absurd hj (hpost j)) (by simpa [Tally.has] using ha) trivial
      exact absurd (hnone.symm.trans hallow) Bool.false_ne_true
  · rw [run_of_no_cap hcap]
    exact Decision.noConfusion

/-- Denies by `x`, put in between `pre` and `post`, cannot turn a verdict into ALLOW. -/
inductive DenyKept (G : VoteGraph ι) (cfg : Settings) (H : ℕ) (pre ds post : List (Sign × ι))
    (x : ι) : Prop
  /-- With them no allow may count. -/
  | refused
    (h : (outlook G (fun n => decide (n < cfg.cap)) H (pre ++ ds ++ post)).maybe = false)
  /-- They are looked at last. -/
  | last (h : post = [])
  | barren (h : Barren G H [(.deny, x)])
    (hfit : (run G cfg H (pre ++ ds ++ post)).2.counter ≤ cfg.cap)
  | unmisled (h : Unmisled G H (pre ++ post)) (h' : Unmisled G H (pre ++ ds ++ post))
    (hold : (run G cfg H (pre ++ post)).2.counter ≤ cfg.cap)
    (hfit : (run G cfg H (pre ++ ds ++ post)).2.counter ≤ cfg.cap)

theorem run_not_allow_insert (hcfg : cfg.memoised = true) (hds : ∀ v ∈ ds, v = (.deny, x))
    (hkept : DenyKept G cfg H pre ds post x) (h : (run G cfg H (pre ++ post)).1 ≠ .allow) :
    (run G cfg H (pre ++ ds ++ post)).1 ≠ .allow := by
  have hsub : ∀ v ∈ pre ++ post, v ∈ pre ++ ds ++ post := by simp; tauto
  cases hkept with
  | refused hnever =>
    intro hallow
    have hmay := (run_foreseen hcfg (fun h => of_decide_eq_true h) (.inl fun _ => rfl)).maybe
      (decide_eq_true hallow)
    rw [hnever] at hmay
    cases hmay
  | last hpost =>
    subst hpost
    rw [List.append_nil] at h ⊢
    refine run_not_allow_append h fun j hj => ?_
    exact absurd (congrArg Prod.fst (hds _ hj)) Sign.noConfusion
  | barren hbarren hfit =>
    have hpad : Padded (fun v : Sign × ι => v.2 = x) (pre ++ post) (pre ++ ds ++ post) := by
      rw [List.append_assoc]
      exact .append_left pre (.put_append (fun v hv => congrArg Prod.snd (hds v hv)) (.refl post))
    cases hx : G.root x with
    | false => rwa [← run_barren hpad hbarren hx hfit]
    | true =>
      cases ds with
      | nil => simpa using h
      | cons d ds =>
        obtain rfl := hds d List.mem_cons_self
        intro hallow
        have hroot := (run_warranted hallow).1 x (by simp)
        rw [hx] at hroot
        cases hroot
  | unmisled hsafe hsafe' hold hfit =>
    have hpass : passes (holds G H []) (pre ++ post) = false := by
      rw [← run_agrees (fun _ => hsafe) hold]
      exact decide_eq_false h
    intro hallow
    have hpass' : passes (holds G H []) (pre ++ ds ++ post) = true := by
      rw [← run_agrees (fun _ => hsafe') hfit]
      exact decide_eq_true hallow
    -- fewer denies and the same allows
    obtain ⟨hdeny, j, hj, hpj⟩ := passes_iff.mp hpass'
    have hj' : (.allow, j) ∈ pre ++ post := by
      rcases List.mem_append.mp hj with hj | hj
      · rcases List.mem_append.mp hj with hj | hj
        · exact List.mem_append_left _ hj
        · exact absurd (congrArg Prod.fst (hds _ hj)) Sign.noConfusion
      · exact List.mem_append_right _ hj
    rw [passes_iff.mpr ⟨fun d hd => hdeny d (hsub _ hd), j, hj', hpj⟩] at hpass
    cases hpass

end VoteSearch

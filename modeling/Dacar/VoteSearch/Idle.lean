import Dacar.VoteSearch.Forecast

/-!
# Searches in which no deny can count

When no node that allow votes link to a root denies anybody, the first node that may be
found is found for sure, and its allow carries through to the top.  A forecast then leaves
nothing open: nothing remembered is needed on the way.
-/

namespace VoteSearch

variable {ι : Type*} [DecidableEq ι] {G : VoteGraph ι} {inTime : ℕ → Bool} {H : ℕ}
  {vs ws : List (Sign × ι)} {look : ι → Forecast ι → Prospect × Forecast ι}

omit [DecidableEq ι] in
/-- What surely counts may count. -/
theorem poll_consistent (hlook : ∀ i f, (look i f).1.sure = true → (look i f).1.maybe = true)
    (f : Forecast ι) (s : Sign) :
    (poll look vs .empty f).1.sure.has s = true → (poll look vs .empty f).1.maybe.has s = true := by
  refine poll_induct (t := .empty) (P := fun t _ =>
    t.sure.has s = true → t.maybe.has s = true) ?_ id
  rintro ⟨s', i⟩ _ t f ht h
  change (t.sure.add s' _).has s = true at h
  change (t.maybe.add s' _).has s = true
  rw [Tally.has_add, Bool.or_eq_true, Bool.and_eq_true] at h ⊢
  exact h.imp ht (And.imp_right (hlook i f))

theorem Poll.outcome_consistent {t : Poll}
    (h : ∀ s, t.sure.has s = true → t.maybe.has s = true) (hsure : t.outcome.sure = true) :
    t.outcome.maybe = true := by
  obtain ⟨hd, ha⟩ : t.maybe.deny = false ∧ t.sure.allow = true := by
    simpa [Poll.outcome] using hsure
  have hnone : t.sure.deny = false := by
    by_contra hdeny
    have hmay : t.maybe.deny = true := h .deny (by simpa [Tally.has] using hdeny)
    rw [hd] at hmay
    cases hmay
  have hmay : t.maybe.allow = true := h .allow ha
  rw [Poll.outcome, hnone, hmay]
  rfl

theorem foresee_consistent (hops : ℕ) (visited : List ι) (i : ι) (f : Forecast ι) :
    (foresee G inTime hops visited i f).1.sure = true →
      (foresee G inTime hops visited i f).1.maybe = true := by
  intro h
  induction hops generalizing visited i f with
  | zero =>
    cases hr : G.root i with
    | true => rw [foresee_root hr]; rfl
    | false =>
      rw [foresee_cut hr (.inl rfl)] at h
      cases h
  | succ hops ih =>
    cases hr : G.root i with
    | true => rw [foresee_root hr]; rfl
    | false =>
      by_cases hv : i ∈ visited
      · rw [foresee_cut hr (.inr hv)] at h
        cases h
      · cases ht : inTime f.least with
        | false =>
          rw [foresee_late hr hv ht] at h
          cases h
        | true =>
          rw [foresee_open hr hv ht] at h ⊢
          exact Bool.or_eq_true_iff.mpr (.inl (Poll.outcome_consistent
            (poll_consistent (ih (i :: visited)) f.tick) (Bool.and_eq_true_iff.mp h).2))

omit [DecidableEq ι] in
theorem poll_linked (hlook : ∀ i f, (∀ x ∈ f.found, Linked G x) →
      ((look i f).1.maybe = true → Linked G i) ∧ ∀ x ∈ (look i f).2.found, Linked G x)
    {f : Forecast ι} (hf : ∀ x ∈ f.found, Linked G x) :
    ((poll look vs .empty f).1.outcome.maybe = true → ∃ j, (.allow, j) ∈ vs ∧ Linked G j) ∧
      ∀ x ∈ (poll look vs .empty f).2.found, Linked G x := by
  have hpoll : ((poll look vs .empty f).1.maybe.allow = true →
      ∃ j, (.allow, j) ∈ vs ∧ Linked G j) ∧ ∀ x ∈ (poll look vs .empty f).2.found, Linked G x := by
    refine poll_induct (t := .empty) (P := fun t f =>
      (t.maybe.allow = true → ∃ j, (.allow, j) ∈ vs ∧ Linked G j) ∧ ∀ x ∈ f.found, Linked G x) ?_
      ⟨fun h => absurd h Bool.false_ne_true, hf⟩
    rintro ⟨s, i⟩ hv t f ⟨ht, hf⟩
    obtain ⟨hi, hf'⟩ := hlook i f hf
    refine ⟨fun h => ?_, hf'⟩
    cases s with
    | deny => exact ht h
    | allow => exact (Bool.or_eq_true_iff.mp h).elim ht fun h => ⟨i, hv, hi h⟩
  exact ⟨fun h => hpoll.1 (Bool.and_eq_true_iff.mp h).2, hpoll.2⟩

/-- Only a linked node may be found. -/
theorem foresee_linked (hops : ℕ) (visited : List ι) (i : ι) (f : Forecast ι)
    (hf : ∀ x ∈ f.found, Linked G x) :
    ((foresee G inTime hops visited i f).1.maybe = true → Linked G i) ∧
      ∀ x ∈ (foresee G inTime hops visited i f).2.found, Linked G x := by
  induction hops generalizing visited i f with
  | zero =>
    cases hr : G.root i with
    | true => rw [foresee_root hr]; exact ⟨fun _ => .root hr, hf⟩
    | false =>
      rw [foresee_cut hr (.inl rfl)]
      exact ⟨fun h => hf i (of_decide_eq_true h).2, hf⟩
  | succ hops ih =>
    cases hr : G.root i with
    | true => rw [foresee_root hr]; exact ⟨fun _ => .root hr, hf⟩
    | false =>
      by_cases hv : i ∈ visited
      · rw [foresee_cut hr (.inr hv)]
        exact ⟨fun h => hf i (of_decide_eq_true h).2, hf⟩
      · cases ht : inTime f.least with
        | false =>
          rw [foresee_late hr hv ht]
          exact ⟨fun h => hf i (of_decide_eq_true h), hf⟩
        | true =>
          have hstart : ∀ x ∈ f.tick.found, Linked G x := hf
          have hpoll := @poll_linked ι G (G.votes i) _ (ih (i :: visited)) _ hstart
          have hi : (poll (foresee G inTime hops (i :: visited)) (G.votes i) .empty
              f.tick).1.outcome.maybe = true → Linked G i := fun h =>
            let ⟨_, hj, hl⟩ := hpoll.1 h
            .step hj hl
          rw [foresee_open hr hv ht]
          refine ⟨fun h => (Bool.or_eq_true_iff.mp h).elim hi fun h => hf i (of_decide_eq_true h),
            fun x hx => ?_⟩
          dsimp only at hx
          split_ifs at hx with hm
          · rcases List.mem_cons.mp hx with rfl | hx
            · exact hi hm
            · exact hpoll.2 x hx
          · exact hpoll.2 x hx

/-- Nothing was found so far, so that the steps are known. -/
structure Blank (f : Forecast ι) : Prop where
  found : f.found = []
  steps : f.least = f.most

omit [DecidableEq ι] in
theorem Blank.linked {f : Forecast ι} (h : Blank f) : ∀ x ∈ f.found, Linked G x := by
  intro x hx
  rw [h.found] at hx
  exact absurd hx List.not_mem_nil

omit [DecidableEq ι] in
theorem poll_idle (hdeny : ∀ j, (.deny, j) ∈ ws → ¬ Linked G j)
    (hsure : ∀ i f, (look i f).1.sure = true → (look i f).1.maybe = true)
    (hlinked : ∀ i f, (∀ x ∈ f.found, Linked G x) →
      ((look i f).1.maybe = true → Linked G i) ∧ ∀ x ∈ (look i f).2.found, Linked G x)
    (hlook : ∀ v ∈ ws, ∀ f, Blank f → ((look v.2 f).1.maybe = true → (look v.2 f).1.sure = true) ∧
      ((look v.2 f).1.maybe = false → Blank (look v.2 f).2)) {f : Forecast ι} (hf : Blank f) :
    ((poll look ws .empty f).1.outcome.maybe = true →
        (poll look ws .empty f).1.outcome.sure = true) ∧
      ((poll look ws .empty f).1.outcome.maybe = false → Blank (poll look ws .empty f).2) := by
  -- no deny may count; and an allow is sure, or nothing was found
  have hpoll : (poll look ws .empty f).1.maybe.deny = false ∧
      (∀ x ∈ (poll look ws .empty f).2.found, Linked G x) ∧
      ((poll look ws .empty f).1.sure.allow = true ∨
        (poll look ws .empty f).1.maybe.allow = false ∧ Blank (poll look ws .empty f).2) := by
    refine poll_induct (t := .empty) (P := fun t f => t.maybe.deny = false ∧
      (∀ x ∈ f.found, Linked G x) ∧ (t.sure.allow = true ∨ t.maybe.allow = false ∧ Blank f)) ?_
      ⟨rfl, hf.linked, .inr ⟨rfl, hf⟩⟩
    rintro ⟨s, i⟩ hv t f ⟨ht, hl, hcase⟩
    obtain ⟨hi, hl'⟩ := hlinked i f hl
    cases s with
    | deny =>
      have hno : (look i f).1.maybe = false := by
        by_contra h
        exact hdeny i hv (hi (by simpa using h))
      exact ⟨by simp [Poll.add, ht, hno], hl',
        hcase.imp id fun h => ⟨h.1, (hlook _ hv f h.2).2 hno⟩⟩
    | allow =>
      refine ⟨ht, hl', ?_⟩
      rcases hcase with h | ⟨hallow, hblank⟩
      · exact .inl (by simp [Poll.add, h])
      · obtain ⟨hyes, hno⟩ := hlook _ hv f hblank
        cases hm : (look i f).1.maybe with
        | true => exact .inl (by simp [Poll.add, hyes hm])
        | false => exact .inr ⟨by simp [Poll.add, hallow, hm], hno hm⟩
  obtain ⟨hnone, -, hcase⟩ := hpoll
  rcases hcase with hallow | ⟨hallow, hblank⟩
  · have hyes : (poll look ws .empty f).1.outcome.sure = true := by
      simp [Poll.outcome, hnone, hallow]
    have hmay := Poll.outcome_consistent (poll_consistent hsure f) hyes
    exact ⟨fun _ => hyes, fun h => by simp [hmay] at h⟩
  · exact ⟨fun h => by simp [Poll.outcome, hallow] at h, fun _ => hblank⟩

theorem foresee_idle (hidle : IdleDenies G H vs) (hops : ℕ) (visited : List ι) (i : ι)
    (f : Forecast ι) (hc : Context G H vs hops visited i) (hf : Blank f) :
    ((foresee G inTime hops visited i f).1.maybe = true →
        (foresee G inTime hops visited i f).1.sure = true) ∧
      ((foresee G inTime hops visited i f).1.maybe = false →
        Blank (foresee G inTime hops visited i f).2) := by
  have hnew : i ∉ f.found := by
    rw [hf.found]
    exact List.not_mem_nil
  induction hops generalizing visited i f with
  | zero =>
    cases hr : G.root i with
    | true => rw [foresee_root hr]; exact ⟨fun _ => rfl, fun _ => hf⟩
    | false => rw [foresee_cut hr (.inl rfl)]; exact ⟨fun h => by simp [hnew] at h, fun _ => hf⟩
  | succ hops ih =>
    cases hr : G.root i with
    | true => rw [foresee_root hr]; exact ⟨fun _ => rfl, fun _ => hf⟩
    | false =>
      by_cases hv : i ∈ visited
      · rw [foresee_cut hr (.inr hv)]
        exact ⟨fun h => by simp [hnew] at h, fun _ => hf⟩
      · cases ht : inTime f.least with
        | false =>
          rw [foresee_late hr hv ht, if_neg hnew]
          exact ⟨fun h => by simp [hnew] at h, fun _ => ⟨hf.found, congrArg Nat.succ hf.steps⟩⟩
        | true =>
          have hstart : Blank f.tick := ⟨hf.found, congrArg Nat.succ hf.steps⟩
          obtain ⟨hyes, hno⟩ := poll_idle (hidle.below _ _ i hc)
            (foresee_consistent hops (i :: visited))
            (foresee_linked hops (i :: visited))
            (fun v hv' f hf => ih (i :: visited) v.2 f (.step hc hr hv hv') hf
              (by rw [hf.found]; exact List.not_mem_nil)) hstart
          have hmost : inTime f.most = true := hf.steps ▸ ht
          rw [foresee_open hr hv ht, decide_eq_false hnew, Bool.or_false, hmost, Bool.true_and,
            if_neg hnew]
          refine ⟨hyes, fun h => ?_⟩
          obtain ⟨hfound, hsteps⟩ := hno h
          refine ⟨?_, hsteps⟩
          dsimp only at h ⊢
          rw [h, if_neg Bool.false_ne_true]
          exact hfound

/-- Where no deny can count, a forecast leaves nothing open, also under a cap. -/
theorem outlook_idle (hidle : IdleDenies G H vs) :
    (outlook G inTime H vs).maybe = true → (outlook G inTime H vs).sure = true := by
  unfold outlook
  split_ifs with ht
  · exact (poll_idle hidle.top (foresee_consistent H []) (foresee_linked H [])
      (fun v hv f hf => foresee_idle hidle H [] v.2 f (.start hv) hf)
      (f := Forecast.fresh.tick) ⟨rfl, rfl⟩).1
  · exact id

theorem settled_of_idle (hidle : IdleDenies G H vs) : Settled G H vs := outlook_idle hidle

end VoteSearch

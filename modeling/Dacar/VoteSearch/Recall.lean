import Dacar.VoteSearch.Forecast

/-!
# Searches that their memo does not mislead

The survey follows a search by the judgement `holds`: it keeps the nodes found authorised,
and notes whether one of them is met again where the bounds would leave it unauthorised.
When none is, the memo only saves steps.
-/

namespace VoteSearch

variable {ι : Type*} [DecidableEq ι]

/-- Look at a node, given whether all was well so far and the nodes found. -/
def survey (G : VoteGraph ι) : ℕ → List ι → ι → Bool × List ι → Bool × List ι
  | 0, _, i, r =>
    if G.root i then r else if i ∈ r.2 then (false, r.2) else r
  | hops + 1, visited, i, r =>
    if G.root i then r
    else if i ∈ r.2 then (r.1 && holds G (hops + 1) visited i, r.2)
    else if i ∈ visited then r
    else
      let r' := (G.votes i).foldl (fun r v => survey G hops (i :: visited) v.2 r) r
      if holds G (hops + 1) visited i then (r'.1, i :: r'.2) else r'

/-- No node that was found authorised is met again where the search would not find it so. -/
def Faithful (G : VoteGraph ι) (H : ℕ) (vs : List (Sign × ι)) : Prop :=
  (vs.foldl (fun r v => survey G H [] v.2 r) (true, [])).1 = true

instance (G : VoteGraph ι) (H : ℕ) (vs : List (Sign × ι)) : Decidable (Faithful G H vs) :=
  inferInstanceAs (Decidable (_ = _))

section Equations

variable {G : VoteGraph ι} {hops : ℕ} {visited : List ι} {i : ι} {r : Bool × List ι}

theorem survey_root (hr : G.root i = true) : survey G hops visited i r = r := by
  cases hops <;> simp [survey, hr]

theorem survey_found (hr : G.root i = false) (hi : i ∈ r.2) :
    survey G hops visited i r = (r.1 && holds G hops visited i, r.2) := by
  cases hops with
  | zero => simp [survey, hr, hi, holds]
  | succ hops => simp [survey, hr, hi]

theorem survey_cut (hr : G.root i = false) (hi : i ∉ r.2) (hc : hops = 0 ∨ i ∈ visited) :
    survey G hops visited i r = r := by
  cases hops with
  | zero => simp [survey, hr, hi]
  | succ hops =>
    have hv : i ∈ visited := hc.resolve_left (Nat.succ_ne_zero hops)
    simp [survey, hr, hi, hv]

theorem survey_open (hr : G.root i = false) (hi : i ∉ r.2) (hv : i ∉ visited) :
    survey G (hops + 1) visited i r =
      if holds G (hops + 1) visited i then
        (((G.votes i).foldl (fun r v => survey G hops (i :: visited) v.2 r) r).1,
          i :: ((G.votes i).foldl (fun r v => survey G hops (i :: visited) v.2 r) r).2)
      else (G.votes i).foldl (fun r v => survey G hops (i :: visited) v.2 r) r := by
  simp [survey, hr, hi, hv]

end Equations

section Survey

variable {step : ι → Bool × List ι → Bool × List ι} {auth : ι → Mem ι → Bool × Mem ι}
  {vs : List (Sign × ι)} {cap : ℕ}

omit [DecidableEq ι] in
/-- What went wrong once is not forgotten. -/
theorem foldl_ok (hstep : ∀ i r, (step i r).1 = true → r.1 = true) {r : Bool × List ι}
    (h : (vs.foldl (fun r v => step v.2 r) r).1 = true) : r.1 = true := by
  induction vs generalizing r with
  | nil => exact h
  | cons v vs ih => exact hstep v.2 r (ih h)

omit [DecidableEq ι] in
theorem scan_surveyed {p : ι → Bool} (hmono : ∀ i m, m.counter ≤ (auth i m).2.counter)
    (hstep : ∀ i r, (step i r).1 = true → r.1 = true)
    (hauth : ∀ v ∈ vs, ∀ m r, r.2 = m.memo → (step v.2 r).1 = true →
      (auth v.2 m).2.counter ≤ cap →
      (auth v.2 m).1 = p v.2 ∧ (step v.2 r).2 = (auth v.2 m).2.memo)
    {t : Tally} {m : Mem ι} {r : Bool × List ι} (hr : r.2 = m.memo)
    (hok : (vs.foldl (fun r v => step v.2 r) r).1 = true)
    (hfit : (scan auth vs t m).2.counter ≤ cap) :
    (scan auth vs t m).1 = tallyBy p vs t ∧
      (vs.foldl (fun r v => step v.2 r) r).2 = (scan auth vs t m).2.memo := by
  induction vs generalizing t m r with
  | nil => exact ⟨rfl, hr⟩
  | cons v vs ih =>
    have hle : (auth v.2 m).2.counter ≤ cap :=
      (scan_counter_le (fun w _ m => hmono w.2 m) _ _).trans hfit
    obtain ⟨hp, hmemo⟩ := hauth v List.mem_cons_self m r hr (foldl_ok hstep hok) hle
    rw [tallyBy, List.foldl_cons, ← tallyBy, ← hp]
    exact ih (fun w hw => hauth w (List.mem_cons_of_mem v hw)) hmemo hok hfit

omit [DecidableEq ι] in
theorem resolve_surveyed {p : ι → Bool} (hmono : ∀ i m, m.counter ≤ (auth i m).2.counter)
    (hstep : ∀ i r, (step i r).1 = true → r.1 = true)
    (hauth : ∀ v ∈ vs, ∀ m r, r.2 = m.memo → (step v.2 r).1 = true →
      (auth v.2 m).2.counter ≤ cap →
      (auth v.2 m).1 = p v.2 ∧ (step v.2 r).2 = (auth v.2 m).2.memo)
    {m : Mem ι} {r : Bool × List ι} (hr : r.2 = m.memo)
    (hok : (vs.foldl (fun r v => step v.2 r) r).1 = true)
    (hfit : (resolve cap auth vs m).2.counter ≤ cap) :
    decide ((resolve cap auth vs m).1 = .allow) = passes p vs ∧
      (vs.foldl (fun r v => step v.2 r) r).2 = (resolve cap auth vs m).2.memo := by
  have he := resolve_of_fits hfit
  rw [he] at hfit ⊢
  obtain ⟨ht, hmemo⟩ := scan_surveyed hmono hstep hauth (m := m.tick) hr hok hfit
  exact ⟨by rw [passes, ← ht], hmemo⟩

variable {G : VoteGraph ι} {cfg : Settings} {H : ℕ}

theorem survey_ok (hops : ℕ) (visited : List ι) (i : ι) (r : Bool × List ι)
    (h : (survey G hops visited i r).1 = true) : r.1 = true := by
  induction hops generalizing visited i r with
  | zero =>
    unfold survey at h
    split_ifs at h <;> exact h
  | succ hops ih =>
    cases hr : G.root i with
    | true => rwa [survey_root hr] at h
    | false =>
      by_cases hi : i ∈ r.2
      · rw [survey_found hr hi] at h
        exact (Bool.and_eq_true_iff.mp h).1
      · by_cases hv : i ∈ visited
        · rwa [survey_cut hr hi (.inr hv)] at h
        · rw [survey_open hr hi hv] at h
          have hall : ((G.votes i).foldl (fun r v => survey G hops (i :: visited) v.2 r) r).1 =
              true := by
            split_ifs at h <;> exact h
          exact foldl_ok (ih (i :: visited)) hall

/-- As long as all is well, a call answers by `holds` and remembers what the survey found. -/
theorem authority_surveyed (hcfg : cfg.memoised = true) (hops : ℕ) (visited : List ι) (i : ι)
    (m : Mem ι) (r : Bool × List ι) (hmemo : r.2 = m.memo)
    (hok : (survey G hops visited i r).1 = true)
    (hfit : (authority G cfg hops visited i m).2.counter ≤ cfg.cap) :
    (authority G cfg hops visited i m).1 = holds G hops visited i ∧
      (survey G hops visited i r).2 = (authority G cfg hops visited i m).2.memo := by
  induction hops, visited, i, m using authority_induct G cfg generalizing r with
  | hknown hops visited i m hk =>
    cases hr : G.root i with
    | true => rw [survey_root hr, holds_root hr]; exact ⟨rfl, hmemo⟩
    | false =>
      obtain ⟨-, hi⟩ := (known_iff.mp hk).resolve_left (by simp [hr])
      rw [survey_found hr (hmemo ▸ hi)] at hok ⊢
      exact ⟨(Bool.and_eq_true_iff.mp hok).2.symm, hmemo⟩
  | hcut hops visited i m hk hcut =>
    have hr : G.root i = false := (Bool.or_eq_false_iff.mp hk).1
    have hi : i ∉ r.2 := by
      intro hi
      rw [known_iff.mpr (.inr ⟨hcfg, hmemo ▸ hi⟩)] at hk
      cases hk
    rw [survey_cut hr hi hcut, holds_cut hr hcut]
    exact ⟨rfl, hmemo⟩
  | hopen hops visited i m hk hv ih =>
    have hr : G.root i = false := (Bool.or_eq_false_iff.mp hk).1
    have hi : i ∉ r.2 := by
      intro hi
      rw [known_iff.mpr (.inr ⟨hcfg, hmemo ▸ hi⟩)] at hk
      cases hk
    rw [settle_counter] at hfit
    rw [survey_open hr hi hv] at hok ⊢
    have hok' : ((G.votes i).foldl (fun r v => survey G hops (i :: visited) v.2 r) r).1 = true := by
      split_ifs at hok <;> exact hok
    obtain ⟨hp, hend⟩ := resolve_surveyed (fun j m => authority_counter_le hops (i :: visited) j m)
      (survey_ok hops (i :: visited)) (fun v _ m r hr hok hf => ih v.2 m r hr hok hf) hmemo hok'
      hfit
    rw [settle_fst, hp, ← holds_open hr hv]
    refine ⟨rfl, ?_⟩
    unfold settle
    by_cases ha : (resolve cfg.cap (authority G cfg hops (i :: visited)) (G.votes i) m).1 = .allow
    · have hh : holds G (hops + 1) visited i = true := by
        rw [holds_open hr hv, ← hp, ha]
        rfl
      rw [if_pos hh, if_pos ha, if_pos hcfg, hend]
    · have hh : holds G (hops + 1) visited i = false := by
        rw [holds_open hr hv, ← hp, decide_eq_false ha]
      rw [hh, if_neg Bool.false_ne_true, if_neg ha]
      exact hend

theorem run_agrees_of_faithful (hcfg : cfg.memoised = true) (hfaithful : Faithful G H vs)
    (hfit : (run G cfg H vs).2.counter ≤ cfg.cap) :
    decide ((run G cfg H vs).1 = .allow) = passes (holds G H []) vs :=
  (resolve_surveyed (fun i m => authority_counter_le H [] i m) (survey_ok H [])
    (fun v _ m r hr hok hf => authority_surveyed hcfg H [] v.2 m r hr hok hf) rfl hfaithful
    hfit).1

end Survey

/-! ## Searches that nothing misleads -/

/-- The memo is never met where it would mislead, or whatever it holds makes no difference. -/
def Unmisled (G : VoteGraph ι) (H : ℕ) (vs : List (Sign × ι)) : Prop :=
  Faithful G H vs ∨ Settled G H vs

/-- Within its cap a search computes `holds`, if it remembers nothing or is not misled. -/
theorem run_agrees {G : VoteGraph ι} {cfg : Settings} {H : ℕ} {vs : List (Sign × ι)}
    (hsafe : cfg.memoised = true → Unmisled G H vs)
    (hfit : (run G cfg H vs).2.counter ≤ cfg.cap) :
    decide ((run G cfg H vs).1 = .allow) = passes (holds G H []) vs := by
  cases hcfg : cfg.memoised with
  | false => exact run_plain hcfg hfit
  | true =>
    rcases hsafe hcfg with hfaithful | hsettled
    · exact run_agrees_of_faithful hcfg hfaithful hfit
    · exact run_agrees_of_settled hcfg hsettled hfit

end VoteSearch

import Dacar.VoteSearch.Semantics

/-!
# What can be said of a search beforehand

A forecast follows the votes in scan order and keeps apart what is sure and what may be,
whichever of the nodes found authorised are remembered: how many steps are taken at least
and at most, which nodes may have been found, and which votes count.
-/

namespace VoteSearch

variable {ι : Type*}

/-- Of an answer: that it is surely yes, and that it may be. -/
structure Prospect where
  sure : Bool
  maybe : Bool
  deriving DecidableEq

namespace Prospect

def yes : Prospect := ⟨true, true⟩
def no : Prospect := ⟨false, false⟩

/-- The answer is one of those foreseen. -/
structure Admits (p : Prospect) (b : Bool) : Prop where
  of_sure : p.sure = true → b = true
  maybe : b = true → p.maybe = true

theorem admits_yes : yes.Admits true := ⟨fun _ => rfl, fun _ => rfl⟩

end Prospect

/-- The votes that surely count, and those that may. -/
structure Poll where
  sure : Tally
  maybe : Tally

namespace Poll

def empty : Poll := ⟨.empty, .empty⟩

def add (t : Poll) (s : Sign) (p : Prospect) : Poll :=
  ⟨t.sure.add s p.sure, t.maybe.add s p.maybe⟩

/-- Whether the votes come out as an allow: a deny that may count makes that unsure. -/
def outcome (t : Poll) : Prospect :=
  ⟨!t.maybe.deny && t.sure.allow, !t.sure.deny && t.maybe.allow⟩

/-- The tally is one of those foreseen. -/
structure Admits (t : Poll) (x : Tally) : Prop where
  of_sure : ∀ s, t.sure.has s = true → x.has s = true
  maybe : ∀ s, x.has s = true → t.maybe.has s = true

theorem admits_empty : empty.Admits .empty := ⟨fun _ h => h, fun _ h => h⟩

theorem Admits.add {t : Poll} {x : Tally} (h : t.Admits x) {p : Prospect} {b : Bool}
    (hp : p.Admits b) (s : Sign) : (t.add s p).Admits (x.add s b) := by
  constructor <;> intro s' hs'
  · change (t.sure.add s p.sure).has s' = true at hs'
    rw [Tally.has_add, Bool.or_eq_true, Bool.and_eq_true] at hs' ⊢
    exact hs'.imp (h.of_sure s') (And.imp_right hp.of_sure)
  · change (t.maybe.add s p.maybe).has s' = true
    rw [Tally.has_add, Bool.or_eq_true, Bool.and_eq_true] at hs' ⊢
    exact hs'.imp (h.maybe s') (And.imp_right hp.maybe)

theorem Admits.outcome {t : Poll} {x : Tally} (h : t.Admits x) :
    t.outcome.Admits (decide (x.verdict = .allow)) := by
  constructor <;> intro hx
  · obtain ⟨hd, ha⟩ : t.maybe.deny = false ∧ t.sure.allow = true := by
      simpa [Poll.outcome] using hx
    refine decide_eq_true (Tally.verdict_eq_allow.mpr ⟨?_, h.of_sure .allow ha⟩)
    by_contra hdeny
    have hmay : t.maybe.deny = true := h.maybe .deny (by simpa [Tally.has] using hdeny)
    rw [hd] at hmay
    cases hmay
  · obtain ⟨hd, ha⟩ := Tally.verdict_eq_allow.mp (of_decide_eq_true hx)
    have hsure : t.sure.deny = false := by
      by_contra hdeny
      have hcount : x.deny = true := h.of_sure .deny (by simpa [Tally.has] using hdeny)
      rw [hd] at hcount
      cases hcount
    have hmay : t.maybe.allow = true := h.maybe .allow ha
    rw [Poll.outcome, hsure, hmay]
    rfl

end Poll

/-- Steps taken at least and at most, and the nodes that may have been found authorised. -/
structure Forecast (ι : Type*) where
  least : ℕ
  most : ℕ
  found : List ι

namespace Forecast

def fresh : Forecast ι := ⟨0, 0, []⟩

def tick (f : Forecast ι) : Forecast ι := { f with least := f.least + 1, most := f.most + 1 }

end Forecast

/-- Follow the votes one after the other. -/
def poll (look : ι → Forecast ι → Prospect × Forecast ι) :
    List (Sign × ι) → Poll → Forecast ι → Poll × Forecast ι
  | [], t, f => (t, f)
  | (s, i) :: vs, t, f => poll look vs (t.add s (look i f).1) (look i f).2

section Poll

variable {look : ι → Forecast ι → Prospect × Forecast ι} {vs : List (Sign × ι)}

/-- What every vote preserves, the poll preserves. -/
theorem poll_induct {P : Poll → Forecast ι → Prop}
    (step : ∀ v ∈ vs, ∀ t f, P t f → P (t.add v.1 (look v.2 f).1) (look v.2 f).2)
    {t : Poll} {f : Forecast ι} (h : P t f) : P (poll look vs t f).1 (poll look vs t f).2 := by
  induction vs generalizing t f with
  | nil => exact h
  | cons v vs ih =>
    exact ih (fun w hw => step w (List.mem_cons_of_mem v hw)) (step v List.mem_cons_self t f h)

end Poll

variable [DecidableEq ι]

/-- What looking at a node may give.  `inTime n` says whether a step is still taken after `n`
others.  A node that may be remembered is also followed up, in case it is not. -/
def foresee (G : VoteGraph ι) (inTime : ℕ → Bool) :
    ℕ → List ι → ι → Forecast ι → Prospect × Forecast ι
  | 0, visited, i, f =>
    if G.root i then (.yes, f) else (⟨false, decide (i ∉ visited ∧ i ∈ f.found)⟩, f)
  | hops + 1, visited, i, f =>
    if G.root i then (.yes, f)
    else if i ∈ visited then (.no, f)
    else if inTime f.least then
      let r := poll (foresee G inTime hops (i :: visited)) (G.votes i) .empty f.tick
      (⟨inTime f.most && r.1.outcome.sure, r.1.outcome.maybe || decide (i ∈ f.found)⟩,
        ⟨if i ∈ f.found then f.least else r.2.least, r.2.most,
          if r.1.outcome.maybe then i :: r.2.found else r.2.found⟩)
    else
      -- the step comes too late, unless it is saved by the memo
      (⟨false, decide (i ∈ f.found)⟩,
        ⟨if i ∈ f.found then f.least else f.least + 1, f.most + 1, f.found⟩)

/-- What a whole search may give. -/
def outlook (G : VoteGraph ι) (inTime : ℕ → Bool) (H : ℕ) (vs : List (Sign × ι)) : Prospect :=
  if inTime 0 then (poll (foresee G inTime H []) vs .empty Forecast.fresh.tick).1.outcome
  else .no

section Equations

variable {G : VoteGraph ι} {inTime : ℕ → Bool} {hops : ℕ} {visited : List ι} {i : ι}
  {f : Forecast ι}

theorem foresee_root (hr : G.root i = true) : foresee G inTime hops visited i f = (.yes, f) := by
  cases hops <;> simp [foresee, hr]

theorem foresee_cut (hr : G.root i = false) (hc : hops = 0 ∨ i ∈ visited) :
    foresee G inTime hops visited i f = (⟨false, decide (i ∉ visited ∧ i ∈ f.found)⟩, f) := by
  cases hops with
  | zero => simp [foresee, hr]
  | succ hops =>
    have hv : i ∈ visited := hc.resolve_left (Nat.succ_ne_zero hops)
    simp [foresee, hr, hv, Prospect.no]

theorem foresee_late (hr : G.root i = false) (hv : i ∉ visited) (ht : inTime f.least = false) :
    foresee G inTime (hops + 1) visited i f = (⟨false, decide (i ∈ f.found)⟩,
      ⟨if i ∈ f.found then f.least else f.least + 1, f.most + 1, f.found⟩) := by
  simp [foresee, hr, hv, ht]

theorem foresee_open (hr : G.root i = false) (hv : i ∉ visited) (ht : inTime f.least = true) :
    foresee G inTime (hops + 1) visited i f =
      (⟨inTime f.most &&
          (poll (foresee G inTime hops (i :: visited)) (G.votes i) .empty f.tick).1.outcome.sure,
        (poll (foresee G inTime hops (i :: visited)) (G.votes i) .empty f.tick).1.outcome.maybe ||
          decide (i ∈ f.found)⟩,
        ⟨if i ∈ f.found then f.least
          else (poll (foresee G inTime hops (i :: visited)) (G.votes i) .empty f.tick).2.least,
          (poll (foresee G inTime hops (i :: visited)) (G.votes i) .empty f.tick).2.most,
          if (poll (foresee G inTime hops (i :: visited)) (G.votes i) .empty
            f.tick).1.outcome.maybe
          then i :: (poll (foresee G inTime hops (i :: visited)) (G.votes i) .empty f.tick).2.found
          else (poll (foresee G inTime hops (i :: visited)) (G.votes i) .empty f.tick).2.found⟩) := by
  simp [foresee, hr, hv, ht]

end Equations

/-! ## Searches and their forecast -/

section Growth

variable (G : VoteGraph ι) (inTime : ℕ → Bool)

/-- A forecast only grows. -/
structure Grows (f f' : Forecast ι) : Prop where
  most : f.most ≤ f'.most
  found : ∀ x ∈ f.found, x ∈ f'.found

omit [DecidableEq ι] in
theorem Grows.refl (f : Forecast ι) : Grows f f := ⟨le_rfl, fun _ h => h⟩

omit [DecidableEq ι] in
theorem poll_grows {look : ι → Forecast ι → Prospect × Forecast ι}
    (hlook : ∀ i f, Grows f (look i f).2) (vs : List (Sign × ι)) (t : Poll) (f : Forecast ι) :
    Grows f (poll look vs t f).2 :=
  poll_induct (P := fun _ f' => Grows f f')
    (fun v _ _ f' h => ⟨h.most.trans (hlook v.2 f').most,
      fun x hx => (hlook v.2 f').found x (h.found x hx)⟩) (.refl f)

theorem foresee_grows (hops : ℕ) (visited : List ι) (i : ι) (f : Forecast ι) :
    Grows f (foresee G inTime hops visited i f).2 := by
  induction hops generalizing visited i f with
  | zero =>
    unfold foresee
    split_ifs <;> exact .refl f
  | succ hops ih =>
    cases hr : G.root i with
    | true => rw [foresee_root hr]; exact .refl f
    | false =>
      by_cases hv : i ∈ visited
      · rw [foresee_cut hr (.inr hv)]; exact .refl f
      · cases ht : inTime f.least with
        | false =>
          rw [foresee_late hr hv ht]
          exact ⟨Nat.le_succ _, fun _ h => h⟩
        | true =>
          rw [foresee_open hr hv ht]
          have hpoll := poll_grows (ih (i :: visited)) (G.votes i) .empty f.tick
          refine ⟨(Nat.le_succ _).trans hpoll.most, fun x hx => ?_⟩
          have hx' := hpoll.found x hx
          dsimp only
          split_ifs
          · exact List.mem_cons_of_mem i hx'
          · exact hx'

end Growth

/-- The memory is one of those foreseen, on the path `visited`; once the cap is reached
the steps are not counted from below any more. -/
structure Within (cap : ℕ) (visited : List ι) (f : Forecast ι) (m : Mem ι) : Prop where
  most : m.counter ≤ f.most
  least : cap ≤ m.counter ∨ f.least ≤ m.counter
  found : ∀ x ∈ m.memo, x ∈ f.found
  apart : ∀ x ∈ m.memo, x ∉ visited

omit [DecidableEq ι] in
theorem Within.tick {cap : ℕ} {visited : List ι} {f : Forecast ι} {m : Mem ι}
    (h : Within cap visited f m) : Within cap visited f.tick m.tick :=
  ⟨Nat.succ_le_succ h.most, h.least.imp (fun h => h.trans (Nat.le_succ _)) Nat.succ_le_succ,
    h.found, h.apart⟩

/-- Either `inTime` is the cap, or the steps are not limited and the cap is not reached. -/
def Timely (inTime : ℕ → Bool) (cap n : ℕ) : Prop :=
  (∀ k, inTime k = decide (k < cap)) ∨ (∀ k, inTime k = true) ∧ n ≤ cap

theorem Timely.mono {inTime : ℕ → Bool} {cap n n' : ℕ} (h : Timely inTime cap n) (hn : n' ≤ n) :
    Timely inTime cap n' :=
  h.imp_right fun h => ⟨h.1, hn.trans h.2⟩

section Between

variable {auth : ι → Mem ι → Bool × Mem ι} {look : ι → Forecast ι → Prospect × Forecast ι}
  {vs : List (Sign × ι)} {inTime : ℕ → Bool} {cap : ℕ} {visited : List ι}

omit [DecidableEq ι] in
theorem poll_between (hmono : ∀ i m, m.counter ≤ (auth i m).2.counter)
    (hauth : ∀ v ∈ vs, ∀ f m, Within cap visited f m →
      Timely inTime cap (auth v.2 m).2.counter →
      (look v.2 f).1.Admits (auth v.2 m).1 ∧ Within cap visited (look v.2 f).2 (auth v.2 m).2)
    {t : Poll} {x : Tally} (ht : t.Admits x) {f : Forecast ι} {m : Mem ι}
    (hm : Within cap visited f m) (hfit : Timely inTime cap (scan auth vs x m).2.counter) :
    (poll look vs t f).1.Admits (scan auth vs x m).1 ∧
      Within cap visited (poll look vs t f).2 (scan auth vs x m).2 := by
  induction vs generalizing t x f m with
  | nil => exact ⟨ht, hm⟩
  | cons v vs ih =>
    have hle : (auth v.2 m).2.counter ≤ (scan auth (v :: vs) x m).2.counter :=
      scan_counter_le (fun w _ m => hmono w.2 m) _ _
    obtain ⟨hp, hm'⟩ := hauth v List.mem_cons_self f m hm (hfit.mono hle)
    exact ih (fun w hw => hauth w (List.mem_cons_of_mem v hw)) (ht.add hp v.1) hm' hfit

variable {G : VoteGraph ι} {cfg : Settings}

/-- A remembered node answers yes whatever the forecast makes of it. -/
theorem foresee_remembered (inTime : ℕ → Bool) (hops : ℕ) {i : ι} {f : Forecast ι} {m : Mem ι}
    (hr : G.root i = false) (hm : Within cap visited f m) (hi : i ∈ m.memo) :
    (foresee G inTime hops visited i f).1.maybe = true ∧
      Within cap visited (foresee G inTime hops visited i f).2 m := by
  have hf := hm.found i hi
  have hv := hm.apart i hi
  have hgrows := foresee_grows G inTime hops visited i f
  have hleast : (foresee G inTime hops visited i f).2.least = f.least := by
    cases hops with
    | zero => rw [foresee_cut hr (.inl rfl)]
    | succ hops =>
      cases ht : inTime f.least with
      | false => rw [foresee_late hr hv ht, if_pos hf]
      | true => rw [foresee_open hr hv ht, if_pos hf]
  refine ⟨?_, hm.most.trans hgrows.most, by rw [hleast]; exact hm.least,
    fun x hx => hgrows.found x (hm.found x hx), hm.apart⟩
  cases hops with
  | zero => simp [foresee_cut hr (.inl rfl), hv, hf]
  | succ hops =>
    cases ht : inTime f.least with
    | false => simp [foresee_late hr hv ht, hf]
    | true => simp [foresee_open hr hv ht, hf]

/-- Past the cap a step surely finds nothing. -/
theorem foresee_spent (hops : ℕ) {i : ι} {f : Forecast ι} {m : Mem ι} (hr : G.root i = false)
    (hv : i ∉ visited) (hm : Within cap visited f m) (hspent : cap ≤ m.counter)
    (hbound : ∀ k, inTime k = decide (k < cap)) :
    (foresee G inTime (hops + 1) visited i f).1.sure = false ∧
      Within cap visited (foresee G inTime (hops + 1) visited i f).2 m.tick := by
  have hgrows := foresee_grows G inTime (hops + 1) visited i f
  have hlate : inTime f.most = false := by
    rw [hbound, decide_eq_false_iff_not]
    exact not_lt.mpr (hspent.trans hm.most)
  have hmost : f.most + 1 ≤ (foresee G inTime (hops + 1) visited i f).2.most := by
    cases ht : inTime f.least with
    | false => rw [foresee_late hr hv ht]
    | true =>
      have hpoll := poll_grows (foresee_grows G inTime hops (i :: visited))
        (G.votes i) .empty f.tick
      rw [foresee_open hr hv ht]
      exact hpoll.most
  refine ⟨?_, (Nat.succ_le_succ hm.most).trans hmost, .inl (hspent.trans (Nat.le_succ _)),
    fun x hx => hgrows.found x (hm.found x hx), hm.apart⟩
  cases ht : inTime f.least with
  | false => rw [foresee_late hr hv ht]
  | true => rw [foresee_open hr hv ht, hlate, Bool.false_and]

/-- A call answers, and leaves its memory, as foreseen. -/
theorem authority_foreseen (hcfg : cfg.memoised = true) (hops : ℕ) (visited : List ι) (i : ι)
    (m : Mem ι) (f : Forecast ι)
    (hm : Within cfg.cap visited f m)
    (hfit : Timely inTime cfg.cap (authority G cfg hops visited i m).2.counter) :
    (foresee G inTime hops visited i f).1.Admits (authority G cfg hops visited i m).1 ∧
      Within cfg.cap visited (foresee G inTime hops visited i f).2
        (authority G cfg hops visited i m).2 := by
  induction hops, visited, i, m using authority_induct G cfg generalizing f with
  | hknown hops visited i m hk =>
    cases hr : G.root i with
    | true => rw [foresee_root hr]; exact ⟨Prospect.admits_yes, hm⟩
    | false =>
      obtain ⟨-, hi⟩ := (known_iff.mp hk).resolve_left (by simp [hr])
      obtain ⟨hmaybe, hm'⟩ := foresee_remembered inTime hops hr hm hi
      exact ⟨⟨fun _ => rfl, fun _ => hmaybe⟩, hm'⟩
  | hcut hops visited i m hk hcut =>
    have hr : G.root i = false := (Bool.or_eq_false_iff.mp hk).1
    rw [foresee_cut hr hcut]
    exact ⟨⟨fun h => h, fun h => absurd h Bool.false_ne_true⟩, hm⟩
  | hopen hops visited i m hk hv ih =>
    have hr : G.root i = false := (Bool.or_eq_false_iff.mp hk).1
    rw [settle_counter] at hfit
    by_cases hcut : cfg.cap < m.tick.counter
    · have he : resolve cfg.cap (authority G cfg hops (i :: visited)) (G.votes i) m =
          (.none, m.tick) := if_pos hcut
      rw [he] at hfit ⊢
      have hbound : ∀ k, inTime k = decide (k < cfg.cap) :=
        hfit.resolve_right fun h => absurd h.2 (not_le.mpr hcut)
      obtain ⟨hno, hend⟩ := foresee_spent (G := G) hops hr hv hm (Nat.le_of_lt_succ hcut) hbound
      refine ⟨⟨fun h => ?_, fun h => absurd h Bool.false_ne_true⟩, hend⟩
      rw [hno] at h
      cases h
    · have he : resolve cfg.cap (authority G cfg hops (i :: visited)) (G.votes i) m =
          ((scan (authority G cfg hops (i :: visited)) (G.votes i) .empty m.tick).1.verdict,
            (scan (authority G cfg hops (i :: visited)) (G.votes i) .empty m.tick).2) :=
        if_neg hcut
      have hleast : f.least ≤ m.counter := by
        refine hm.least.resolve_left fun h => hcut ?_
        exact Nat.lt_succ_of_le h
      have ht : inTime f.least = true := by
        rcases hfit with hbound | ⟨hfree, -⟩
        · rw [hbound, decide_eq_true_iff]
          simp only [Mem.tick_counter] at hcut
          omega
        · exact hfree _
      have hnew : i ∉ m.memo := by
        intro hi
        rw [known_iff.mpr (.inr ⟨hcfg, hi⟩)] at hk
        cases hk
      rw [he] at hfit
      have hstart : Within cfg.cap (i :: visited) f.tick m.tick :=
        { hm.tick with
          apart := fun x hx => List.not_mem_cons_of_ne_of_not_mem (fun h => hnew (h ▸ hx))
            (hm.apart x hx) }
      obtain ⟨hpoll, hend⟩ := poll_between (fun j m => authority_counter_le hops (i :: visited) j m)
        (fun v _ f m hm hfit => ih v.2 m f hm hfit) Poll.admits_empty hstart hfit
      have hmore : m.tick.counter ≤
          (scan (authority G cfg hops (i :: visited)) (G.votes i) .empty m.tick).2.counter :=
        scan_counter_le (fun v _ m => authority_counter_le hops (i :: visited) v.2 m) _ _
      rw [foresee_open hr hv ht, he]
      refine ⟨⟨fun h => ?_, fun h => ?_⟩, ?_, ?_, ?_, ?_⟩
      · rw [settle_fst]
        exact hpoll.outcome.of_sure (Bool.and_eq_true_iff.mp h).2
      · rw [settle_fst] at h
        exact Bool.or_eq_true_iff.mpr (.inl (hpoll.outcome.maybe h))
      · rw [settle_counter]
        exact hend.most
      · rw [settle_counter]
        dsimp only
        split_ifs
        · exact .inr (hleast.trans ((Nat.le_succ _).trans hmore))
        · exact hend.least
      · refine settle_memo_forall cfg i (fun x hx => ?_) fun ha => ?_
        · dsimp only
          split_ifs
          · exact List.mem_cons_of_mem i (hend.found x hx)
          · exact hend.found x hx
        · dsimp only
          rw [if_pos (hpoll.outcome.maybe (decide_eq_true ha))]
          exact List.mem_cons_self
      · exact settle_memo_forall cfg i
          (fun x hx h => hend.apart x hx (List.mem_cons_of_mem i h)) fun _ => hv

/-- A search allows if it surely does, and only if it may. -/
theorem run_foreseen (hcfg : cfg.memoised = true) {H : ℕ} (hcap : inTime 0 = true → 1 ≤ cfg.cap)
    (hfit : Timely inTime cfg.cap (run G cfg H vs).2.counter) :
    (outlook G inTime H vs).Admits (decide ((run G cfg H vs).1 = .allow)) := by
  unfold outlook
  split_ifs with ht
  · rw [run_of_cap (hcap ht)] at hfit ⊢
    have hstart : Within cfg.cap [] Forecast.fresh.tick (Mem.fresh (ι := ι)).tick :=
      ⟨le_rfl, .inr le_rfl, fun x hx => absurd hx List.not_mem_nil,
        fun x hx => absurd hx List.not_mem_nil⟩
    exact (poll_between (fun i m => authority_counter_le H [] i m)
      (fun v _ f m hm hfit => authority_foreseen hcfg H [] v.2 m f hm hfit)
      Poll.admits_empty hstart hfit).1.outcome
  · have hnot : ¬ 1 ≤ cfg.cap := by
      intro hone
      rcases hfit with hbound | ⟨hfree, -⟩
      · exact ht (by rw [hbound]; exact decide_eq_true hone)
      · exact ht (hfree 0)
    rw [run_of_no_cap hnot]
    exact ⟨fun h => absurd h Bool.false_ne_true, fun h => absurd h (by simp)⟩

end Between

/-! ## Judgements and their forecast -/

section Judged

variable {G : VoteGraph ι} {inTime : ℕ → Bool} {vs : List (Sign × ι)} {H : ℕ}

omit [DecidableEq ι] in
theorem poll_tallyBy {look : ι → Forecast ι → Prospect × Forecast ι} {p : ι → Bool}
    (hlook : ∀ i f, (look i f).1.Admits (p i)) {t : Poll} {x : Tally} (ht : t.Admits x)
    (f : Forecast ι) : (poll look vs t f).1.Admits (tallyBy p vs x) := by
  induction vs generalizing t x f with
  | nil => exact ht
  | cons v vs ih => exact ih (ht.add (hlook v.2 f) v.1) _

theorem foresee_holds (hfree : ∀ k, inTime k = true) (hops : ℕ) (visited : List ι) (i : ι)
    (f : Forecast ι) :
    (foresee G inTime hops visited i f).1.Admits (holds G hops visited i) := by
  induction hops generalizing visited i f with
  | zero =>
    cases hr : G.root i with
    | true => rw [foresee_root hr, holds_root hr]; exact Prospect.admits_yes
    | false =>
      rw [foresee_cut hr (.inl rfl), holds_cut hr (.inl rfl)]
      exact ⟨fun h => h, fun h => absurd h Bool.false_ne_true⟩
  | succ hops ih =>
    cases hr : G.root i with
    | true => rw [foresee_root hr, holds_root hr]; exact Prospect.admits_yes
    | false =>
      by_cases hv : i ∈ visited
      · rw [foresee_cut hr (.inr hv), holds_cut hr (.inr hv)]
        exact ⟨fun h => h, fun h => absurd h Bool.false_ne_true⟩
      · rw [foresee_open hr hv (hfree _), holds_open hr hv]
        have hpoll : (poll (foresee G inTime hops (i :: visited)) (G.votes i) .empty
            f.tick).1.outcome.Admits (passes (holds G hops (i :: visited)) (G.votes i)) :=
          (poll_tallyBy (ih (i :: visited)) Poll.admits_empty f.tick).outcome
        exact ⟨fun h => hpoll.of_sure (Bool.and_eq_true_iff.mp h).2,
          fun h => Bool.or_eq_true_iff.mpr (.inl (hpoll.maybe h))⟩

theorem outlook_holds (hfree : ∀ k, inTime k = true) :
    (outlook G inTime H vs).Admits (passes (holds G H []) vs) := by
  rw [outlook, if_pos (hfree 0)]
  exact (poll_tallyBy (foresee_holds hfree H []) Poll.admits_empty _).outcome

end Judged

/-! ## Settled searches -/

/-- Whatever is remembered, a search that keeps within its cap comes to the same. -/
def Settled (G : VoteGraph ι) (H : ℕ) (vs : List (Sign × ι)) : Prop :=
  (outlook G (fun _ => true) H vs).maybe = true → (outlook G (fun _ => true) H vs).sure = true

instance (G : VoteGraph ι) (H : ℕ) (vs : List (Sign × ι)) : Decidable (Settled G H vs) :=
  inferInstanceAs (Decidable (_ → _))

omit [DecidableEq ι] in
theorem Prospect.Admits.eq {p : Prospect} {b b' : Bool} (h : p.Admits b) (h' : p.Admits b')
    (hp : p.maybe = true → p.sure = true) : b = b' := by
  rw [Bool.eq_iff_iff]
  exact ⟨fun hb => h'.of_sure (hp (h.maybe hb)), fun hb => h.of_sure (hp (h'.maybe hb))⟩

theorem run_agrees_of_settled {G : VoteGraph ι} {cfg : Settings} {H : ℕ}
    {vs : List (Sign × ι)} (hcfg : cfg.memoised = true) (hsettled : Settled G H vs)
    (hfit : (run G cfg H vs).2.counter ≤ cfg.cap) :
    decide ((run G cfg H vs).1 = .allow) = passes (holds G H []) vs := by
  have hcap : 1 ≤ cfg.cap := by
    by_contra hnot
    rw [run_of_no_cap hnot] at hfit
    exact hnot hfit
  exact (run_foreseen hcfg (fun _ => hcap) (.inr ⟨fun _ => rfl, hfit⟩)).eq
    (outlook_holds fun _ => rfl) hsettled

end VoteSearch

import Dacar.Cpp.StateVector

/-!
# Pruning cannot be observed

A run that prunes and the same run without pruning are compared key by key.  The
pruned side may lack a timestamp the other side has, but only one older than the
cutoff, and intake refuses every operation that old: whatever arrives later
outranks the lost timestamp.
-/

namespace Dacar

/-- An offer to `apply` or a call of `prune`, at a clock reading. -/
inductive Tick (τ μ : Type*)
  | offer (now : τ) (op : Operation) (maxFutureMs : μ)
  | prune (now : τ)

namespace Tick

variable {τ μ τ' μ' : Type*}

def now : Tick τ μ → τ
  | offer now _ _ => now
  | prune now => now

def isOffer : Tick τ μ → Bool
  | offer _ _ _ => true
  | prune _ => false

def map (f : τ → τ') (g : μ → μ') : Tick τ μ → Tick τ' μ'
  | offer now op m => offer (f now) op (g m)
  | prune now => prune (f now)

end Tick

section Runs

variable {S S' τ μ τ' μ' : Type*}

/-- The answers of the offers, in order, and the final state. -/
def runTicks (apply : S → Operation → τ → μ → Bool × S) (prune : S → τ → ℕ × S) :
    S → List (Tick τ μ) → List Bool × S
  | s, [] => ([], s)
  | s, .offer now op m :: ticks =>
    let r := apply s op now m
    let rest := runTicks apply prune r.2 ticks
    (r.1 :: rest.1, rest.2)
  | s, .prune now :: ticks => runTicks apply prune (prune s now).2 ticks

/-- Runs of two implementations agree when their steps do. -/
theorem runTicks_map {apply : S → Operation → τ → μ → Bool × S} {prune : S → τ → ℕ × S}
    {apply' : S' → Operation → τ' → μ' → Bool × S'} {prune' : S' → τ' → ℕ × S'}
    (abs : S → S') (f : τ → τ') (g : μ → μ')
    (happ : ∀ s op now m, apply' (abs s) op (f now) (g m) =
      ((apply s op now m).1, abs (apply s op now m).2))
    (hprune : ∀ s now, prune' (abs s) (f now) = ((prune s now).1, abs (prune s now).2))
    (s : S) (ticks : List (Tick τ μ)) :
    runTicks apply' prune' (abs s) (ticks.map (Tick.map f g)) =
      ((runTicks apply prune s ticks).1, abs (runTicks apply prune s ticks).2) := by
  induction ticks generalizing s with
  | nil => rfl
  | cons t ticks ih =>
    cases t with
    | offer now op m =>
      simp only [List.map_cons, Tick.map, runTicks, happ, ih]
    | prune now =>
      simp only [List.map_cons, Tick.map, runTicks, hprune, ih]

end Runs

/-! ## Timestamps that may be missing -/

/-- `t` is `t'`, or is missing where `t'` is older than the cutoff. -/
def Lags (cutoff : ℤ) (t t' : Option ℕ) : Prop :=
  t = t' ∨ t = none ∧ ∃ a, t' = some a ∧ (physical a : ℤ) < cutoff

section Lags

variable {cutoff cutoff' : ℤ} {t t' : Option ℕ} {x : ℕ}

theorem Lags.mono (h : Lags cutoff t t') (hc : cutoff ≤ cutoff') : Lags cutoff' t t' :=
  h.imp_right fun ⟨hn, a, ha, hlt⟩ => ⟨hn, a, ha, lt_of_lt_of_le hlt hc⟩

theorem lt_of_fresh {a : ℕ} (ha : (physical a : ℤ) < cutoff) (hx : cutoff ≤ physical x) : a < x :=
  lt_of_physical_lt (by omega)

/-- A fresh timestamp overrides the difference. -/
theorem Lags.maxTs_eq (h : Lags cutoff t t') (hx : cutoff ≤ physical x) :
    maxTs t x = maxTs t' x := by
  rcases h with rfl | ⟨rfl, a, rfl, ha⟩
  · rfl
  · have hlt : a < x := lt_of_fresh ha hx
    simp [maxTs, not_lt.mpr hlt.le]

theorem Lags.below_iff (h : Lags cutoff t t') (hx : cutoff ≤ physical x) :
    (∀ r ∈ t, r < x) ↔ ∀ r ∈ t', r < x := by
  rcases h with rfl | ⟨rfl, a, rfl, ha⟩
  · rfl
  · have hlt : a < x := lt_of_fresh ha hx
    simp [hlt]

theorem Lags.above_iff (h : Lags cutoff t t') (hx : cutoff ≤ physical x) :
    (∃ a ∈ t, x < a) ↔ ∃ a ∈ t', x < a := by
  rcases h with rfl | ⟨rfl, a, rfl, ha⟩
  · rfl
  · have hlt : a < x := lt_of_fresh ha hx
    simp [not_lt.mpr hlt.le]

end Lags

/-! ## Entries that may have faded -/

def addOf (o : Option Entry) : Option ℕ := o.bind Entry.addTs

def removeOf (o : Option Entry) : Option ℕ := o.bind Entry.removeTs

theorem any_isActive_iff (o : Option Entry) :
    o.any Entry.isActive = true ↔ ∃ a ∈ addOf o, ∀ r ∈ removeOf o, r < a := by
  cases o with
  | none => simp [addOf]
  | some e => exact e.isActive_iff

section Record

variable {op : Operation} (o : Option Entry)

theorem addOf_record_grant (h : op.action = .grant) :
    addOf (some (Entry.record op o)) = some (maxTs (addOf o) op.hlc) := by
  cases o <;> simp [addOf, Entry.record, h]

theorem removeOf_record_grant (h : op.action = .grant) :
    removeOf (some (Entry.record op o)) = removeOf o := by
  cases o <;> simp [removeOf, Entry.record, h]

theorem addOf_record_revoke (h : op.action = .revoke) :
    addOf (some (Entry.record op o)) = addOf o := by
  cases o <;> simp [addOf, Entry.record, h]

theorem removeOf_record_revoke (h : op.action = .revoke) :
    removeOf (some (Entry.record op o)) = some (maxTs (removeOf o) op.hlc) := by
  cases o <;> simp [removeOf, Entry.record, h]

end Record

/-- `o` is `o'` but for timestamps older than the cutoff, and no less active. -/
structure Faded (cutoff : ℤ) (o o' : Option Entry) : Prop where
  add : Lags cutoff (addOf o) (addOf o')
  remove : Lags cutoff (removeOf o) (removeOf o')
  active : o.any Entry.isActive = o'.any Entry.isActive

namespace Faded

variable {cutoff cutoff' : ℤ} {o o' : Option Entry}

theorem refl (o : Option Entry) : Faded cutoff o o := ⟨.inl rfl, .inl rfl, rfl⟩

theorem mono (h : Faded cutoff o o') (hc : cutoff ≤ cutoff') : Faded cutoff' o o' :=
  ⟨h.add.mono hc, h.remove.mono hc, h.active⟩

/-- An operation that is not stale restores what it writes, and settles the activity. -/
theorem record (h : Faded cutoff o o') {op : Operation} (hop : cutoff ≤ physical op.hlc) :
    Faded cutoff (some (Entry.record op o)) (some (Entry.record op o')) := by
  have hfresh : ∀ t, cutoff ≤ physical (maxTs t op.hlc) := fun t =>
    le_trans hop (Int.ofNat_le.mpr (physical_mono (le_maxTs t op.hlc)))
  cases ha : op.action with
  | grant =>
    have hadd := h.add.maxTs_eq hop
    refine ⟨.inl ?_, ?_, ?_⟩
    · rw [addOf_record_grant o ha, addOf_record_grant o' ha, hadd]
    · rw [removeOf_record_grant o ha, removeOf_record_grant o' ha]
      exact h.remove
    · -- a Remove that may be missing is older than the Add just written
      rw [Bool.eq_iff_iff, any_isActive_iff, any_isActive_iff, addOf_record_grant o ha,
        addOf_record_grant o' ha, removeOf_record_grant o ha, removeOf_record_grant o' ha, hadd]
      simp only [Option.mem_def, Option.some.injEq, exists_eq_left']
      exact h.remove.below_iff (hfresh _)
  | revoke =>
    have hremove := h.remove.maxTs_eq hop
    refine ⟨?_, .inl ?_, ?_⟩
    · rw [addOf_record_revoke o ha, addOf_record_revoke o' ha]
      exact h.add
    · rw [removeOf_record_revoke o ha, removeOf_record_revoke o' ha, hremove]
    · -- and an Add that may be missing is older than the Remove
      rw [Bool.eq_iff_iff, any_isActive_iff, any_isActive_iff, addOf_record_revoke o ha,
        addOf_record_revoke o' ha, removeOf_record_revoke o ha, removeOf_record_revoke o' ha,
        hremove]
      simp only [Option.mem_def, Option.some.injEq, forall_eq']
      exact h.add.above_iff (hfresh _)

/-- What pruning drops was inactive, and both its timestamps were older than the cutoff. -/
theorem prune (h : Faded cutoff o o') :
    Faded cutoff (o.filter fun e => !e.expired cutoff) o' := by
  cases o with
  | none => exact h
  | some e =>
    cases hexp : e.expired cutoff with
    | false => simpa [Option.filter, hexp] using h
    | true =>
      have hnone : (some e).filter (fun e => !e.expired cutoff) = none := by
        simp [Option.filter, hexp]
      rw [hnone]
      obtain ⟨hact, hold⟩ := Entry.expired_iff.mp hexp
      obtain ⟨a, ha, haold⟩ := hold .grant
      obtain ⟨r, hr, hrold⟩ := hold .revoke
      refine ⟨.inr ⟨rfl, a, ?_, haold⟩, .inr ⟨rfl, r, ?_, hrold⟩, ?_⟩
      · rcases h.add with h | ⟨h, -⟩
        · exact h.symm.trans ha
        · exact absurd (ha.symm.trans h) (by simp)
      · rcases h.remove with h | ⟨h, -⟩
        · exact h.symm.trans hr
        · exact absurd (hr.symm.trans h) (by simp)
      · rw [← h.active]
        exact hact.symm

end Faded

/-! ## Runs with and without pruning -/

variable {κ : Type*} [DecidableEq κ] {key : Tuple → κ}

namespace StateVector

/-- The pruned state `s` against the unpruned `u`. -/
structure FadedFrom (cutoff : ℤ) (s u : StateVector key) : Prop where
  days : s.deletionHorizonDays = u.deletionHorizonDays
  entries : ∀ k, Faded cutoff (s.entries.get? k) (u.entries.get? k)

variable {cutoff : ℤ} {s u : StateVector key}

theorem FadedFrom.horizon (h : FadedFrom cutoff s u) :
    s.deletionHorizonMs = u.deletionHorizonMs := by
  rw [deletionHorizonMs, deletionHorizonMs, h.days]

theorem FadedFrom.isActive_eq (h : FadedFrom cutoff s u) (k : κ) : s.isActive k = u.isActive k :=
  (h.entries k).active

theorem FadedFrom.mono {cutoff' : ℤ} (h : FadedFrom cutoff s u) (hc : cutoff ≤ cutoff') :
    FadedFrom cutoff' s u :=
  ⟨h.days, fun k => (h.entries k).mono hc⟩

/-- Both sides answer an offer alike, and stay related. -/
theorem FadedFrom.apply (h : FadedFrom cutoff s u) {now : ℤ}
    (hnow : cutoff = now - s.deletionHorizonMs) (op : Operation) (maxFutureMs : Option ℤ) :
    (s.apply op now maxFutureMs).1 = (u.apply op now maxFutureMs).1 ∧
      FadedFrom cutoff (s.apply op now maxFutureMs).2 (u.apply op now maxFutureMs).2 := by
  have hadm : s.Admits op now maxFutureMs ↔ u.Admits op now maxFutureMs := by
    rw [Admits, Admits, h.horizon]
  rw [apply_eq, apply_eq]
  by_cases hs : s.Admits op now maxFutureMs
  · rw [if_pos hs, if_pos (hadm.mp hs)]
    refine ⟨rfl, h.days, fun k => ?_⟩
    rw [get?_record, get?_record]
    split_ifs
    · exact (h.entries _).record (hnow ▸ hs.2)
    · exact h.entries k
  · rw [if_neg hs, if_neg fun hu => hs (hadm.mpr hu)]
    exact ⟨rfl, h⟩

theorem FadedFrom.prune (h : FadedFrom cutoff s u) {now : ℤ}
    (hnow : cutoff = now - s.deletionHorizonMs) : FadedFrom cutoff (s.prune now).2 u := by
  refine ⟨h.days, fun k => ?_⟩
  rw [get?_prune, ← hnow]
  exact (h.entries k).prune

/-- A whole run at non-decreasing readings, from related states. -/
theorem runTicks_faded {ticks : List (Tick ℤ (Option ℤ))}
    (hsorted : (ticks.map Tick.now).Pairwise (· ≤ ·))
    (hlow : ∀ t ∈ ticks, cutoff ≤ t.now - s.deletionHorizonMs) (h : FadedFrom cutoff s u) :
    (runTicks apply prune s ticks).1 = (runTicks apply prune u (ticks.filter Tick.isOffer)).1 ∧
      ∀ k, (runTicks apply prune s ticks).2.isActive k =
        (runTicks apply prune u (ticks.filter Tick.isOffer)).2.isActive k := by
  induction ticks generalizing cutoff s u with
  | nil => exact ⟨rfl, h.isActive_eq⟩
  | cons t ticks ih =>
    rw [List.map_cons, List.pairwise_cons] at hsorted
    -- bring the cutoff up to this tick; the later ticks are not below it
    have h' := h.mono (hlow t List.mem_cons_self)
    have hlater : ∀ t' ∈ ticks, t.now - s.deletionHorizonMs ≤ t'.now - s.deletionHorizonMs :=
      fun t' ht' => Int.sub_le_sub_right (hsorted.1 _ (List.mem_map_of_mem ht')) _
    cases t with
    | offer now op m =>
      obtain ⟨hans, hstate⟩ := h'.apply rfl op m
      have hdays : (s.apply op now m).2.deletionHorizonMs = s.deletionHorizonMs := by
        rw [deletionHorizonMs, apply_horizon, deletionHorizonMs]
      obtain ⟨hrest, hact⟩ := ih hsorted.2 (by simpa only [Tick.now, hdays] using hlater) hstate
      exact ⟨congrArg₂ List.cons hans hrest, hact⟩
    | prune now => exact ih hsorted.2 hlater (h'.prune rfl)

/-- From one state, the run with its prunings and the run without them. -/
theorem runTicks_prune (s : StateVector key) {ticks : List (Tick ℤ (Option ℤ))}
    (hsorted : (ticks.map Tick.now).Pairwise (· ≤ ·)) :
    (runTicks apply prune s ticks).1 = (runTicks apply prune s (ticks.filter Tick.isOffer)).1 ∧
      ∀ k, (runTicks apply prune s ticks).2.isActive k =
        (runTicks apply prune s (ticks.filter Tick.isOffer)).2.isActive k := by
  cases ticks with
  | nil => exact ⟨rfl, fun _ => rfl⟩
  | cons t ticks =>
    have hle : ∀ t' ∈ t :: ticks, t.now ≤ t'.now := by
      intro t' ht'
      rcases List.mem_cons.mp ht' with rfl | ht'
      · exact le_rfl
      · exact (List.pairwise_cons.mp hsorted).1 _ (List.mem_map_of_mem ht')
    have hsame : FadedFrom (t.now - s.deletionHorizonMs) s s := ⟨rfl, fun k => .refl _⟩
    exact runTicks_faded hsorted (fun t' ht' => Int.sub_le_sub_right (hle t' ht') _) hsame

end StateVector

namespace Cpp.StateVector

/-- A C++ tick reads the clock itself or is told the time. -/
abbrev CppTick := Tick (ℕ × ℤ) ℤ

def applyAt (s : StateVector key) (op : Operation) (now : ℕ × ℤ) (maxFutureMs : ℤ) :
    Bool × StateVector key :=
  s.apply op now.1 now.2 maxFutureMs

def pruneAt (s : StateVector key) (now : ℕ × ℤ) : ℕ × StateVector key := s.prune now.1 now.2

def readingOf (now : ℕ × ℤ) : ℤ := clockReading now.1 now.2

theorem runTicks_toStateVector (s : StateVector key) (ticks : List CppTick) :
    runTicks Dacar.StateVector.apply Dacar.StateVector.prune s.toStateVector
        (ticks.map (Tick.map readingOf skewBound)) =
      ((runTicks applyAt pruneAt s ticks).1, (runTicks applyAt pruneAt s ticks).2.toStateVector) :=
  runTicks_map toStateVector readingOf skewBound
    (fun s op now m => toStateVector_apply s op now.1 now.2 m)
    (fun s now => toStateVector_prune s now.1 now.2) s ticks

theorem runTicks_prune (s : StateVector key) {ticks : List CppTick}
    (hsorted : (ticks.map fun t => readingOf t.now).Pairwise (· ≤ ·)) :
    (runTicks applyAt pruneAt s ticks).1 =
        (runTicks applyAt pruneAt s (ticks.filter Tick.isOffer)).1 ∧
      ∀ k, (runTicks applyAt pruneAt s ticks).2.isActive k =
        (runTicks applyAt pruneAt s (ticks.filter Tick.isOffer)).2.isActive k := by
  have hnow : ∀ t : CppTick, (t.map readingOf skewBound).now = readingOf t.now := by
    intro t
    cases t <;> rfl
  have hoffer : ∀ t : CppTick, (t.map readingOf skewBound).isOffer = t.isOffer := by
    intro t
    cases t <;> rfl
  have hsorted' : ((ticks.map (Tick.map readingOf skewBound)).map Tick.now).Pairwise (· ≤ ·) := by
    rw [List.map_map]
    exact (List.map_congr_left fun t _ => hnow t) ▸ hsorted
  have hfilter : (ticks.map (Tick.map readingOf skewBound)).filter Tick.isOffer =
      (ticks.filter Tick.isOffer).map (Tick.map readingOf skewBound) := by
    rw [List.filter_map]
    exact congrArg _ (List.filter_congr fun t _ => hoffer t)
  have h := Dacar.StateVector.runTicks_prune s.toStateVector hsorted'
  rw [hfilter, runTicks_toStateVector, runTicks_toStateVector] at h
  exact ⟨h.1, fun k => by rw [← toStateVector_isActive, ← toStateVector_isActive]; exact h.2 k⟩

end Cpp.StateVector

/-- Whatever prefix of a run is looked at, and wherever the run prunes, the offers were
answered and the tuples are active as if it had never pruned. -/
theorem prune_invisible (s : StateVector key) (s' : Cpp.StateVector key) :
    (∀ ticks : List (Tick ℤ (Option ℤ)), (ticks.map Tick.now).Pairwise (· ≤ ·) →
      ∀ seen, seen <+: ticks →
        (runTicks StateVector.apply StateVector.prune s seen).1 =
            (runTicks StateVector.apply StateVector.prune s (seen.filter Tick.isOffer)).1 ∧
          ∀ k, (runTicks StateVector.apply StateVector.prune s seen).2.isActive k =
            (runTicks StateVector.apply StateVector.prune s
              (seen.filter Tick.isOffer)).2.isActive k) ∧
    (∀ ticks : List Cpp.StateVector.CppTick,
      (ticks.map fun t => Cpp.StateVector.readingOf t.now).Pairwise (· ≤ ·) →
      ∀ seen, seen <+: ticks →
        (runTicks Cpp.StateVector.applyAt Cpp.StateVector.pruneAt s' seen).1 =
            (runTicks Cpp.StateVector.applyAt Cpp.StateVector.pruneAt s'
              (seen.filter Tick.isOffer)).1 ∧
          ∀ k, (runTicks Cpp.StateVector.applyAt Cpp.StateVector.pruneAt s' seen).2.isActive k =
            (runTicks Cpp.StateVector.applyAt Cpp.StateVector.pruneAt s'
              (seen.filter Tick.isOffer)).2.isActive k) := by
  refine ⟨fun ticks hsorted seen hseen => ?_, fun ticks hsorted seen hseen => ?_⟩
  · exact s.runTicks_prune (hsorted.sublist (hseen.sublist.map Tick.now))
  · exact s'.runTicks_prune
      (hsorted.sublist (hseen.sublist.map fun t => Cpp.StateVector.readingOf t.now))

def replayed : Tuple := ⟨Blob.fill 16 1, [], true, Blob.fill 16 2, Blob.fill 16 3, by decide⟩

/-- A grant, its revoke, a prune two days later and the old grant once more. -/
def replay : List (Tick ℤ (Option ℤ)) :=
  [.offer 0 ⟨replayed, .grant, 1, [], by decide⟩ none,
    .offer 1 ⟨replayed, .revoke, 2, [], by decide⟩ none,
    .prune (2 * msPerDay), .offer (2 * msPerDay) ⟨replayed, .grant, 1, [], by decide⟩ none]

theorem prune_invisible_replay :
    (runTicks StateVector.apply StateVector.prune (.empty 1 : StateVector Tuple.key) replay).1 =
        (runTicks StateVector.apply StateVector.prune (.empty 1 : StateVector Tuple.key)
          (replay.filter Tick.isOffer)).1 ∧
      ∀ k, (runTicks StateVector.apply StateVector.prune (.empty 1 : StateVector Tuple.key)
          replay).2.isActive k =
        (runTicks StateVector.apply StateVector.prune (.empty 1 : StateVector Tuple.key)
          (replay.filter Tick.isOffer)).2.isActive k :=
  (prune_invisible (.empty 1) (.empty 1)).1 replay (by decide) replay (List.prefix_refl _)

end Dacar

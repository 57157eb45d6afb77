import Mathlib

/-!
# Bounded search over a graph of votes

A node is trusted outright when it is a root.  Any other node is judged by the
votes cast on it: it is authorised when no authorised node denies it and some
authorised node allows it.  The judgement is computed depth first, with a bound
on the hops, a set of nodes on the current path, a step counter shared by the
whole search and, optionally, a memo of the nodes found authorised.

Nothing here knows what the nodes are.
-/

namespace VoteSearch

inductive Sign
  | deny
  | allow
  deriving DecidableEq

inductive Decision
  | deny
  | allow
  | none
  deriving DecidableEq

/-- Who is trusted outright, and who votes on whom, in scan order. -/
structure VoteGraph (ι : Type*) where
  root : ι → Bool
  votes : ι → List (Sign × ι)

/-- Which kinds of valid vote a scan has met. -/
structure Tally where
  deny : Bool
  allow : Bool
  deriving DecidableEq

namespace Tally

def empty : Tally := ⟨false, false⟩

def add (t : Tally) (s : Sign) (b : Bool) : Tally :=
  match s with
  | .deny => { t with deny := t.deny || b }
  | .allow => { t with allow := t.allow || b }

/-- Deny beats allow. -/
def verdict (t : Tally) : Decision :=
  if t.deny then .deny else if t.allow then .allow else .none

@[simp] theorem add_deny_deny (t : Tally) (b : Bool) : (t.add .deny b).deny = (t.deny || b) := rfl
@[simp] theorem add_deny_allow (t : Tally) (b : Bool) : (t.add .deny b).allow = t.allow := rfl
@[simp] theorem add_allow_deny (t : Tally) (b : Bool) : (t.add .allow b).deny = t.deny := rfl
@[simp] theorem add_allow_allow (t : Tally) (b : Bool) :
    (t.add .allow b).allow = (t.allow || b) := rfl

/-- Whether a valid vote of this sign was met. -/
def has (t : Tally) : Sign → Bool
  | .deny => t.deny
  | .allow => t.allow

theorem has_add (t : Tally) (s s' : Sign) (b : Bool) :
    (t.add s b).has s' = (t.has s' || (decide (s = s') && b)) := by
  cases s <;> cases s' <;> simp [has, add]

@[simp] theorem add_false (t : Tally) (s : Sign) : t.add s false = t := by
  cases s <;> simp [add]

theorem verdict_eq_allow {t : Tally} : t.verdict = .allow ↔ t.deny = false ∧ t.allow = true := by
  rcases t with ⟨d, a⟩
  cases d <;> cases a <;> simp [verdict]

theorem verdict_eq_deny {t : Tally} : t.verdict = .deny ↔ t.deny = true := by
  rcases t with ⟨d, a⟩
  cases d <;> cases a <;> simp [verdict]

end Tally

/-- What one search carries from call to call. -/
structure Mem (ι : Type*) where
  memo : List ι
  counter : ℕ
  deriving DecidableEq

namespace Mem

variable {ι : Type*}

def fresh : Mem ι := ⟨[], 0⟩

def tick (m : Mem ι) : Mem ι := { m with counter := m.counter + 1 }

@[simp] theorem tick_counter (m : Mem ι) : m.tick.counter = m.counter + 1 := rfl

end Mem

/-- The step bound, and whether positive results are remembered. -/
structure Settings where
  cap : ℕ
  memoised : Bool

variable {ι : Type*}

/-- Every vote is followed up, also after the outcome is known. -/
def scan (auth : ι → Mem ι → Bool × Mem ι) : List (Sign × ι) → Tally → Mem ι → Tally × Mem ι
  | [], t, m => (t, m)
  | (s, i) :: vs, t, m => scan auth vs (t.add s (auth i m).1) (auth i m).2

/-- One step of the search; past the cap it answers `none` without looking. -/
def resolve (cap : ℕ) (auth : ι → Mem ι → Bool × Mem ι) (vs : List (Sign × ι)) (m : Mem ι) :
    Decision × Mem ι :=
  if cap < m.tick.counter then (.none, m.tick)
  else
    let r := scan auth vs .empty m.tick
    (r.1.verdict, r.2)

/-- Read a verdict on `i` as an answer, remembering a positive one. -/
def settle (cfg : Settings) (i : ι) (r : Decision × Mem ι) : Bool × Mem ι :=
  if r.1 = .allow then
    (true, if cfg.memoised then { r.2 with memo := i :: r.2.memo } else r.2)
  else (false, r.2)

section Settle

variable (cfg : Settings) (i : ι)

theorem settle_fst (r : Decision × Mem ι) : (settle cfg i r).1 = decide (r.1 = .allow) := by
  unfold settle
  split_ifs with h <;> simp [h]

@[simp] theorem settle_counter (r : Decision × Mem ι) :
    (settle cfg i r).2.counter = r.2.counter := by
  unfold settle
  split_ifs <;> rfl

theorem settle_memo (r : Decision × Mem ι) :
    (settle cfg i r).2.memo = r.2.memo ∨
      r.1 = .allow ∧ cfg.memoised = true ∧ (settle cfg i r).2.memo = i :: r.2.memo := by
  unfold settle
  split_ifs with h hm
  · exact .inr ⟨h, hm, rfl⟩
  · exact .inl rfl
  · exact .inl rfl

/-- What holds of every remembered node, and of `i` if it is allowed, still does. -/
theorem settle_memo_forall {P : ι → Prop} {r : Decision × Mem ι} (hmemo : ∀ x ∈ r.2.memo, P x)
    (hi : r.1 = .allow → P i) : ∀ x ∈ (settle cfg i r).2.memo, P x := by
  intro x hx
  rcases settle_memo cfg i r with h | ⟨ha, _, h⟩
  · exact hmemo x (h ▸ hx)
  · rw [h] at hx
    rcases List.mem_cons.mp hx with rfl | hx
    · exact hi ha
    · exact hmemo x hx

end Settle

/-! ## Running a scan -/

section Scan

variable {auth : ι → Mem ι → Bool × Mem ι} {vs : List (Sign × ι)}

/-- What every vote preserves, the scan preserves. -/
theorem scan_induct {P : Tally → Mem ι → Prop}
    (step : ∀ v ∈ vs, ∀ t m, P t m → P (t.add v.1 (auth v.2 m).1) (auth v.2 m).2)
    {t : Tally} {m : Mem ι} (h : P t m) : P (scan auth vs t m).1 (scan auth vs t m).2 := by
  induction vs generalizing t m with
  | nil => exact h
  | cons v vs ih =>
    exact ih (fun w hw => step w (List.mem_cons_of_mem v hw)) (step v List.mem_cons_self t m h)

theorem scan_counter_le (hmono : ∀ v ∈ vs, ∀ m, m.counter ≤ (auth v.2 m).2.counter)
    (t : Tally) (m : Mem ι) : m.counter ≤ (scan auth vs t m).2.counter :=
  scan_induct (P := fun _ m' => m.counter ≤ m'.counter)
    (fun v hv _ m' h => h.trans (hmono v hv m')) le_rfl

theorem scan_append (vs ws : List (Sign × ι)) (t : Tally) (m : Mem ι) :
    scan auth (vs ++ ws) t m = scan auth ws (scan auth vs t m).1 (scan auth vs t m).2 := by
  induction vs generalizing t m with
  | nil => rfl
  | cons v vs ih => exact ih _ _

/-- A valid vote is not forgotten. -/
theorem scan_has_mono {s : Sign} {t : Tally} {m : Mem ι} (h : t.has s = true) :
    (scan auth vs t m).1.has s = true := by
  refine scan_induct (P := fun t _ => t.has s = true) ?_ h
  intro v _ t m ht
  rw [Tally.has_add, ht, Bool.true_or]

/-- A vote cast by a node that always passes is never lost. -/
theorem scan_has_of_mem {s : Sign} {j : ι} (hj : (s, j) ∈ vs)
    (hpass : ∀ m, (auth j m).1 = true) (t : Tally) (m : Mem ι) :
    (scan auth vs t m).1.has s = true := by
  obtain ⟨pre, post, rfl⟩ := List.append_of_mem hj
  rw [scan_append, scan]
  apply scan_has_mono
  rw [Tally.has_add, hpass, decide_eq_true rfl, Bool.and_self, Bool.or_true]

/-- A sign whose casters all fail is not counted. -/
theorem scan_has_eq_false {s : Sign} {I : Mem ι → Prop}
    (hinv : ∀ v ∈ vs, ∀ m, I m → I (auth v.2 m).2)
    (hfail : ∀ j, (s, j) ∈ vs → ∀ m, I m → (auth j m).1 = false) {t : Tally} {m : Mem ι}
    (ht : t.has s = false) (hm : I m) : (scan auth vs t m).1.has s = false := by
  refine (scan_induct (P := fun t m => t.has s = false ∧ I m) ?_ ⟨ht, hm⟩).1
  intro v hv t m h
  refine ⟨?_, hinv v hv m h.2⟩
  rw [Tally.has_add, h.1, Bool.false_or]
  by_cases hsign : v.1 = s
  · rw [hfail v.2 (hsign ▸ hv) m h.2, Bool.and_false]
  · rw [decide_eq_false hsign, Bool.false_and]

/-- The allow flag is only raised by a vote that was answered yes. -/
theorem scan_allow_exists {P : ι → Prop} {I : Mem ι → Prop}
    (hauth : ∀ v ∈ vs, ∀ m, I m → ((auth v.2 m).1 = true → P v.2) ∧ I (auth v.2 m).2)
    {m : Mem ι} (hm : I m) :
    ((scan auth vs .empty m).1.allow = true → ∃ j, (.allow, j) ∈ vs ∧ P j) ∧
      I (scan auth vs .empty m).2 := by
  refine scan_induct (t := .empty) (P := fun t m =>
    (t.allow = true → ∃ j, (.allow, j) ∈ vs ∧ P j) ∧ I m) ?_
    ⟨fun h => absurd h Bool.false_ne_true, hm⟩
  rintro ⟨s, i⟩ hv t m ⟨ht, hm⟩
  obtain ⟨hi, hm'⟩ := hauth (s, i) hv m hm
  refine ⟨fun h => ?_, hm'⟩
  cases s with
  | deny => exact ht h
  | allow =>
    rcases Bool.or_eq_true_iff.mp h with h | h
    · exact ht h
    · exact ⟨i, hv, hi h⟩

theorem resolve_counter_lt (cap : ℕ) (hmono : ∀ v ∈ vs, ∀ m, m.counter ≤ (auth v.2 m).2.counter)
    (m : Mem ι) : m.counter < (resolve cap auth vs m).2.counter := by
  unfold resolve
  split_ifs
  · exact Nat.lt_succ_self _
  · exact (Nat.lt_succ_self _).trans_le (scan_counter_le hmono _ m.tick)

/-- What every vote preserves of the memo, a step preserves, cut off or not. -/
theorem resolve_memo {cap : ℕ} {I : List ι → Prop} {m : Mem ι}
    (step : ∀ v ∈ vs, ∀ m, I m.memo → I (auth v.2 m).2.memo) (hm : I m.memo) :
    I (resolve cap auth vs m).2.memo := by
  unfold resolve
  split_ifs
  · exact hm
  · exact scan_induct (P := fun _ m' => I m'.memo) (fun v hv _ m' => step v hv m') hm

/-- A verdict to allow rests on a vote that was answered yes. -/
theorem resolve_allow_exists (cap : ℕ) {P : ι → Prop} {I : List ι → Prop}
    (hauth : ∀ v ∈ vs, ∀ m, I m.memo →
      ((auth v.2 m).1 = true → P v.2) ∧ I (auth v.2 m).2.memo)
    {m : Mem ι} (hm : I m.memo) :
    ((resolve cap auth vs m).1 = .allow → ∃ j, (.allow, j) ∈ vs ∧ P j) ∧
      I (resolve cap auth vs m).2.memo := by
  unfold resolve
  split_ifs with hc
  · exact ⟨by simp, hm⟩
  · obtain ⟨hallow, hmemo⟩ :=
      scan_allow_exists (I := fun m => I m.memo) hauth (m := m.tick) hm
    exact ⟨fun h => hallow (Tally.verdict_eq_allow.mp h).2, hmemo⟩

/-- A step whose end is within the cap did look at its votes. -/
theorem resolve_of_fits {cap : ℕ} {m : Mem ι} (h : (resolve cap auth vs m).2.counter ≤ cap) :
    resolve cap auth vs m =
      ((scan auth vs .empty m.tick).1.verdict, (scan auth vs .empty m.tick).2) := by
  unfold resolve at h ⊢
  split_ifs at h ⊢ with hc
  · exact absurd h (not_le.mpr hc)
  · rfl

end Scan

/-! ## The search -/

variable [DecidableEq ι]

/-- Roots, and the nodes the memo already lists, need no search. -/
def known (G : VoteGraph ι) (cfg : Settings) (m : Mem ι) (i : ι) : Bool :=
  G.root i || (cfg.memoised && decide (i ∈ m.memo))

/-- `hops` is what is left of the hop bound, `visited` the current path. -/
def authority (G : VoteGraph ι) (cfg : Settings) : ℕ → List ι → ι → Mem ι → Bool × Mem ι
  | 0, _, i, m => (known G cfg m i, m)
  | hops + 1, visited, i, m =>
    if known G cfg m i then (true, m)
    else if i ∈ visited then (false, m)
    else settle cfg i (resolve cfg.cap (authority G cfg hops (i :: visited)) (G.votes i) m)

/-- A whole search, for the node the votes `vs` are about. -/
def run (G : VoteGraph ι) (cfg : Settings) (hops : ℕ) (vs : List (Sign × ι)) : Decision × Mem ι :=
  resolve cfg.cap (authority G cfg hops []) vs .fresh

/-! ## What one call can do -/

section Equations

variable {G : VoteGraph ι} {cfg : Settings} {hops : ℕ} {visited : List ι} {i : ι} {m : Mem ι}

theorem known_iff : known G cfg m i = true ↔
    G.root i = true ∨ cfg.memoised = true ∧ i ∈ m.memo := by
  simp [known]

theorem authority_known (h : known G cfg m i = true) :
    authority G cfg hops visited i m = (true, m) := by
  cases hops <;> simp [authority, h]

theorem authority_zero (h : known G cfg m i = false) :
    authority G cfg 0 visited i m = (false, m) := by
  simp [authority, h]

theorem authority_visited (h : known G cfg m i = false) (hv : i ∈ visited) :
    authority G cfg hops visited i m = (false, m) := by
  cases hops <;> simp [authority, h, hv]

theorem authority_open (h : known G cfg m i = false) (hv : i ∉ visited) :
    authority G cfg (hops + 1) visited i m =
      settle cfg i (resolve cfg.cap (authority G cfg hops (i :: visited)) (G.votes i) m) := by
  simp [authority, h, hv]

/-- A search that may take a step scans its votes. -/
theorem run_of_cap {vs : List (Sign × ι)} (hcap : 1 ≤ cfg.cap) : run G cfg hops vs =
    ((scan (authority G cfg hops []) vs .empty Mem.fresh.tick).1.verdict,
      (scan (authority G cfg hops []) vs .empty Mem.fresh.tick).2) :=
  if_neg (not_lt.mpr hcap)

theorem run_of_no_cap {vs : List (Sign × ι)} (hcap : ¬ 1 ≤ cfg.cap) :
    run G cfg hops vs = (.none, Mem.fresh.tick) :=
  if_pos (not_le.mp hcap)

end Equations

variable {G : VoteGraph ι} {cfg : Settings}

variable (G cfg) in
/-- Every call either knows the answer, is cut by a bound, or opens the node. -/
theorem authority_induct {P : ℕ → List ι → ι → Mem ι → Bool × Mem ι → Prop}
    (hknown : ∀ hops visited i m, known G cfg m i = true → P hops visited i m (true, m))
    (hcut : ∀ hops visited i m, known G cfg m i = false → hops = 0 ∨ i ∈ visited →
      P hops visited i m (false, m))
    (hopen : ∀ hops visited i m, known G cfg m i = false → i ∉ visited →
      (∀ j m, P hops (i :: visited) j m (authority G cfg hops (i :: visited) j m)) →
      P (hops + 1) visited i m
        (settle cfg i (resolve cfg.cap (authority G cfg hops (i :: visited)) (G.votes i) m)))
    (hops : ℕ) (visited : List ι) (i : ι) (m : Mem ι) :
    P hops visited i m (authority G cfg hops visited i m) := by
  induction hops generalizing visited i m with
  | zero =>
    cases hk : known G cfg m i with
    | true => rw [authority_known hk]; exact hknown _ _ _ _ hk
    | false => rw [authority_zero hk]; exact hcut _ _ _ _ hk (.inl rfl)
  | succ hops ih =>
    cases hk : known G cfg m i with
    | true => rw [authority_known hk]; exact hknown _ _ _ _ hk
    | false =>
      by_cases hv : i ∈ visited
      · rw [authority_visited hk hv]
        exact hcut _ _ _ _ hk (.inr hv)
      · rw [authority_open hk hv]
        exact hopen _ _ _ _ hk hv fun j m => ih (i :: visited) j m

/-- The counter never goes down. -/
theorem authority_counter_le (hops : ℕ) (visited : List ι) (i : ι) (m : Mem ι) :
    m.counter ≤ (authority G cfg hops visited i m).2.counter := by
  induction hops, visited, i, m using authority_induct G cfg with
  | hknown => exact le_rfl
  | hcut => exact le_rfl
  | hopen hops visited i m _ _ ih =>
    rw [settle_counter]
    exact (resolve_counter_lt _ (fun v _ m => ih v.2 m) m).le

end VoteSearch

import Dacar.VoteSearch.Basic

/-!
# What a positive answer rests on

Whatever the bounds, the memo and the scan order, a node found authorised has a
finite chain of allow votes back to a root, and no root denies a node of it.
-/

namespace VoteSearch

variable {ι : Type*} (G : VoteGraph ι)

/-- No root casts a deny among these votes. -/
def Undenied (vs : List (Sign × ι)) : Prop := ∀ j, (.deny, j) ∈ vs → G.root j = false

/-- Allow votes lead from the node back to a root, and roots deny no node on the way. -/
inductive Warranted : ι → Prop
  | root {i : ι} (h : G.root i = true) : Warranted i
  | step {i j : ι} (hd : Undenied G (G.votes i)) (ha : (.allow, j) ∈ G.votes i)
      (hj : Warranted j) : Warranted i

/-- Allow votes lead from the node back to a root. -/
inductive Linked : ι → Prop
  | root {i : ι} (h : G.root i = true) : Linked i
  | step {i j : ι} (ha : (.allow, j) ∈ G.votes i) (hj : Linked j) : Linked i

variable {G}

theorem Warranted.linked {i : ι} (h : Warranted G i) : Linked G i := by
  induction h with
  | root h => exact .root h
  | step _ ha _ ih => exact .step ha ih

/-- Every remembered node is warranted. -/
def MemoWarranted (G : VoteGraph ι) (m : Mem ι) : Prop := ∀ i ∈ m.memo, Warranted G i

theorem MemoWarranted.fresh : MemoWarranted G .fresh := by
  intro i hi
  simp [Mem.fresh] at hi

section Scan

variable {auth : ι → Mem ι → Bool × Mem ι} {vs : List (Sign × ι)}

theorem resolve_warranted (cap : ℕ)
    (hroot : ∀ i m, G.root i = true → (auth i m).1 = true)
    (hauth : ∀ v ∈ vs, ∀ m, MemoWarranted G m →
      ((auth v.2 m).1 = true → Warranted G v.2) ∧ MemoWarranted G (auth v.2 m).2)
    {m : Mem ι} (hm : MemoWarranted G m) :
    ((resolve cap auth vs m).1 = .allow →
        Undenied G vs ∧ ∃ j, (.allow, j) ∈ vs ∧ Warranted G j) ∧
      MemoWarranted G (resolve cap auth vs m).2 := by
  obtain ⟨hallow, hmemo⟩ :=
    resolve_allow_exists cap (I := fun memo => ∀ i ∈ memo, Warranted G i) hauth hm
  refine ⟨fun h => ⟨fun j hj => ?_, hallow h⟩, hmemo⟩
  -- a root that denied would have been heard
  by_contra hr
  unfold resolve at h
  split_ifs at h with hc
  have hmet : (scan auth vs .empty m.tick).1.deny = true :=
    scan_has_of_mem hj (fun m => hroot j m (by simpa using hr)) .empty m.tick
  simp [(Tally.verdict_eq_allow.mp h).1] at hmet

end Scan

variable [DecidableEq ι] {cfg : Settings}

theorem authority_root {hops : ℕ} {visited : List ι} {i : ι} {m : Mem ι} (h : G.root i = true) :
    authority G cfg hops visited i m = (true, m) :=
  authority_known (known_iff.mpr (.inl h))

/-- A positive answer is warranted, and so is all that is remembered on the way. -/
theorem authority_warranted (hops : ℕ) (visited : List ι) (i : ι) (m : Mem ι)
    (hm : MemoWarranted G m) :
    ((authority G cfg hops visited i m).1 = true → Warranted G i) ∧
      MemoWarranted G (authority G cfg hops visited i m).2 := by
  induction hops, visited, i, m using authority_induct G cfg with
  | hknown hops visited i m hk =>
    refine ⟨fun _ => ?_, hm⟩
    rcases known_iff.mp hk with hr | ⟨_, hi⟩
    · exact .root hr
    · exact hm i hi
  | hcut => exact ⟨by simp, hm⟩
  | hopen hops visited i m _ _ ih =>
    obtain ⟨hallow, hmemo⟩ := resolve_warranted cfg.cap
      (fun j m hr => by rw [authority_root hr]) (fun v _ m hm => ih v.2 m hm) hm
    have hi : (resolve cfg.cap (authority G cfg hops (i :: visited)) (G.votes i) m).1 = .allow →
        Warranted G i := fun h =>
      let ⟨hd, _, ha, hj⟩ := hallow h
      .step hd ha hj
    exact ⟨fun h => hi (by simpa [settle_fst] using h), settle_memo_forall cfg i hmemo hi⟩

theorem run_warranted {hops : ℕ} {vs : List (Sign × ι)} (h : (run G cfg hops vs).1 = .allow) :
    Undenied G vs ∧ ∃ j, (.allow, j) ∈ vs ∧ Warranted G j :=
  (resolve_warranted cfg.cap (fun j m hr => by rw [authority_root hr])
    (fun v _ m hm => authority_warranted hops [] v.2 m hm) .fresh).1 h

section Roots

variable {hops : ℕ} {vs : List (Sign × ι)} {j : ι}

/-- The first step is never cut off by a cap that admits one. -/
theorem run_fst (hcap : 1 ≤ cfg.cap) : (run G cfg hops vs).1 =
    (scan (authority G cfg hops []) vs .empty Mem.fresh.tick).1.verdict := by
  rw [run_of_cap hcap]

/-- A root that allows is followed when nobody denies. -/
theorem run_allow_of_root (hcap : 1 ≤ cfg.cap) (hj : (.allow, j) ∈ vs) (hr : G.root j = true)
    (hdeny : ∀ i, (.deny, i) ∉ vs) : (run G cfg hops vs).1 = .allow := by
  rw [run_fst hcap]
  refine Tally.verdict_eq_allow.mpr ⟨?_, ?_⟩
  · exact scan_has_eq_false (s := .deny) (I := fun _ => True) (fun _ _ _ _ => trivial)
      (fun i hi => absurd hi (hdeny i)) rfl trivial
  · exact scan_has_of_mem hj (fun m => by rw [authority_root hr]) .empty _

/-- A root that denies is followed. -/
theorem run_deny_of_root (hcap : 1 ≤ cfg.cap) (hj : (.deny, j) ∈ vs) (hr : G.root j = true) :
    (run G cfg hops vs).1 = .deny := by
  rw [run_fst hcap]
  exact Tally.verdict_eq_deny.mpr
    (scan_has_of_mem hj (fun m => by rw [authority_root hr]) .empty _)

end Roots

/-- A node no chain of allow votes links to a root is never found authorised. -/
theorem authority_of_not_linked {hops : ℕ} {visited : List ι} {i : ι} {m : Mem ι}
    (hm : MemoWarranted G m) (hi : ¬ Linked G i) :
    (authority G cfg hops visited i m).1 = false := by
  by_contra h
  exact hi ((authority_warranted hops visited i m hm).1 (by simpa using h)).linked

end VoteSearch

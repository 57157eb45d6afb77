import Dacar.VoteSearch.Recall

/-!
# Comparing two graphs

Two ways in which a graph may be changed without changing a judgement: reordering
votes, and putting in votes whose casters are linked to no root.
-/

/-- `l'` is `l` with elements satisfying `extra` put in at any positions. -/
inductive Padded {α : Type*} (extra : α → Prop) : List α → List α → Prop
  | nil : Padded extra [] []
  | keep {l l' : List α} (a : α) (h : Padded extra l l') : Padded extra (a :: l) (a :: l')
  | put {l l' : List α} {a : α} (ha : extra a) (h : Padded extra l l') : Padded extra l (a :: l')

namespace Padded

variable {α β : Type*} {extra : α → Prop} {l l' : List α}

theorem refl (l : List α) : Padded extra l l := by
  induction l with
  | nil => exact .nil
  | cons a l ih => exact .keep a ih

theorem mem (h : Padded extra l l') {a : α} (ha : a ∈ l) : a ∈ l' := by
  induction h with
  | nil => exact ha
  | keep b _ ih =>
    rcases List.mem_cons.mp ha with rfl | ha
    · exact List.mem_cons_self
    · exact List.mem_cons_of_mem _ (ih ha)
  | put _ _ ih => exact List.mem_cons_of_mem _ (ih ha)

theorem mem_or_extra (h : Padded extra l l') {a : α} (ha : a ∈ l') : a ∈ l ∨ extra a := by
  induction h with
  | nil => exact .inl ha
  | keep b _ ih =>
    rcases List.mem_cons.mp ha with rfl | ha
    · exact .inl List.mem_cons_self
    · exact (ih ha).imp (List.mem_cons_of_mem _) id
  | put hb _ ih =>
    rcases List.mem_cons.mp ha with rfl | ha
    · exact .inr hb
    · exact ih ha

theorem filter (h : Padded extra l l') (p : α → Bool) :
    Padded extra (l.filter p) (l'.filter p) := by
  induction h with
  | nil => exact .nil
  | keep a _ ih =>
    simp only [List.filter_cons]
    split_ifs
    · exact .keep a ih
    · exact ih
  | put ha _ ih =>
    simp only [List.filter_cons]
    split_ifs
    · exact .put ha ih
    · exact ih

theorem map (h : Padded extra l l') {extra' : β → Prop} (f : α → β)
    (hf : ∀ a, extra a → extra' (f a)) : Padded extra' (l.map f) (l'.map f) := by
  induction h with
  | nil => exact .nil
  | keep a _ ih => exact .keep (f a) ih
  | put ha _ ih => exact .put (hf _ ha) ih

theorem append_left (l₀ : List α) (h : Padded extra l l') :
    Padded extra (l₀ ++ l) (l₀ ++ l') := by
  induction l₀ with
  | nil => exact h
  | cons a l₀ ih => exact .keep a ih

theorem put_append {l₀ : List α} (hl : ∀ a ∈ l₀, extra a) (h : Padded extra l l') :
    Padded extra l (l₀ ++ l') := by
  induction l₀ with
  | nil => exact h
  | cons a l₀ ih =>
    exact .put (hl a List.mem_cons_self) (ih fun b hb => hl b (List.mem_cons_of_mem a hb))

theorem flatMap (h : Padded extra l l') {extra' : β → Prop} (f : α → List β)
    (hf : ∀ a, extra a → ∀ b ∈ f a, extra' b) : Padded extra' (l.flatMap f) (l'.flatMap f) := by
  induction h with
  | nil => exact .nil
  | keep a _ ih => exact ih.append_left (f a)
  | put ha _ ih => exact ih.put_append (hf _ ha)

end Padded

namespace VoteSearch

variable {ι : Type*} {G G' : VoteGraph ι} {H : ℕ} {vs vs' : List (Sign × ι)}

/-! ## Votes with the same weight -/

/-- `vs'` has the votes `vs`, in any order, and maybe more by casters linked to no root. -/
structure SameWeight (G' : VoteGraph ι) (vs vs' : List (Sign × ι)) : Prop where
  sub : ∀ v ∈ vs, v ∈ vs'
  extra : ∀ v ∈ vs', v ∈ vs ∨ ¬ Linked G' v.2

theorem SameWeight.passes_eq (h : SameWeight G' vs vs') {p : ι → Bool}
    (hp : ∀ i, p i = true → Linked G' i) : passes p vs = passes p vs' := by
  -- the votes that only one list has do not count
  have hiff : ∀ s j, p j = true → ((s, j) ∈ vs ↔ (s, j) ∈ vs') := fun s j hj =>
    ⟨h.sub (s, j), fun hv => (h.extra _ hv).resolve_right fun hn => hn (hp j hj)⟩
  rw [Bool.eq_iff_iff, passes_iff, passes_iff]
  constructor
  · rintro ⟨hd, j, hj, hpj⟩
    refine ⟨fun i hi => ?_, j, h.sub _ hj, hpj⟩
    by_contra hpi
    exact hpi (hd i ((hiff _ i (by simpa using hpi)).mpr hi))
  · rintro ⟨hd, j, hj, hpj⟩
    exact ⟨fun i hi => hd i (h.sub _ hi), j, (hiff _ j hpj).mpr hj, hpj⟩

/-- Two graphs with the same roots in which the votes on every node weigh the same. -/
structure SameGraph (G G' : VoteGraph ι) : Prop where
  root : ∀ i, G.root i = G'.root i
  votes : ∀ i, SameWeight G' (G.votes i) (G'.votes i)

theorem SameGraph.holds_eq [DecidableEq ι] (h : SameGraph G G') (hops : ℕ) (visited : List ι)
    (i : ι) : holds G hops visited i = holds G' hops visited i := by
  induction hops generalizing visited i with
  | zero => exact h.root i
  | succ hops ih =>
    have hfun : holds G hops (i :: visited) = holds G' hops (i :: visited) :=
      funext fun j => ih (i :: visited) j
    simp only [holds, h.root i, hfun]
    rw [(h.votes i).passes_eq (p := holds G' hops (i :: visited)) fun j hj => holds_linked hj]

variable [DecidableEq ι]

/-- Votes of the same weight are judged the same on graphs of the same weight. -/
theorem SameGraph.passes_eq (h : SameGraph G G') (hw : SameWeight G' vs vs') :
    passes (holds G H []) vs = passes (holds G' H []) vs' := by
  rw [funext fun i => h.holds_eq H [] i]
  exact hw.passes_eq fun i hi => holds_linked hi

/-! ## Votes put in by outsiders -/

/-- Nodes the search meets below `J` while it stays among unlinked ones. -/
inductive Touched (G : VoteGraph ι) (J : ι → Prop) : ι → Prop
  | start {i : ι} (h : J i) : Touched G J i
  | step {i j : ι} {s : Sign} (h : Touched G J i) (hl : ¬ Linked G i) (hj : (s, j) ∈ G.votes i) :
      Touched G J j

/-- Below `J` the search meets only unlinked nodes and, as deniers, roots: no node
whose authority is itself the result of a search. -/
def Apart (G : VoteGraph ι) (J : ι → Prop) : Prop :=
  ∀ i, Touched G J i → G.root i = true ∨ ¬ Linked G i

variable {J : ι → Prop} {cfg : Settings}

/-- Looking at an outsider finds nothing and leaves no trace but the steps it took. -/
theorem authority_outsider (hapart : Apart G J) (hops : ℕ) (visited : List ι) (i : ι) (m : Mem ι)
    (hm : MemoWarranted G m) (ht : Touched G J i) (hi : ¬ Linked G i) :
    (authority G cfg hops visited i m).1 = false ∧
      (authority G cfg hops visited i m).2.memo = m.memo := by
  refine ⟨authority_of_not_linked hm hi, ?_⟩
  induction hops, visited, i, m using authority_induct G cfg with
  | hknown => rfl
  | hcut => rfl
  | hopen hops visited i m _ _ ih =>
    -- the scan keeps the memo, hence also that it is warranted
    have hres : (resolve cfg.cap (authority G cfg hops (i :: visited)) (G.votes i) m).2.memo =
        m.memo := by
      refine resolve_memo (I := fun memo => memo = m.memo) ?_ rfl
      rintro ⟨s, j⟩ hj m' hm'
      have hok : MemoWarranted G m' := fun x hx => hm x (hm' ▸ hx)
      rcases hapart j (.step ht hi hj) with hr | hl
      · rw [authority_root hr]
        exact hm'
      · exact (ih j m' hok (.step ht hi hj) hl).trans hm'
    rcases settle_memo cfg i
      (resolve cfg.cap (authority G cfg hops (i :: visited)) (G.votes i) m) with h | ⟨ha, _, _⟩
    · rw [h, hres]
    · -- remembering an outsider would take a vote that links it
      obtain ⟨_, j, hj, hw⟩ := (resolve_warranted cfg.cap
        (fun j m hr => by rw [authority_root hr])
        (fun v _ m hm => authority_warranted hops (i :: visited) v.2 m hm) hm).1 ha
      exact absurd (.step hj hw.linked) hi

/-- The right search has the left one's memo and has taken at least as many steps. -/
structure Ahead (m m' : Mem ι) : Prop where
  memo : m.memo = m'.memo
  counter : m.counter ≤ m'.counter

section Scan

variable {auth auth' : ι → Mem ι → Bool × Mem ι} {cap : ℕ}

omit [DecidableEq ι] in
theorem scan_padded {I : Mem ι → Prop}
    (hmono : ∀ i m, m.counter ≤ (auth' i m).2.counter)
    (hinv : ∀ i m, I m → I (auth' i m).2)
    (hsame : ∀ i m m', Ahead m m' → I m' → (auth' i m').2.counter ≤ cap →
      (auth i m).1 = (auth' i m').1 ∧ Ahead (auth i m).2 (auth' i m').2)
    (hskip : ∀ i m', J i → I m' → (auth' i m').1 = false ∧ (auth' i m').2.memo = m'.memo)
    (hpad : Padded (fun v => J v.2) vs vs') {t : Tally} {m m' : Mem ι} (ha : Ahead m m')
    (hi : I m') (hfit : (scan auth' vs' t m').2.counter ≤ cap) :
    (scan auth vs t m).1 = (scan auth' vs' t m').1 ∧
      Ahead (scan auth vs t m).2 (scan auth' vs' t m').2 := by
  induction hpad generalizing t m m' with
  | nil => exact ⟨rfl, ha⟩
  | keep v _ ih =>
    have hle : (auth' v.2 m').2.counter ≤ cap :=
      (scan_counter_le (fun w _ m => hmono w.2 m) _ _).trans hfit
    obtain ⟨hb, ha'⟩ := hsame v.2 m m' ha hi hle
    rw [scan] at hfit ⊢
    rw [scan, hb]
    exact ih ha' (hinv _ _ hi) hfit
  | @put _ _ v hv _ ih =>
    obtain ⟨hb, hmemo⟩ := hskip v.2 m' hv hi
    rw [scan, hb, Tally.add_false] at hfit ⊢
    exact ih ⟨ha.memo.trans hmemo.symm, ha.counter.trans (hmono v.2 m')⟩ (hinv _ _ hi) hfit

omit [DecidableEq ι] in
theorem resolve_padded {I : Mem ι → Prop} (htick : ∀ m, I m → I m.tick)
    (hmono : ∀ i m, m.counter ≤ (auth' i m).2.counter)
    (hinv : ∀ i m, I m → I (auth' i m).2)
    (hsame : ∀ i m m', Ahead m m' → I m' → (auth' i m').2.counter ≤ cap →
      (auth i m).1 = (auth' i m').1 ∧ Ahead (auth i m).2 (auth' i m').2)
    (hskip : ∀ i m', J i → I m' → (auth' i m').1 = false ∧ (auth' i m').2.memo = m'.memo)
    (hpad : Padded (fun v => J v.2) vs vs') {m m' : Mem ι} (ha : Ahead m m')
    (hi : I m') (hfit : (resolve cap auth' vs' m').2.counter ≤ cap) :
    (resolve cap auth vs m).1 = (resolve cap auth' vs' m').1 ∧
      Ahead (resolve cap auth vs m).2 (resolve cap auth' vs' m').2 := by
  have hc' := (resolve_counter_lt cap (fun w _ m => hmono w.2 m) m').trans_le hfit
  have hc : ¬ cap < m.tick.counter := by
    have := ha.counter
    simp only [Mem.tick_counter]
    omega
  have he := resolve_of_fits hfit
  rw [he] at hfit ⊢
  rw [resolve, if_neg hc]
  obtain ⟨ht, ha'⟩ := scan_padded hmono hinv hsame hskip hpad (t := .empty)
    (show Ahead m.tick m'.tick from ⟨ha.memo, Nat.succ_le_succ ha.counter⟩) (htick _ hi) hfit
  exact ⟨congrArg Tally.verdict ht, ha'⟩

end Scan

/-- `G'` is `G` with votes by members of `J` put in at any positions. -/
structure PaddedGraph (J : ι → Prop) (G G' : VoteGraph ι) : Prop where
  root : ∀ i, G.root i = G'.root i
  votes : ∀ i, Padded (fun v => J v.2) (G.votes i) (G'.votes i)

variable (hpad : PaddedGraph J G G') (hJ : ∀ i, J i → ¬ Linked G' i) (hapart : Apart G' J)
include hpad hJ hapart

theorem authority_padded (hops : ℕ) (visited : List ι) (i : ι) (m m' : Mem ι) (ha : Ahead m m')
    (hm : MemoWarranted G' m')
    (hfit : (authority G' cfg hops visited i m').2.counter ≤ cfg.cap) :
    (authority G cfg hops visited i m).1 = (authority G' cfg hops visited i m').1 ∧
      Ahead (authority G cfg hops visited i m).2 (authority G' cfg hops visited i m').2 := by
  induction hops generalizing visited i m m' with
  | zero => exact ⟨by simp only [authority, known, hpad.root i, ha.memo], ha⟩
  | succ hops ih =>
    have hk : known G cfg m i = known G' cfg m' i := by simp only [known, hpad.root i, ha.memo]
    cases hk' : known G' cfg m' i with
    | true =>
      rw [authority_known hk', authority_known (hk.trans hk')]
      exact ⟨rfl, ha⟩
    | false =>
      by_cases hv : i ∈ visited
      · rw [authority_visited hk' hv, authority_visited (hk.trans hk') hv]
        exact ⟨rfl, ha⟩
      · -- both searches open the node, the right one with the outsiders' votes put in
        rw [authority_open hk' hv] at hfit ⊢
        rw [authority_open (hk.trans hk') hv]
        rw [settle_counter] at hfit
        obtain ⟨hver, ha'⟩ := resolve_padded (I := MemoWarranted G') (fun m hm => hm)
          (fun j m => authority_counter_le hops (i :: visited) j m)
          (fun j m hm => (authority_warranted hops (i :: visited) j m hm).2)
          (fun j m m' ha hm hf => ih (i :: visited) j m m' ha hm hf)
          (fun j m hj hm => authority_outsider hapart hops (i :: visited) j m hm (.start hj)
            (hJ j hj)) (hpad.votes i) ha hm hfit
        unfold settle
        rw [hver]
        split_ifs
        · exact ⟨rfl, ⟨by simp only [ha'.memo], ha'.counter⟩⟩
        · exact ⟨rfl, ha'⟩
        · exact ⟨rfl, ha'⟩

/-- Votes by outsiders change neither the verdict nor, if the padded search stays
within its cap, whether the original one does. -/
theorem run_padded (hvs : Padded (fun v => J v.2) vs vs')
    (hfit : (run G' cfg H vs').2.counter ≤ cfg.cap) :
    (run G cfg H vs).1 = (run G' cfg H vs').1 ∧
      (run G cfg H vs).2.counter ≤ (run G' cfg H vs').2.counter := by
  obtain ⟨hver, ha⟩ := resolve_padded (I := MemoWarranted G')
    (fun m hm => hm) (fun j m => authority_counter_le H [] j m)
    (fun j m hm => (authority_warranted H [] j m hm).2)
    (fun j m m' ha hm hf => authority_padded hpad hJ hapart H [] j m m' ha hm hf)
    (fun j m hj hm => authority_outsider hapart H [] j m hm (.start hj) (hJ j hj))
    hvs ⟨rfl, le_rfl⟩ .fresh hfit
  exact ⟨hver, ha.counter⟩

end VoteSearch

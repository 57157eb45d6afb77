import Mathlib

/-!
# Greedy matching of items to members

Each item in turn takes the first member that accepts it and whose tag is not yet
taken.  Acceptance depends on the member only through its key.  If the key of a
member fixes its tag, the members taken have distinct keys; if every item is
accepted under at most one key, no choice can be wrong.
-/

namespace GreedyMatch

variable {μ σ τ η : Type*} [DecidableEq τ]

section Loop

variable (tag : μ → τ) (ok : μ → σ → Bool) (members : List μ)

/-- The first member with a free tag that accepts the item. -/
def pick (used : List τ) (s : σ) : Option μ :=
  members.find? fun m => !decide (tag m ∈ used) && ok m s

/-- The tags taken when every item has found a member. -/
def matchAll : List τ → List σ → Option (List τ)
  | used, [] => some used
  | used, s :: ss =>
    match pick tag ok members used s with
    | none => none
    | some m => matchAll (tag m :: used) ss

variable {tag ok members}

theorem pick_some {used : List τ} {s : σ} {m : μ} (h : pick tag ok members used s = some m) :
    m ∈ members ∧ tag m ∉ used ∧ ok m s = true := by
  have hp := List.find?_some h
  simp only [Bool.and_eq_true, Bool.not_eq_true', decide_eq_false_iff_not] at hp
  exact ⟨List.mem_of_find?_eq_some h, hp.1, hp.2⟩

theorem pick_none {used : List τ} {s : σ} (h : pick tag ok members used s = none) {m : μ}
    (hm : m ∈ members) (hs : ok m s = true) : tag m ∈ used := by
  have hp := List.find?_eq_none.mp h m hm
  simpa [hs] using hp

/-- A complete match assigns the items to members with distinct, formerly free tags. -/
theorem matchAll_sound {used used' : List τ} {ss : List σ}
    (h : matchAll tag ok members used ss = some used') :
    ∃ ms : List μ, (∀ m ∈ ms, m ∈ members) ∧ List.Forall₂ (fun m s => ok m s = true) ms ss ∧
      (ms.map tag).Nodup ∧ (∀ m ∈ ms, tag m ∉ used) ∧
      used'.length = used.length + ss.length := by
  induction ss generalizing used with
  | nil =>
    obtain rfl := Option.some.inj h
    exact ⟨[], by simp, .nil, by simp, by simp, rfl⟩
  | cons s ss ih =>
    rw [matchAll] at h
    cases hp : pick tag ok members used s with
    | none => rw [hp] at h; cases h
    | some m =>
      rw [hp] at h
      obtain ⟨hm, hfree, hok⟩ := pick_some hp
      obtain ⟨ms, hmem, hall, hnodup, hfresh, hlen⟩ := ih h
      refine ⟨m :: ms, ?_, .cons hok hall, ?_, ?_, ?_⟩
      · exact List.forall_mem_cons.mpr ⟨hm, hmem⟩
      · rw [List.map_cons, List.nodup_cons]
        refine ⟨fun htag => ?_, hnodup⟩
        obtain ⟨m', hm', he⟩ := List.mem_map.mp htag
        exact hfresh m' hm' (he ▸ List.mem_cons_self)
      · exact List.forall_mem_cons.mpr
          ⟨hfree, fun m' hm' hu => hfresh m' hm' (List.mem_cons_of_mem _ hu)⟩
      · simp only [List.length_cons] at hlen ⊢
        omega

end Loop

/-! ## Keys -/

section Keys

variable [DecidableEq η] (half : μ → η) (tag : μ → τ) (valid : η → σ → Bool) (members : List μ)

/-- The tags of the members with key `k` that are not taken. -/
def free (used : List τ) (k : η) : Finset τ :=
  ((members.filter fun m => half m = k).map tag).toFinset \ used.toFinset

/-- Every item is accepted under at most one key. -/
def UniquelyValid (ss : List σ) : Prop :=
  ∀ s ∈ ss, ∀ k k', valid k s = true → valid k' s = true → k = k'

/-- Every item has a member, and no key more items than free tags. -/
def Matchable (used : List τ) (ss : List σ) : Prop :=
  (∀ s ∈ ss, ∃ m ∈ members, valid (half m) s = true) ∧
    ∀ k, ss.countP (valid k) ≤ (free half tag members used k).card

variable {half tag valid members}

theorem mem_free {used : List τ} {k : η} {t : τ} :
    t ∈ free half tag members used k ↔ (∃ m ∈ members, half m = k ∧ tag m = t) ∧ t ∉ used := by
  simp only [free, Finset.mem_sdiff, List.mem_toFinset, List.mem_map, List.mem_filter,
    decide_eq_true_eq, and_assoc]

theorem free_cons (used : List τ) (k : η) (t : τ) :
    free half tag members (t :: used) k = (free half tag members used k).erase t := by
  rw [free, free, List.toFinset_cons, Finset.sdiff_insert]

/-- Taking a tag costs its own key one free tag and the other keys none. -/
theorem card_free_cons (htag : ∀ m ∈ members, ∀ m' ∈ members, tag m = tag m' → half m = half m')
    {used : List τ} {m : μ} (hm : m ∈ members) (hfree : tag m ∉ used) (k : η) :
    (free half tag members used k).card =
      (free half tag members (tag m :: used) k).card + if half m = k then 1 else 0 := by
  rw [free_cons]
  split_ifs with hk
  · have hmem : tag m ∈ free half tag members used k := mem_free.mpr ⟨⟨m, hm, hk, rfl⟩, hfree⟩
    have hpos := Finset.card_pos.mpr ⟨_, hmem⟩
    rw [Finset.card_erase_of_mem hmem]
    omega
  · have hnot : tag m ∉ free half tag members used k := by
      intro hmem
      obtain ⟨⟨m', hm', hk', ht⟩, -⟩ := mem_free.mp hmem
      exact hk ((htag m' hm' m hm ht) ▸ hk')
    rw [Finset.erase_eq_of_notMem hnot]
    rfl

/-- Greedy choice loses nothing: it succeeds exactly on the matchable lists. -/
theorem matchAll_isSome_iff
    (htag : ∀ m ∈ members, ∀ m' ∈ members, tag m = tag m' → half m = half m')
    {ss : List σ} (huniq : UniquelyValid valid ss) (used : List τ) :
    (matchAll tag (fun m s => valid (half m) s) members used ss).isSome = true ↔
      Matchable half tag valid members used ss := by
  induction ss generalizing used with
  | nil => simp [matchAll, Matchable]
  | cons s ss ih =>
    have huniq' : UniquelyValid valid ss := fun x hx => huniq x (List.mem_cons_of_mem s hx)
    rw [matchAll]
    cases hp : pick tag (fun m s => valid (half m) s) members used s with
    | none =>
      refine ⟨fun h => absurd h (by simp), fun ⟨hall, hcount⟩ => ?_⟩
      -- the key of `s` would have a free tag, but every tag of it is taken
      obtain ⟨m, hm, hok⟩ := hall s List.mem_cons_self
      have hpos : 0 < (free half tag members used (half m)).card := by
        have h := hcount (half m)
        rw [List.countP_cons_of_pos hok] at h
        omega
      obtain ⟨t, ht⟩ := Finset.card_pos.mp hpos
      obtain ⟨⟨m', hm', hk, rfl⟩, hfree⟩ := mem_free.mp ht
      exact absurd (pick_none hp hm' (by rw [hk]; exact hok)) hfree
    | some m =>
      obtain ⟨hm, hfree, hok⟩ := pick_some hp
      have hkey : ∀ k, valid k s = true ↔ half m = k := fun k =>
        ⟨fun hk => huniq s List.mem_cons_self _ _ hok hk, fun hk => hk ▸ hok⟩
      have hcount : ∀ k, (s :: ss).countP (valid k) =
          ss.countP (valid k) + if half m = k then 1 else 0 := by
        intro k
        rw [List.countP_cons]
        simp only [hkey]
      change (matchAll tag (fun m s => valid (half m) s) members (tag m :: used) ss).isSome = true ↔
        _
      rw [ih huniq']
      constructor
      · rintro ⟨hall, hle⟩
        refine ⟨List.forall_mem_cons.mpr ⟨⟨m, hm, hok⟩, hall⟩, fun k => ?_⟩
        rw [hcount, card_free_cons htag hm hfree]
        exact Nat.add_le_add_right (hle k) _
      · rintro ⟨hall, hle⟩
        refine ⟨fun x hx => hall x (List.mem_cons_of_mem s hx), fun k => ?_⟩
        have h := hle k
        rw [hcount, card_free_cons htag hm hfree] at h
        exact Nat.le_of_add_le_add_right h

/-- The items are accepted under pairwise distinct keys of members. -/
def DistinctKeys (half : μ → η) (valid : η → σ → Bool) (members : List μ) (ss : List σ) : Prop :=
  ∃ ks : List η, ks.Nodup ∧ (∀ k ∈ ks, ∃ m ∈ members, half m = k) ∧
    List.Forall₂ (fun k s => valid k s = true) ks ss

omit [DecidableEq η] in
theorem forall₂_map_half {ms : List μ} {ss : List σ}
    (h : List.Forall₂ (fun m s => valid (half m) s = true) ms ss) :
    List.Forall₂ (fun k s => valid k s = true) (ms.map half) ss :=
  List.forall₂_map_left_iff.mpr h

omit [DecidableEq η] in
/-- When the key fixes the tag, distinct tags are distinct keys. -/
theorem distinctKeys_of_matchAll
    (hhalf : ∀ m ∈ members, ∀ m' ∈ members, half m = half m' → tag m = tag m')
    {ss : List σ} {used : List τ}
    (h : matchAll tag (fun m s => valid (half m) s) members [] ss = some used) :
    DistinctKeys half valid members ss := by
  obtain ⟨ms, hmem, hall, hnodup, -, -⟩ := matchAll_sound h
  refine ⟨ms.map half, ?_, ?_, forall₂_map_half hall⟩
  · refine List.Nodup.map_on (fun a ha b hb hab => ?_) hnodup.of_map
    exact List.inj_on_of_nodup_map hnodup ha hb (hhalf a (hmem a ha) b (hmem b hb) hab)
  · intro k hk
    obtain ⟨m, hm, rfl⟩ := List.mem_map.mp hk
    exact ⟨m, hmem m hm, rfl⟩

/-- Counting the items a key accepts is counting the key. -/
theorem countP_eq_count {ks : List η} {ss : List σ} (huniq : UniquelyValid valid ss)
    (h : List.Forall₂ (fun k s => valid k s = true) ks ss) (k : η) :
    ss.countP (valid k) = ks.count k := by
  induction h with
  | nil => rfl
  | @cons k' s ks ss hok _ ih =>
    have ih := ih fun x hx => huniq x (List.mem_cons_of_mem s hx)
    have hkey : valid k s = true ↔ k' = k :=
      ⟨fun hk => huniq s List.mem_cons_self _ _ hok hk, fun hk => hk ▸ hok⟩
    rw [List.countP_cons, List.count_cons, ih]
    simp only [hkey, beq_iff_eq]

/-- Distinct keys are a match in which no key accepts two items. -/
theorem distinctKeys_iff {ss : List σ} (huniq : UniquelyValid valid ss)
    (hall : ∀ s ∈ ss, ∃ m ∈ members, valid (half m) s = true) :
    DistinctKeys half valid members ss ↔ ∀ k, ss.countP (valid k) ≤ 1 := by
  constructor
  · rintro ⟨ks, hnodup, -, hks⟩ k
    rw [countP_eq_count huniq hks]
    exact List.nodup_iff_count_le_one.mp hnodup k
  · intro hone
    have hms : ∃ ms : List μ, (∀ m ∈ ms, m ∈ members) ∧
        List.Forall₂ (fun m s => valid (half m) s = true) ms ss := by
      clear hone huniq
      induction ss with
      | nil => exact ⟨[], by simp, .nil⟩
      | cons s ss ih =>
        obtain ⟨ms, hmem, hok⟩ := ih fun x hx => hall x (List.mem_cons_of_mem s hx)
        obtain ⟨m, hm, hs⟩ := hall s List.mem_cons_self
        exact ⟨m :: ms, List.forall_mem_cons.mpr ⟨hm, hmem⟩, .cons hs hok⟩
    obtain ⟨ms, hmem, hok⟩ := hms
    have hks := forall₂_map_half hok
    refine ⟨ms.map half, List.nodup_iff_count_le_one.mpr fun k => ?_, fun k hk => ?_, hks⟩
    · rw [← countP_eq_count huniq hks]
      exact hone k
    · obtain ⟨m, hm, rfl⟩ := List.mem_map.mp hk
      exact ⟨m, hmem m hm, rfl⟩

omit [DecidableEq η] in
theorem DistinctKeys.exists_member {ss : List σ} (h : DistinctKeys half valid members ss) :
    ∀ s ∈ ss, ∃ m ∈ members, valid (half m) s = true := by
  obtain ⟨ks, -, hmem, hks⟩ := h
  induction hks with
  | nil => simp
  | @cons k s ks ss hok _ ih =>
    refine List.forall_mem_cons.mpr ⟨?_, ih fun k hk => hmem k (List.mem_cons_of_mem _ hk)⟩
    obtain ⟨m, hm, rfl⟩ := hmem k List.mem_cons_self
    exact ⟨m, hm, hok⟩

/-- Distinct keys can be matched. -/
theorem matchable_of_distinctKeys {ss : List σ} (huniq : UniquelyValid valid ss)
    (h : DistinctKeys half valid members ss) : Matchable half tag valid members [] ss := by
  refine ⟨h.exists_member, fun k => ?_⟩
  have hone := (distinctKeys_iff huniq h.exists_member).mp h k
  rcases Nat.eq_zero_or_pos (ss.countP (valid k)) with hz | hpos
  · omega
  · -- the one item of this key has a member, whose tag is free
    obtain ⟨s, hs, hok⟩ := List.countP_pos_iff.mp hpos
    obtain ⟨m, hm, hm'⟩ := h.exists_member s hs
    have hk : half m = k := huniq s hs _ _ hm' hok
    have hmem : tag m ∈ free half tag members [] k := mem_free.mpr ⟨⟨m, hm, hk, rfl⟩, by simp⟩
    have := Finset.card_pos.mpr ⟨_, hmem⟩
    omega

end Keys

/-! ## Matching exactly `n` items -/

section Threshold

/-- Exactly `n` items, at least `n` members, and a complete match. -/
def threshold (tag : μ → τ) (ok : μ → σ → Bool) (members : List μ) (ss : List σ) (n : ℤ) : Bool :=
  if n < 1 ∨ (ss.length : ℤ) ≠ n then false
  else if (members.length : ℤ) < n then false
  else
    match matchAll tag ok members [] ss with
    | none => false
    -- a complete match takes `n` tags, so this holds; the source checks it all the same
    | some used => decide ((used.length : ℤ) = n)

variable [DecidableEq η] {half : μ → η} {tag : μ → τ} {valid : η → σ → Bool} {members : List μ}
  {ss : List σ} {n : ℤ}

omit [DecidableEq η] in
theorem threshold_eq_true {ok : μ → σ → Bool} : threshold tag ok members ss n = true ↔
    1 ≤ n ∧ (ss.length : ℤ) = n ∧ (matchAll tag ok members [] ss).isSome = true := by
  unfold threshold
  cases hm : matchAll tag ok members [] ss with
  | none => simp
  | some used =>
    obtain ⟨ms, hmem, hok, hnodup, -, hlen⟩ := matchAll_sound hm
    have hms : ms.length ≤ members.length :=
      (List.subperm_of_subset hnodup.of_map hmem).length_le
    have hall := hok.length_eq
    simp only [List.length_nil, Nat.zero_add] at hlen
    simp only [Option.isSome_some, and_true]
    split_ifs with h₁ h₂
    · simp only [false_iff, not_and]
      omega
    · simp only [false_iff, not_and]
      omega
    · simp only [decide_eq_true_eq]
      omega

/-- What a threshold check is for: `n` items that `n` distinct keys of members accept. -/
structure Authentic (half : μ → η) (valid : η → σ → Bool) (members : List μ) (ss : List σ) (n : ℤ)
    (verdict : Bool) : Prop where
  sound : verdict = true → (ss.length : ℤ) = n ∧ DistinctKeys half valid members ss
  complete : UniquelyValid valid ss → 1 ≤ n → (ss.length : ℤ) = n →
    DistinctKeys half valid members ss → verdict = true

/-- Some key accepts several items and has that many tags, and the rest can be matched too. -/
def Doubled (half : μ → η) (tag : μ → τ) (valid : η → σ → Bool) (members : List μ) (ss : List σ)
    (n : ℤ) : Prop :=
  1 ≤ n ∧ (ss.length : ℤ) = n ∧ Matchable half tag valid members [] ss ∧
    ∃ k, 2 ≤ ss.countP (valid k)

theorem threshold_complete
    (htag : ∀ m ∈ members, ∀ m' ∈ members, tag m = tag m' → half m = half m')
    (huniq : UniquelyValid valid ss) (hn : 1 ≤ n) (hlen : (ss.length : ℤ) = n)
    (h : DistinctKeys half valid members ss) :
    threshold tag (fun m s => valid (half m) s) members ss n = true :=
  threshold_eq_true.mpr
    ⟨hn, hlen, (matchAll_isSome_iff htag huniq []).mpr (matchable_of_distinctKeys huniq h)⟩

/-- One tag for each key: the check is authentic. -/
theorem authentic_of_key_fixes_tag
    (htag : ∀ m ∈ members, ∀ m' ∈ members, tag m = tag m' → half m = half m')
    (hhalf : ∀ m ∈ members, ∀ m' ∈ members, half m = half m' → tag m = tag m') :
    Authentic half valid members ss n
      (threshold tag (fun m s => valid (half m) s) members ss n) := by
  refine ⟨fun h => ?_, threshold_complete htag⟩
  obtain ⟨-, hlen, hmatch⟩ := threshold_eq_true.mp h
  obtain ⟨used, hused⟩ := Option.isSome_iff_exists.mp hmatch
  exact ⟨hlen, distinctKeys_of_matchAll hhalf hused⟩

/-- In general it is authentic unless some key is doubled. -/
theorem authentic_iff_not_doubled
    (htag : ∀ m ∈ members, ∀ m' ∈ members, tag m = tag m' → half m = half m')
    (huniq : UniquelyValid valid ss) :
    Authentic half valid members ss n
        (threshold tag (fun m s => valid (half m) s) members ss n) ↔
      ¬ Doubled half tag valid members ss n := by
  have hiff := matchAll_isSome_iff htag huniq []
  constructor
  · rintro h ⟨hn, hlen, hmatch, k, hk⟩
    obtain ⟨-, hdist⟩ := h.sound (threshold_eq_true.mpr ⟨hn, hlen, hiff.mpr hmatch⟩)
    have hone := (distinctKeys_iff huniq hmatch.1).mp hdist k
    omega
  · intro hnot
    refine ⟨fun h => ?_, threshold_complete htag⟩
    obtain ⟨hn, hlen, hsome⟩ := threshold_eq_true.mp h
    have hmatch := hiff.mp hsome
    refine ⟨hlen, (distinctKeys_iff huniq hmatch.1).mpr fun k => ?_⟩
    by_contra hk
    exact hnot ⟨hn, hlen, hmatch, k, by omega⟩

end Threshold

end GreedyMatch

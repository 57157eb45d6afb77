import Mathlib

/-!
# Insertion-ordered maps

A finite map that lists its keys in the order of their first insertion: writing to
a key that is present keeps its place, writing to a new key goes to the end.
-/

structure OrderedMap (κ ν : Type*) where
  entries : List (κ × ν)
  nodup : (entries.map Prod.fst).Nodup

namespace OrderedMap

variable {κ ν : Type*}

@[ext] theorem ext {m n : OrderedMap κ ν} (h : m.entries = n.entries) : m = n := by
  cases m
  cases n
  simpa using h

def empty : OrderedMap κ ν := ⟨[], List.nodup_nil⟩

def values (m : OrderedMap κ ν) : List ν := m.entries.map Prod.snd

/-- Keep the entries that satisfy `p`. -/
def filter (m : OrderedMap κ ν) (p : κ × ν → Bool) : OrderedMap κ ν where
  entries := m.entries.filter p
  nodup := m.nodup.sublist (List.filter_sublist.map Prod.fst)

variable [DecidableEq κ]

def get? (m : OrderedMap κ ν) (k : κ) : Option ν := m.entries.lookup k

/-- The list behind `upsert`. -/
def upsertEntries (k : κ) (f : Option ν → ν) : List (κ × ν) → List (κ × ν)
  | [] => [(k, f none)]
  | (k', v) :: es => if k' = k then (k', f (some v)) :: es else (k', v) :: upsertEntries k f es

theorem upsertEntries_keys (k : κ) (f : Option ν → ν) (es : List (κ × ν)) :
    (upsertEntries k f es).map Prod.fst =
      if k ∈ es.map Prod.fst then es.map Prod.fst else es.map Prod.fst ++ [k] := by
  induction es with
  | nil => rfl
  | cons e es ih =>
    obtain ⟨k', v⟩ := e
    by_cases h : k' = k
    · simp [upsertEntries, h]
    · rw [upsertEntries, if_neg h, List.map_cons, ih]
      have hk : ¬ k = k' := fun he => h he.symm
      simp only [List.map_cons, List.mem_cons, hk, false_or]
      split_ifs <;> rfl

/-- Write `f old` at `k`, where `old` is what is there now. -/
def upsert (m : OrderedMap κ ν) (k : κ) (f : Option ν → ν) : OrderedMap κ ν where
  entries := upsertEntries k f m.entries
  nodup := by
    rw [upsertEntries_keys]
    split_ifs with h
    · exact m.nodup
    · exact List.nodup_append.mpr ⟨m.nodup, List.nodup_singleton k, fun a ha b hb hab =>
        h (List.mem_singleton.mp hb ▸ hab ▸ ha)⟩

@[simp] theorem get?_empty (k : κ) : (empty : OrderedMap κ ν).get? k = none := rfl

theorem lookup_cons_of_ne {k k' : κ} (h : k' ≠ k) (v : ν) (es : List (κ × ν)) :
    ((k, v) :: es).lookup k' = es.lookup k' := by
  rw [List.lookup_cons, beq_eq_false_iff_ne.mpr h]

theorem lookup_upsertEntries (k : κ) (f : Option ν → ν) (es : List (κ × ν)) (k' : κ) :
    (upsertEntries k f es).lookup k' =
      if k' = k then some (f (es.lookup k)) else es.lookup k' := by
  induction es with
  | nil =>
    by_cases h : k' = k
    · simp [upsertEntries, h]
    · simp [upsertEntries, lookup_cons_of_ne h, h]
  | cons e es ih =>
    obtain ⟨k₀, v⟩ := e
    by_cases h₀ : k₀ = k
    · subst h₀
      by_cases h : k' = k₀
      · simp [upsertEntries, h]
      · simp [upsertEntries, lookup_cons_of_ne h, h]
    · have h₁ : k ≠ k₀ := fun he => h₀ he.symm
      rw [upsertEntries, if_neg h₀, lookup_cons_of_ne h₁]
      by_cases h : k' = k₀
      · subst h
        simp [h₀]
      · rw [lookup_cons_of_ne h, lookup_cons_of_ne h, ih]

/-- Only what is written for the old value matters. -/
theorem upsert_congr {m : OrderedMap κ ν} {k : κ} {f g : Option ν → ν}
    (h : f (m.get? k) = g (m.get? k)) : m.upsert k f = m.upsert k g := by
  have hentries : ∀ es : List (κ × ν), f (es.lookup k) = g (es.lookup k) →
      upsertEntries k f es = upsertEntries k g es := fun es => by
    induction es with
    | nil => exact fun h => congrArg (fun v => [(k, v)]) h
    | cons e es ih =>
      obtain ⟨k', v⟩ := e
      intro h
      by_cases hk : k' = k
      · subst hk
        rw [List.lookup_cons_self] at h
        rw [upsertEntries, upsertEntries, if_pos rfl, if_pos rfl, h]
      · rw [lookup_cons_of_ne (Ne.symm hk)] at h
        rw [upsertEntries, upsertEntries, if_neg hk, if_neg hk, ih h]
  exact OrderedMap.ext (hentries m.entries h)

theorem get?_upsert (m : OrderedMap κ ν) (k : κ) (f : Option ν → ν) (k' : κ) :
    (m.upsert k f).get? k' = if k' = k then some (f (m.get? k)) else m.get? k' :=
  lookup_upsertEntries k f m.entries k'

theorem lookup_eq_some_of_mem {es : List (κ × ν)} (hn : (es.map Prod.fst).Nodup) {k : κ} {v : ν}
    (h : (k, v) ∈ es) : es.lookup k = some v := by
  induction es with
  | nil => cases h
  | cons e es ih =>
    rw [List.map_cons, List.nodup_cons] at hn
    rcases List.mem_cons.mp h with rfl | h
    · exact List.lookup_cons_self
    · have hne : k ≠ e.1 := fun he => hn.1 (he ▸ List.mem_map_of_mem h)
      rw [lookup_cons_of_ne hne]
      exact ih hn.2 h

theorem mem_of_lookup_eq_some {es : List (κ × ν)} {k : κ} {v : ν} (h : es.lookup k = some v) :
    (k, v) ∈ es := by
  obtain ⟨l₁, l₂, rfl, -⟩ := List.lookup_eq_some_iff.mp h
  simp

theorem mem_entries_iff (m : OrderedMap κ ν) {k : κ} {v : ν} :
    (k, v) ∈ m.entries ↔ m.get? k = some v :=
  ⟨lookup_eq_some_of_mem m.nodup, mem_of_lookup_eq_some⟩

theorem get?_eq_of_perm {m n : OrderedMap κ ν} (h : m.entries.Perm n.entries) (k : κ) :
    m.get? k = n.get? k := by
  apply Option.ext
  intro v
  rw [← mem_entries_iff, ← mem_entries_iff]
  exact h.mem_iff

theorem get?_filter (m : OrderedMap κ ν) (p : κ × ν → Bool) (k : κ) :
    (m.filter p).get? k = (m.get? k).filter fun v => p (k, v) := by
  apply Option.ext
  intro v
  rw [← mem_entries_iff, filter, List.mem_filter, mem_entries_iff, Option.filter_eq_some_iff]

theorem mem_values_iff (m : OrderedMap κ ν) {v : ν} :
    v ∈ m.values ↔ ∃ k, m.get? k = some v := by
  simp only [values, List.mem_map, Prod.exists, mem_entries_iff]
  constructor
  · rintro ⟨k, _, h, rfl⟩
    exact ⟨k, h⟩
  · rintro ⟨k, h⟩
    exact ⟨k, v, h, rfl⟩

theorem mem_upsert_entries {m : OrderedMap κ ν} {k k' : κ} {f : Option ν → ν} {v : ν} :
    (k', v) ∈ (m.upsert k f).entries ↔
      (k' = k ∧ v = f (m.get? k)) ∨ (k' ≠ k ∧ (k', v) ∈ m.entries) := by
  rw [mem_entries_iff, mem_entries_iff, get?_upsert]
  by_cases h : k' = k
  · simp [h, eq_comm]
  · simp [h]

/-- Writing a present key replaces the value in its place. -/
theorem upsertEntries_of_getElem? {es : List (κ × ν)} (hn : (es.map Prod.fst).Nodup) {i : ℕ}
    {k : κ} {v : ν} (h : es[i]? = some (k, v)) (f : Option ν → ν) :
    upsertEntries k f es = es.set i (k, f (some v)) := by
  induction es generalizing i with
  | nil => simp at h
  | cons e es ih =>
    rw [List.map_cons, List.nodup_cons] at hn
    cases i with
    | zero =>
      obtain rfl : e = (k, v) := by simpa using h
      simp [upsertEntries]
    | succ i =>
      have h' : es[i]? = some (k, v) := by simpa using h
      have hne : e.1 ≠ k := fun he => hn.1
        (he ▸ List.mem_map_of_mem (f := Prod.fst) (List.mem_of_getElem? h'))
      rw [upsertEntries, if_neg hne, ih hn.2 h', List.set_cons_succ]

/-- Writing a new key appends it. -/
theorem upsertEntries_of_not_mem {es : List (κ × ν)} {k : κ} (h : k ∉ es.map Prod.fst)
    (f : Option ν → ν) : upsertEntries k f es = es ++ [(k, f none)] := by
  induction es with
  | nil => rfl
  | cons e es ih =>
    simp only [List.map_cons, List.mem_cons, not_or] at h
    rw [upsertEntries, if_neg (Ne.symm h.1), ih h.2, List.cons_append]

end OrderedMap

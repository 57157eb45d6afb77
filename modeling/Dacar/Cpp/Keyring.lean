import Dacar.OrderedMap
import Dacar.PositionIndex

/-!
# The C++ keyring

The keyring keeps its pairs in a vector and an index from issuer hash to position.  To its
callers it is the dictionary of the Python port.  Nothing looks into the issuer hashes and the
keysets, so they are of any type.
-/

namespace Dacar

variable {κ ν : Type} [DecidableEq κ]

/-- What is done to a keyring. -/
inductive KeyringCall (κ ν : Type)
  | register (issuerHash : κ) (keyset : ν)
  | forget (issuerHash : κ)

/-! ## Python -/

namespace Python

/-- A `dict`. -/
abbrev Keyring (κ ν : Type) := OrderedMap κ ν

namespace Keyring

def register (r : Keyring κ ν) (issuerHash : κ) (keyset : ν) : Keyring κ ν :=
  r.upsert issuerHash fun _ => keyset

def resolve (r : Keyring κ ν) (issuerHash : κ) : Option ν := r.get? issuerHash

/-- `issuer_hash in keyring` -/
def contains (r : Keyring κ ν) (issuerHash : κ) : Bool := (r.get? issuerHash).isSome

def forget (r : Keyring κ ν) (issuerHash : κ) : Bool × Keyring κ ν :=
  if r.contains issuerHash then (true, r.filter fun e => e.1 ≠ issuerHash) else (false, r)

/-- `len(keyring)` -/
def size (r : Keyring κ ν) : ℕ := r.entries.length

def call (r : Keyring κ ν) : KeyringCall κ ν → Option Bool × Keyring κ ν
  | .register issuerHash keyset => (none, r.register issuerHash keyset)
  | .forget issuerHash => ((r.forget issuerHash).1, (r.forget issuerHash).2)

end Keyring

end Python

/-! ## C++ -/

namespace Cpp

structure Keyring (κ ν : Type) where
  entries : List (κ × ν)
  index : κ → Option ℕ

namespace Keyring

def empty : Keyring κ ν := ⟨[], fun _ => none⟩

/-- `register_keyset` -/
def register (r : Keyring κ ν) (issuerHash : κ) (keyset : ν) : Keyring κ ν :=
  match r.index issuerHash with
  | some pos => { r with entries := r.entries.modify pos fun e => (e.1, keyset) }
  | none =>
    { entries := r.entries ++ [(issuerHash, keyset)]
      index := Function.update r.index issuerHash (some r.entries.length) }

/-- Out of its range the vector has no entry to point to. -/
def resolve (r : Keyring κ ν) (issuerHash : κ) : Option ν :=
  match r.index issuerHash with
  | none => none
  | some pos => r.entries[pos]?.map Prod.snd

/-- The positions behind the erased one are counted down. -/
def forget (r : Keyring κ ν) (issuerHash : κ) : Bool × Keyring κ ν :=
  match r.index issuerHash with
  | none => (false, r)
  | some pos => (true, ⟨r.entries.eraseIdx pos, PositionIndex.remove r.index issuerHash pos⟩)

def size (r : Keyring κ ν) : ℕ := r.entries.length

def contains (r : Keyring κ ν) (issuerHash : κ) : Bool := (r.index issuerHash).isSome

def call (r : Keyring κ ν) : KeyringCall κ ν → Option Bool × Keyring κ ν
  | .register issuerHash keyset => (none, r.register issuerHash keyset)
  | .forget issuerHash => ((r.forget issuerHash).1, (r.forget issuerHash).2)

/-! ## The same as the dictionary -/

/-- The index is right, and the pairs are those of the dictionary. -/
structure Refines (r : Keyring κ ν) (d : Python.Keyring κ ν) : Prop where
  indexed : PositionIndex.Indexes (r.entries.map Prod.fst) r.index
  entries : r.entries = d.entries

variable {r : Keyring κ ν} {d : Python.Keyring κ ν}

omit [DecidableEq κ] in
theorem refines_empty : (empty : Keyring κ ν).Refines .empty :=
  ⟨PositionIndex.indexes_nil, rfl⟩

omit [DecidableEq κ] in
theorem Refines.getElem? (h : r.Refines d) {issuerHash : κ} {pos : ℕ}
    (hpos : r.index issuerHash = some pos) : ∃ v, r.entries[pos]? = some (issuerHash, v) := by
  have hkey := (h.indexed issuerHash pos).mp hpos
  rw [List.getElem?_map, Option.map_eq_some_iff] at hkey
  obtain ⟨⟨k, v⟩, he, rfl⟩ := hkey
  exact ⟨v, he⟩

theorem Refines.resolve (h : r.Refines d) (issuerHash : κ) :
    r.resolve issuerHash = Python.Keyring.resolve d issuerHash := by
  rw [Keyring.resolve, Python.Keyring.resolve, OrderedMap.get?, ← h.entries]
  cases hpos : r.index issuerHash with
  | none =>
    have hnone : r.entries.lookup issuerHash = none := by
      by_contra hsome
      obtain ⟨v, hv⟩ := Option.ne_none_iff_exists'.mp hsome
      exact h.indexed.not_mem hpos (List.mem_map_of_mem (OrderedMap.mem_of_lookup_eq_some hv))
    rw [hnone]
  | some pos =>
    obtain ⟨v, hv⟩ := h.getElem? hpos
    dsimp only
    rw [hv]
    exact (OrderedMap.lookup_eq_some_of_mem h.indexed.nodup (List.mem_of_getElem? hv)).symm

theorem Refines.contains (h : r.Refines d) (issuerHash : κ) :
    r.contains issuerHash = Python.Keyring.contains d issuerHash := by
  have hresolve := h.resolve issuerHash
  rw [Python.Keyring.resolve] at hresolve
  rw [Keyring.contains, Python.Keyring.contains, ← hresolve, Keyring.resolve]
  cases hpos : r.index issuerHash with
  | none => rfl
  | some pos =>
    obtain ⟨v, hv⟩ := h.getElem? hpos
    dsimp only
    rw [hv]
    rfl

theorem Refines.register (h : r.Refines d) (issuerHash : κ) (keyset : ν) :
    (r.register issuerHash keyset).Refines (Python.Keyring.register d issuerHash keyset) := by
  rw [Keyring.register]
  cases hpos : r.index issuerHash with
  | none =>
    constructor
    · rw [List.map_append, List.map_singleton]
      have hconcat := h.indexed.concat hpos
      rwa [List.length_map] at hconcat
    · show r.entries ++ _ = OrderedMap.upsertEntries issuerHash (fun _ => keyset) d.entries
      rw [← h.entries, OrderedMap.upsertEntries_of_not_mem (h.indexed.not_mem hpos)]
  | some pos =>
    obtain ⟨v, hv⟩ := h.getElem? hpos
    have hset : r.entries.modify pos (fun e => (e.1, keyset)) =
        r.entries.set pos (issuerHash, keyset) := by
      rw [List.modify_eq_set_getElem?, hv]
      rfl
    constructor
    · obtain ⟨hlt, hkey⟩ := List.getElem?_eq_some_iff.mp ((h.indexed issuerHash pos).mp hpos)
      have hkeys : (r.entries.modify pos fun e => (e.1, keyset)).map Prod.fst =
          r.entries.map Prod.fst := by
        rw [hset, List.map_set]
        exact (congrArg (List.set _ pos) hkey.symm).trans (List.set_getElem_self hlt)
      show PositionIndex.Indexes (List.map Prod.fst (r.entries.modify pos _)) r.index
      rw [hkeys]
      exact h.indexed
    · show r.entries.modify pos _ = OrderedMap.upsertEntries issuerHash (fun _ => keyset) d.entries
      rw [hset, ← h.entries, OrderedMap.upsertEntries_of_getElem? h.indexed.nodup hv]

/-- Taking one pair out by its place or by its key. -/
theorem filter_ne_eq_eraseIdx {es : List (κ × ν)} (hn : (es.map Prod.fst).Nodup) {i : ℕ}
    {k : κ} {v : ν} (h : es[i]? = some (k, v)) :
    (es.filter fun e => e.1 ≠ k) = es.eraseIdx i := by
  induction es generalizing i with
  | nil => cases h
  | cons e es ih =>
    rw [List.map_cons, List.nodup_cons] at hn
    cases i with
    | zero =>
      obtain rfl : e = (k, v) := by simpa using h
      have hkeep : ∀ e ∈ es, decide (e.1 ≠ k) = true := fun e he =>
        decide_eq_true (ne_of_mem_of_not_mem (List.mem_map_of_mem he) hn.1)
      rw [List.filter_cons_of_neg (by simp), List.filter_eq_self.mpr hkeep, List.eraseIdx_zero,
        List.tail_cons]
    | succ i =>
      have hi : es[i]? = some (k, v) := by simpa using h
      have hne : e.1 ≠ k := fun heq =>
        hn.1 (heq ▸ List.mem_map_of_mem (f := Prod.fst) (List.mem_of_getElem? hi))
      rw [List.filter_cons_of_pos (by simpa using hne), ih hn.2 hi, List.eraseIdx_cons_succ]

theorem Refines.forget (h : r.Refines d) (issuerHash : κ) :
    (r.forget issuerHash).1 = (Python.Keyring.forget d issuerHash).1 ∧
      (r.forget issuerHash).2.Refines (Python.Keyring.forget d issuerHash).2 := by
  rw [Python.Keyring.forget, ← h.contains, Keyring.contains, Keyring.forget]
  cases hpos : r.index issuerHash with
  | none => exact ⟨rfl, h⟩
  | some pos =>
    obtain ⟨v, hv⟩ := h.getElem? hpos
    refine ⟨rfl, ?_, ?_⟩
    · show PositionIndex.Indexes (List.map Prod.fst (r.entries.eraseIdx pos)) _
      rw [← List.eraseIdx_map]
      exact h.indexed.eraseIdx hpos
    · show r.entries.eraseIdx pos = d.entries.filter _
      rw [← filter_ne_eq_eraseIdx h.indexed.nodup hv, h.entries]

theorem Refines.call (h : r.Refines d) (c : KeyringCall κ ν) :
    (r.call c).1 = (Python.Keyring.call d c).1 ∧
      (r.call c).2.Refines (Python.Keyring.call d c).2 := by
  cases c with
  | register issuerHash keyset => exact ⟨rfl, h.register issuerHash keyset⟩
  | forget issuerHash =>
    exact ⟨congrArg some (h.forget issuerHash).1, (h.forget issuerHash).2⟩

end Keyring

end Cpp

/-- Calls one after the other, with what they return. -/
def runCalls {ρ : Type} (call : ρ → KeyringCall κ ν → Option Bool × ρ) :
    List (KeyringCall κ ν) → ρ → List (Option Bool) × ρ
  | [], r => ([], r)
  | c :: cs, r =>
    ((call r c).1 :: (runCalls call cs (call r c).2).1, (runCalls call cs (call r c).2).2)

theorem Cpp.Keyring.Refines.run {r : Cpp.Keyring κ ν} {d : Python.Keyring κ ν}
    (h : r.Refines d) (cs : List (KeyringCall κ ν)) :
    (runCalls Cpp.Keyring.call cs r).1 = (runCalls Python.Keyring.call cs d).1 ∧
      (runCalls Cpp.Keyring.call cs r).2.Refines (runCalls Python.Keyring.call cs d).2 := by
  induction cs generalizing r d with
  | nil => exact ⟨rfl, h⟩
  | cons c cs ih =>
    obtain ⟨hanswer, hnext⟩ := h.call c
    obtain ⟨hanswers, hlast⟩ := ih hnext
    exact ⟨congrArg₂ List.cons hanswer hanswers, hlast⟩

/-- After any calls the keyring has the right positions, and cannot be told from the dictionary
that the same calls were made on. -/
theorem keyring_refines_dictionary (cs : List (KeyringCall κ ν)) :
    let r := (runCalls Cpp.Keyring.call cs .empty).2
    let d := (runCalls Python.Keyring.call cs .empty).2
    (∀ issuerHash pos, r.index issuerHash = some pos ↔
        ∃ keyset, r.entries[pos]? = some (issuerHash, keyset)) ∧
      (∀ issuerHash, (r.index issuerHash).isSome = true ↔
        ∃ keyset, (issuerHash, keyset) ∈ d.entries) ∧
      (∀ issuerHash, r.resolve issuerHash = Python.Keyring.resolve d issuerHash ∧
        r.contains issuerHash = Python.Keyring.contains d issuerHash) ∧
      r.size = Python.Keyring.size d ∧ r.entries = d.entries ∧
      (runCalls Cpp.Keyring.call cs .empty).1 = (runCalls Python.Keyring.call cs .empty).1 := by
  intro r d
  obtain ⟨hanswers, h⟩ : _ ∧ r.Refines d := Cpp.Keyring.refines_empty.run cs
  refine ⟨fun issuerHash pos => ?_, fun issuerHash => ?_,
    fun issuerHash => ⟨h.resolve issuerHash, h.contains issuerHash⟩,
    congrArg List.length h.entries, h.entries, hanswers⟩
  · rw [h.indexed, List.getElem?_map, Option.map_eq_some_iff]
    simp
  · rw [h.indexed.isSome_iff, h.entries]
    simp

end Dacar

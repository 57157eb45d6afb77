import Dacar.Cpp.StateVector
import Dacar.JoinReplica

/-!
# Convergence of replicas

Read as a function from keys to timestamp pairs, a state is an element of a join
semilattice: a missing timestamp lies below every timestamp and a missing entry
below every entry.  `apply` joins the pair of its operation in, `merge` joins two
states.
-/

namespace Dacar

open JoinReplica

/-- The Add and the Remove timestamp, a missing one at the bottom. -/
abbrev Stamps := WithBot ℕ × WithBot ℕ

def Entry.stamps (e : Entry) : Stamps := (e.addTs, e.removeTs)

/-- The timestamps an operation brings. -/
def Operation.stamps (op : Operation) : Stamps :=
  match op.action with
  | .grant => ((op.hlc : WithBot ℕ), ⊥)
  | .revoke => (⊥, (op.hlc : WithBot ℕ))

section Stamps

@[simp] theorem maxBoth_none_left (b : Option ℕ) : maxBoth none b = b := by
  cases b <;> rfl

@[simp] theorem maxBoth_none_right (a : Option ℕ) : maxBoth a none = a := by
  cases a <;> rfl

/-- The code's maxima are the joins of the order with a bottom. -/
theorem maxBoth_eq_sup (a b : WithBot ℕ) : (maxBoth a b : WithBot ℕ) = a ⊔ b := by
  cases a with
  | bot => exact (maxBoth_none_left b).trans (bot_sup_eq b).symm
  | coe a =>
    cases b with
    | bot => rfl
    | coe b =>
      have h : maxBoth (some a) (some b) = some (a ⊔ b) := by
        simp only [maxBoth]
        split_ifs with hab
        · rw [sup_eq_left.mpr (le_of_lt hab)]
        · rw [sup_eq_right.mpr (not_lt.mp hab)]
      exact h

theorem maxTs_eq_maxBoth (a : Option ℕ) (b : ℕ) : some (maxTs a b) = maxBoth a (some b) := by
  cases a with
  | none => rfl
  | some a =>
    simp only [maxTs, maxBoth]
    split_ifs <;> rfl

theorem Entry.stamps_join (other e : Entry) :
    (Entry.join other (some e)).stamps = e.stamps ⊔ other.stamps :=
  Prod.ext (maxBoth_eq_sup e.addTs other.addTs) (maxBoth_eq_sup e.removeTs other.removeTs)

/-- Recording an operation is joining the entry it makes by itself. -/
theorem Entry.record_eq_join (op : Operation) (old : Option Entry) :
    Entry.record op old = Entry.join (Entry.record op none) old := by
  cases old with
  | none => cases h : op.action <;> simp [Entry.record, Entry.join, h, maxTs, maxBoth]
  | some e =>
    cases h : op.action with
    | grant =>
      simp only [Entry.record, Entry.join, h, Option.getD_some, Option.getD_none,
        maxBoth_none_right, maxTs_eq_maxBoth, maxBoth_none_left]
    | revoke =>
      simp only [Entry.record, Entry.join, h, Option.getD_some, Option.getD_none,
        maxBoth_none_right, maxTs_eq_maxBoth, maxBoth_none_left]

theorem Entry.stamps_record_none (op : Operation) :
    (Entry.record op none).stamps = op.stamps := by
  cases h : op.action <;> simp [Entry.record, Entry.stamps, Operation.stamps, h, maxTs] <;> rfl

theorem Entry.isActive_congr {e e' : Entry} (h : e.stamps = e'.stamps) :
    e.isActive = e'.isActive := by
  obtain ⟨ha, hr⟩ := Prod.mk.inj h
  have ha' : e.addTs = e'.addTs := ha
  have hr' : e.removeTs = e'.removeTs := hr
  rw [Entry.isActive, Entry.isActive, ha', hr']

end Stamps

/-- What is observed of a key: nothing, or a pair of timestamps. -/
def seen : Option Entry → WithBot Stamps
  | none => ⊥
  | some e => (e.stamps : WithBot Stamps)

theorem seen_join (other : Entry) (old : Option Entry) :
    seen (some (Entry.join other old)) = seen old ⊔ seen (some other) := by
  cases old with
  | none => exact (bot_sup_eq _).symm
  | some e =>
    rw [seen, Entry.stamps_join]
    exact WithBot.coe_sup _ _

theorem isActive_congr {o o' : Option Entry} (h : seen o = seen o') :
    o.any Entry.isActive = o'.any Entry.isActive := by
  cases o with
  | none =>
    cases o' with
    | none => rfl
    | some e' => exact absurd h.symm (WithBot.coe_ne_bot)
  | some e =>
    cases o' with
    | none => exact absurd h (WithBot.coe_ne_bot)
    | some e' => exact Entry.isActive_congr (WithBot.coe_injective h)

variable {κ : Type*} [DecidableEq κ] {key : Tuple → κ}

theorem seen_joinAll {es : List (κ × Entry)} (hn : (es.map Prod.fst).Nodup)
    (m : OrderedMap κ Entry) (k : κ) :
    seen ((joinAll m es).get? k) = seen (m.get? k) ⊔ seen (es.lookup k) := by
  induction es generalizing m with
  | nil => exact (sup_bot_eq _).symm
  | cons p es ih =>
    rw [List.map_cons, List.nodup_cons] at hn
    have hrest := ih hn.2 (m.upsert p.1 (Entry.join p.2))
    rw [joinAll, List.foldl_cons, ← joinAll, hrest, OrderedMap.get?_upsert]
    by_cases hk : k = p.1
    · -- the rest of the list does not mention this key again
      have hnone : es.lookup k = none := by
        rw [List.lookup_eq_none_iff]
        intro q hq
        have hne : k ≠ q.1 := fun he => hn.1 (hk ▸ he ▸ List.mem_map_of_mem hq)
        simpa using hne
      have hhead : (p :: es).lookup k = some p.2 := by rw [hk]; exact List.lookup_cons_self
      rw [if_pos hk, hnone, hhead, seen_join, hk]
      exact sup_bot_eq _
    · have htail : (p :: es).lookup k = es.lookup k := OrderedMap.lookup_cons_of_ne hk p.2 es
      rw [if_neg hk, htail]

namespace StateVector

/-- The map from key to timestamps that a state holds. -/
def view (s : StateVector key) (k : κ) : WithBot Stamps := seen (s.entries.get? k)

/-- What one operation adds to the map. -/
def delta (key : Tuple → κ) (op : Operation) (k : κ) : WithBot Stamps :=
  if k = key op.tuple then (op.stamps : WithBot Stamps) else ⊥

theorem view_empty (days : ℕ) : (empty days : StateVector key).view = ⊥ := rfl

theorem view_record (s : StateVector key) (op : Operation) :
    (s.record op).view = s.view ⊔ delta key op := by
  funext k
  rw [Pi.sup_apply, view, get?_record, delta]
  by_cases h : k = key op.tuple
  · rw [if_pos h, if_pos h, Entry.record_eq_join, seen_join, ← h, seen, Entry.stamps_record_none]
    rfl
  · rw [if_neg h, if_neg h, sup_bot_eq]
    rfl

theorem view_merge (s t : StateVector key) : (s.merge t).view = s.view ⊔ t.view :=
  funext fun k => seen_joinAll t.entries.nodup s.entries k

/-- An accepted operation is merged in as the state it makes by itself. -/
theorem merge_singleton (s : StateVector key) (op : Operation) (days : ℕ) :
    s.merge ((empty days).record op) = s.record op := by
  refine ext_entries ?_ rfl
  have hrec : Entry.join (Entry.record op none) = Entry.record op :=
    funext fun old => (Entry.record_eq_join op old).symm
  change s.entries.upsert (key op.tuple) (Entry.join (Entry.record op none)) = _
  rw [hrec]
  rfl

theorem isActive_eq_of_view_eq {s t : StateVector key} {k : κ} (h : s.view k = t.view k) :
    s.isActive k = t.isActive k :=
  isActive_congr h

/-! ## Replicas -/

section Replica

variable (key) (days : ℕ) (now : ℤ) (maxFutureMs : Option ℤ)

/-- The state a plan builds at one clock reading. -/
def replica (p : Plan Operation) : StateVector key :=
  p.run (empty days) (fun s op => (s.apply op now maxFutureMs).2) merge

/-- What an operation offered at this reading adds to the map. -/
def contribution (op : Operation) : κ → WithBot Stamps :=
  if (empty days : StateVector key).Admits op now maxFutureMs then delta key op else ⊥

omit [DecidableEq κ] in
theorem admits_congr {s t : StateVector key} (h : s.deletionHorizonDays = t.deletionHorizonDays)
    (op : Operation) : s.Admits op now maxFutureMs ↔ t.Admits op now maxFutureMs := by
  unfold Admits deletionHorizonMs
  rw [h]

/-- The map a plan builds is the join of what its operations contribute. -/
theorem replica_isLUB (p : Plan Operation) :
    IsLUB (contribution key days now maxFutureMs '' {op | op ∈ p.ops})
      (replica key days now maxFutureMs p).view := by
  refine Plan.isLUB_view (I := fun s => s.deletionHorizonDays = days) _ _ merge rfl
    (fun s op hs => (s.apply_horizon op now maxFutureMs).trans hs) (fun s t hs _ => hs)
    (view_empty days) (fun s op hs => ?_) (fun s t _ _ => view_merge s t) p
  have hadm := admits_congr key now maxFutureMs (t := empty days) hs op
  -- whether an operation is admitted depends on the horizon alone
  rw [apply_eq, contribution]
  by_cases h : s.Admits op now maxFutureMs
  · rw [if_pos h, if_pos (hadm.mp h)]
    exact view_record s op
  · rw [if_neg h, if_neg fun h' => h (hadm.mpr h')]
    exact (sup_bot_eq _).symm

theorem replica_view_congr {p q : Plan Operation} (h : ∀ op, op ∈ p.ops ↔ op ∈ q.ops) :
    (replica key days now maxFutureMs p).view = (replica key days now maxFutureMs q).view := by
  have hset : {op | op ∈ p.ops} = {op | op ∈ q.ops} := Set.ext h
  exact (replica_isLUB key days now maxFutureMs p).unique
    (hset ▸ replica_isLUB key days now maxFutureMs q)

end Replica

/-! ## Where the tuples come from -/

/-- Every entry's tuple satisfies `P`. -/
def TuplesIn (P : Tuple → Prop) (m : OrderedMap κ Entry) : Prop :=
  ∀ k e, m.get? k = some e → P e.tuple

section TuplesIn

variable {P : Tuple → Prop} {m : OrderedMap κ Entry}

theorem TuplesIn.upsert (h : TuplesIn P m) {t : Tuple} (ht : P t) {f : Option Entry → Entry}
    (hf : ∀ old, (f old).tuple = (old.map Entry.tuple).getD t) (k : κ) :
    TuplesIn P (m.upsert k f) := by
  intro k' e he
  rw [OrderedMap.get?_upsert] at he
  split_ifs at he
  · obtain rfl := Option.some.inj he
    rw [hf]
    cases hg : m.get? k with
    | none => exact ht
    | some e => exact h k e hg
  · exact h k' e he

theorem TuplesIn.joinAll (h : TuplesIn P m) {es : List (κ × Entry)}
    (hes : ∀ p ∈ es, P p.2.tuple) : TuplesIn P (joinAll m es) := by
  induction es generalizing m with
  | nil => exact h
  | cons p es ih =>
    exact ih (h.upsert (hes p List.mem_cons_self) (Entry.join_tuple p.2) p.1)
      fun q hq => hes q (List.mem_cons_of_mem p hq)

end TuplesIn

theorem replica_tuples (key : Tuple → κ) (days : ℕ) (now : ℤ) (maxFutureMs : Option ℤ)
    (p : Plan Operation) :
    TuplesIn (fun t => ∃ op ∈ p.ops, op.tuple = t)
      (replica key days now maxFutureMs p).entries := by
  induction p with
  | empty => exact fun k e he => absurd he (by simp [replica, Plan.run, empty])
  | apply p o ih =>
    have hold : TuplesIn (fun t => ∃ op ∈ (p.apply o).ops, op.tuple = t)
        (replica key days now maxFutureMs p).entries := by
      intro k e he
      obtain ⟨op, hop, ht⟩ := ih k e he
      exact ⟨op, List.mem_append_left _ hop, ht⟩
    change TuplesIn _ ((replica key days now maxFutureMs p).apply o now maxFutureMs).2.entries
    rw [apply_eq]
    split_ifs
    · exact hold.upsert ⟨o, List.mem_append_right _ List.mem_cons_self, rfl⟩
        (Entry.record_tuple o) _
    · exact hold
  | merge p q ihp ihq =>
    have hold : TuplesIn (fun t => ∃ op ∈ (p.merge q).ops, op.tuple = t)
        (replica key days now maxFutureMs p).entries := by
      intro k e he
      obtain ⟨op, hop, ht⟩ := ihp k e he
      exact ⟨op, List.mem_append_left _ hop, ht⟩
    refine hold.joinAll fun r hr => ?_
    obtain ⟨op, hop, ht⟩ := ihq r.1 r.2 ((OrderedMap.mem_entries_iff _).mp hr)
    exact ⟨op, List.mem_append_right _ hop, ht⟩

/-- Equal maps list the same active tuples, unless two tuples share a key. -/
theorem activeTuples_subset_of_view_eq {s t : StateVector key} {P : Tuple → Prop}
    (hs : TuplesIn P s.entries) (ht : TuplesIn P t.entries)
    (hkey : ∀ a b, P a → P b → key a = key b → a = b) (h : s.view = t.view) {x : Tuple}
    (hx : x ∈ s.activeTuples) : x ∈ t.activeTuples := by
  obtain ⟨k, e, hk, ha, rfl⟩ := s.mem_activeTuples.mp hx
  have hact : (t.entries.get? k).any Entry.isActive = true := by
    rw [← isActive_congr (congrFun h k), hk]
    exact ha
  obtain ⟨e', hk', ha'⟩ := (Option.any_eq_true _ _).mp hact
  -- the entry on the other side is filed under the same key
  refine t.mem_activeTuples.mpr ⟨k, e', hk', ha', ?_⟩
  have hke : key e.tuple = k := s.keyed k e (s.entries.mem_entries_iff.mpr hk)
  have hke' : key e'.tuple = k := t.keyed k e' (t.entries.mem_entries_iff.mpr hk')
  exact hkey _ _ (ht k e' hk') (hs k e hk) (hke'.trans hke.symm)

theorem replica_activeTuples (days : ℕ) (now : ℤ) (maxFutureMs : Option ℤ)
    {p q : Plan Operation} (h : ∀ op, op ∈ p.ops ↔ op ∈ q.ops)
    (hkey : ∀ a ∈ p.ops, ∀ b ∈ p.ops, key a.tuple = key b.tuple → a.tuple = b.tuple) (x : Tuple) :
    x ∈ (replica key days now maxFutureMs p).activeTuples ↔
      x ∈ (replica key days now maxFutureMs q).activeTuples := by
  have hview := replica_view_congr key days now maxFutureMs h
  have hp := replica_tuples key days now maxFutureMs p
  have hq : TuplesIn (fun t => ∃ op ∈ p.ops, op.tuple = t)
      (replica key days now maxFutureMs q).entries := by
    intro k e he
    obtain ⟨op, hop, ht⟩ := replica_tuples key days now maxFutureMs q k e he
    exact ⟨op, (h op).mpr hop, ht⟩
  have hinj : ∀ a b, (∃ op ∈ p.ops, op.tuple = a) → (∃ op ∈ p.ops, op.tuple = b) →
      key a = key b → a = b := by
    rintro _ _ ⟨a, ha, rfl⟩ ⟨b, hb, rfl⟩
    exact hkey a ha b hb
  exact ⟨activeTuples_subset_of_view_eq hp hq hinj hview,
    activeTuples_subset_of_view_eq hq hp hinj hview.symm⟩

end StateVector

/-! ## The C++ replica -/

namespace Cpp.StateVector

variable (key)

/-- The state a plan builds in the C++ port at one clock reading. -/
def replica (days wall : ℕ) (nowMs maxFutureMs : ℤ) (p : Plan Operation) : StateVector key :=
  p.run (empty days) (fun s op => (s.apply op wall nowMs maxFutureMs).2) merge

theorem toStateVector_replica (days wall : ℕ) (nowMs maxFutureMs : ℤ) (p : Plan Operation) :
    (replica key days wall nowMs maxFutureMs p).toStateVector =
      Dacar.StateVector.replica key days (clockReading wall nowMs) (skewBound maxFutureMs) p := by
  induction p with
  | empty => rfl
  | apply p op ih =>
    have h := toStateVector_apply_snd (replica key days wall nowMs maxFutureMs p) op wall nowMs
      maxFutureMs
    exact h.trans (by rw [ih]; rfl)
  | merge p q ihp ihq =>
    have h := toStateVector_merge (replica key days wall nowMs maxFutureMs p)
      (replica key days wall nowMs maxFutureMs q)
    exact h.trans (by rw [ihp, ihq]; rfl)

end Cpp.StateVector

/-! ## Strong convergence -/

/-- What strong convergence asks of an implementation of the state: `run` builds a state
from a plan, `view` is the map it holds, `single` the state one operation makes. -/
structure StronglyConvergent {S : Type*} (key : Tuple → κ) (run : Plan Operation → S)
    (view : S → κ → WithBot Stamps) (isActive : S → κ → Bool) (activeTuples : S → List Tuple)
    (apply : S → Operation → Bool × S) (single : S → Operation → S) (merge : S → S → S) :
    Prop where
  same_map : ∀ p q : Plan Operation, (∀ op, op ∈ p.ops ↔ op ∈ q.ops) → view (run p) = view (run q)
  same_active : ∀ p q : Plan Operation, (∀ op, op ∈ p.ops ↔ op ∈ q.ops) →
    ∀ k, isActive (run p) k = isActive (run q) k
  same_tuples : ∀ p q : Plan Operation, (∀ op, op ∈ p.ops ↔ op ∈ q.ops) →
    (∀ a ∈ p.ops, ∀ b ∈ p.ops, key a.tuple = key b.tuple → a.tuple = b.tuple) →
    ∀ t, t ∈ activeTuples (run p) ↔ t ∈ activeTuples (run q)
  merge_comm : ∀ s t, view (merge s t) = view (merge t s)
  merge_assoc : ∀ s t u, view (merge (merge s t) u) = view (merge s (merge t u))
  merge_idem : ∀ s, view (merge s s) = view s
  /-- The operation's timestamp, under the key of its tuple, and nothing else. -/
  view_single : ∀ s op, (apply s op).1 = true → view (single s op) = StateVector.delta key op
  apply_eq_merge : ∀ s op, (apply s op).1 = true →
    view (apply s op).2 = view (merge s (single s op))

theorem StateVector.stronglyConvergent (days : ℕ) (now : ℤ) (maxFutureMs : Option ℤ) :
    StronglyConvergent key (replica key days now maxFutureMs) view isActive activeTuples
      (fun s op => s.apply op now maxFutureMs)
      (fun s op => ((empty s.deletionHorizonDays).apply op now maxFutureMs).2) merge where
  same_map _ _ h := replica_view_congr key days now maxFutureMs h
  same_active _ _ h k :=
    isActive_eq_of_view_eq (congrFun (replica_view_congr key days now maxFutureMs h) k)
  same_tuples _ _ h hkey := replica_activeTuples days now maxFutureMs h hkey
  merge_comm s t := by rw [view_merge, view_merge, sup_comm]
  merge_assoc s t u := by rw [view_merge, view_merge, view_merge, view_merge, sup_assoc]
  merge_idem s := by rw [view_merge, sup_idem]
  view_single s op h := by
    have hs : s.Admits op now maxFutureMs := by simpa [apply_fst] using h
    have he : (empty s.deletionHorizonDays : StateVector key).Admits op now maxFutureMs := hs
    rw [apply_eq, if_pos he, view_record, view_empty, bot_sup_eq]
  apply_eq_merge s op h := by
    have hs : s.Admits op now maxFutureMs := by simpa [apply_fst] using h
    have he : (empty s.deletionHorizonDays : StateVector key).Admits op now maxFutureMs := hs
    rw [apply_eq, if_pos hs, apply_eq, if_pos he, merge_singleton]

theorem Cpp.StateVector.stronglyConvergent (days wall : ℕ) (nowMs maxFutureMs : ℤ) :
    StronglyConvergent key (replica key days wall nowMs maxFutureMs)
      (fun s => s.toStateVector.view) isActive activeTuples
      (fun s op => s.apply op wall nowMs maxFutureMs)
      (fun s op => ((empty s.deletionHorizonDays).apply op wall nowMs maxFutureMs).2) merge := by
  have h : StronglyConvergent key _ _ _ _ _ _ _ :=
    Dacar.StateVector.stronglyConvergent days (clockReading wall nowMs) (skewBound maxFutureMs)
  constructor
  case same_map =>
    intro p q hpq
    rw [toStateVector_replica, toStateVector_replica]
    exact h.same_map p q hpq
  case same_active =>
    intro p q hpq k
    rw [← toStateVector_isActive, ← toStateVector_isActive, toStateVector_replica,
      toStateVector_replica]
    exact h.same_active p q hpq k
  case same_tuples =>
    intro p q hpq hkey t
    rw [← toStateVector_activeTuples, ← toStateVector_activeTuples, toStateVector_replica,
      toStateVector_replica]
    exact h.same_tuples p q hpq hkey t
  case merge_comm =>
    intro s t
    rw [toStateVector_merge, toStateVector_merge]
    exact h.merge_comm _ _
  case merge_assoc =>
    intro s t u
    simp only [toStateVector_merge]
    exact h.merge_assoc _ _ _
  case merge_idem =>
    intro s
    rw [toStateVector_merge]
    exact h.merge_idem _
  case view_single =>
    intro s op hop
    rw [apply_fst_eq] at hop
    rw [toStateVector_apply_snd]
    exact h.view_single s.toStateVector op hop
  case apply_eq_merge =>
    intro s op hop
    rw [apply_fst_eq] at hop
    rw [toStateVector_merge, toStateVector_apply_snd, toStateVector_apply_snd]
    exact h.apply_eq_merge s.toStateVector op hop

/-- Which operations a replica was offered decides its map and its active tuples, in all
three ports; in JavaScript, where keys are pre-images, no collision has to be excluded. -/
theorem strong_convergence (hash : Tuple → κ) (days wall : ℕ) (now nowMs maxFutureMs : ℤ)
    (maxFuture : Option ℤ) :
    (StronglyConvergent Tuple.key (StateVector.replica Tuple.key days now maxFuture)
        StateVector.view StateVector.isActive StateVector.activeTuples
        (fun s op => s.apply op now maxFuture)
        (fun s op => ((StateVector.empty s.deletionHorizonDays).apply op now maxFuture).2)
        StateVector.merge ∧
      ∀ p q : Plan Operation, (∀ op, op ∈ p.ops ↔ op ∈ q.ops) →
        ∀ t, t ∈ (StateVector.replica Tuple.key days now maxFuture p).activeTuples ↔
          t ∈ (StateVector.replica Tuple.key days now maxFuture q).activeTuples) ∧
    StronglyConvergent hash (StateVector.replica hash days now maxFuture)
      StateVector.view StateVector.isActive StateVector.activeTuples
      (fun s op => s.apply op now maxFuture)
      (fun s op => ((StateVector.empty s.deletionHorizonDays).apply op now maxFuture).2)
      StateVector.merge ∧
    StronglyConvergent hash (Cpp.StateVector.replica hash days wall nowMs maxFutureMs)
      (fun s => s.toStateVector.view) Cpp.StateVector.isActive Cpp.StateVector.activeTuples
      (fun s op => s.apply op wall nowMs maxFutureMs)
      (fun s op => ((Cpp.StateVector.empty s.deletionHorizonDays).apply op wall nowMs
        maxFutureMs).2) Cpp.StateVector.merge := by
  refine ⟨⟨StateVector.stronglyConvergent days now maxFuture, fun p q h t => ?_⟩,
    StateVector.stronglyConvergent days now maxFuture,
    Cpp.StateVector.stronglyConvergent days wall nowMs maxFutureMs⟩
  exact StateVector.replica_activeTuples days now maxFuture h
    (fun a _ b _ hab => Tuple.key_injective hab) t

end Dacar

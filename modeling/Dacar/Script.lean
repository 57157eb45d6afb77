import Mathlib

/-!
# Programs over a store of records

A script loads and saves whole records of a store, one at a time, and tells the outside
what it does.  It can be run to its end, be stopped at any point between two of its
steps, and have something else change the store at that point.

Nothing here knows what the records are.
-/

/-- Every constructor but `done` is one step; `V` gives the records their types, `ω` is
what is told and `ε` what is thrown. -/
inductive Script {ρ : Type} (V : ρ → Type) (ω ε α : Type)
  | done (result : Except ε α)
  | load (record : ρ) (next : V record → Script V ω ε α)
  | save (record : ρ) (value : V record) (next : Script V ω ε α)
  | tell (event : ω) (next : Script V ω ε α)

namespace Script

variable {ρ : Type} {V : ρ → Type} {ω ε α β : Type}

/-- An error ends the whole script. -/
def bind : Script V ω ε α → (α → Script V ω ε β) → Script V ω ε β
  | done (.ok a), f => f a
  | done (.error e), _ => done (.error e)
  | load r next, f => load r fun v => (next v).bind f
  | save r v next, f => save r v (next.bind f)
  | tell w next, f => tell w (next.bind f)

instance : Monad (Script V ω ε) where
  pure a := done (.ok a)
  bind := bind

def raise (e : ε) : Script V ω ε α := done (.error e)

def get (r : ρ) : Script V ω ε (V r) := load r fun v => done (.ok v)

def put (r : ρ) (v : V r) : Script V ω ε Unit := save r v (done (.ok ()))

def say (w : ω) : Script V ω ε Unit := tell w (done (.ok ()))

/-- Tell the events and go on. -/
def tellThen (events : List ω) (next : Script V ω ε α) : Script V ω ε α :=
  events.foldr tell next

def sayAll (events : List ω) : Script V ω ε Unit := tellThen events (done (.ok ()))

section Bind

variable (f : α → Script V ω ε β)

@[simp] theorem pure_bind (a : α) : (pure a : Script V ω ε α) >>= f = f a := rfl

@[simp] theorem raise_bind (e : ε) : (raise e : Script V ω ε α) >>= f = raise e := rfl

@[simp] theorem get_bind (r : ρ) (f : V r → Script V ω ε β) : get r >>= f = load r f := rfl

@[simp] theorem put_bind (r : ρ) (v : V r) (f : Unit → Script V ω ε β) :
    put r v >>= f = save r v (f ()) := rfl

@[simp] theorem say_bind (w : ω) (f : Unit → Script V ω ε β) : say w >>= f = tell w (f ()) := rfl

@[simp] theorem load_bind (r : ρ) (next : V r → Script V ω ε α) :
    load r next >>= f = load r fun v => next v >>= f := rfl

@[simp] theorem save_bind (r : ρ) (v : V r) (next : Script V ω ε α) :
    save r v next >>= f = save r v (next >>= f) := rfl

@[simp] theorem tell_bind (w : ω) (next : Script V ω ε α) :
    tell w next >>= f = tell w (next >>= f) := rfl

@[simp] theorem tellThen_bind (events : List ω) (next : Script V ω ε α) :
    tellThen events next >>= f = tellThen events (next >>= f) := by
  induction events with
  | nil => rfl
  | cons w events ih => exact congrArg (tell w) ih

@[simp] theorem sayAll_bind (events : List ω) (f : Unit → Script V ω ε β) :
    sayAll events >>= f = tellThen events (f ()) :=
  tellThen_bind f events _

end Bind

/-! ## Running to the end -/

variable [DecidableEq ρ]

/-- What a run leaves behind: the store, which records it saved, what it told. -/
structure Outcome (V : ρ → Type) (ω ε α : Type) where
  store : ∀ r, V r
  saved : List ρ
  told : List ω
  result : Except ε α

def run : Script V ω ε α → (∀ r, V r) → Outcome V ω ε α
  | done result, s => ⟨s, [], [], result⟩
  | load r next, s => (next (s r)).run s
  | save r v next, s =>
    let o := next.run (Function.update s r v)
    { o with saved := r :: o.saved }
  | tell w next, s =>
    let o := next.run s
    { o with told := w :: o.told }

section Run

variable (s : ∀ r, V r)

@[simp] theorem run_done (result : Except ε α) :
    (done result : Script V ω ε α).run s = ⟨s, [], [], result⟩ := rfl

@[simp] theorem run_pure (a : α) : (pure a : Script V ω ε α).run s = ⟨s, [], [], .ok a⟩ := rfl

@[simp] theorem run_raise (e : ε) :
    (raise e : Script V ω ε α).run s = ⟨s, [], [], .error e⟩ := rfl

@[simp] theorem run_load (r : ρ) (next : V r → Script V ω ε α) :
    (load r next).run s = (next (s r)).run s := rfl

@[simp] theorem run_save (r : ρ) (v : V r) (next : Script V ω ε α) :
    (save r v next).run s =
      { next.run (Function.update s r v) with
        saved := r :: (next.run (Function.update s r v)).saved } := rfl

@[simp] theorem run_tell (w : ω) (next : Script V ω ε α) :
    (tell w next).run s = { next.run s with told := w :: (next.run s).told } := rfl

@[simp] theorem run_tellThen (events : List ω) (next : Script V ω ε α) :
    (tellThen events next).run s = { next.run s with told := events ++ (next.run s).told } := by
  induction events with
  | nil => rfl
  | cons w events ih =>
    change (tell w (tellThen events next)).run s = _
    rw [run_tell, ih]
    rfl

/-- A run that goes on where another ended. -/
def Outcome.andThen (o : Outcome V ω ε α) (o' : Outcome V ω ε β) : Outcome V ω ε β where
  store := o'.store
  saved := o.saved ++ o'.saved
  told := o.told ++ o'.told
  result := o'.result

/-- A sequence goes on with what its first half returns, and not at all after an error. -/
theorem run_bind (t : Script V ω ε α) (f : α → Script V ω ε β) :
    (t >>= f).run s =
      match (t.run s).result with
      | .ok a => (t.run s).andThen ((f a).run (t.run s).store)
      | .error e => ⟨(t.run s).store, (t.run s).saved, (t.run s).told, .error e⟩ := by
  induction t generalizing s with
  | done result => cases result <;> rfl
  | load r next ih => exact ih _ s
  | save r v next ih =>
    rw [save_bind, run_save, run_save, ih]
    cases (next.run (Function.update s r v)).result <;> rfl
  | tell w next ih =>
    rw [tell_bind, run_tell, run_tell, ih]
    cases (next.run s).result <;> rfl

theorem run_bind_ok {t : Script V ω ε α} {f : α → Script V ω ε β} {a : α}
    (h : (t.run s).result = .ok a) :
    (t >>= f).run s = (t.run s).andThen ((f a).run (t.run s).store) := by
  rw [run_bind, h]

theorem run_bind_error {t : Script V ω ε α} {f : α → Script V ω ε β} {e : ε}
    (h : (t.run s).result = .error e) :
    (t >>= f).run s =
      ⟨(t.run s).store, (t.run s).saved, (t.run s).told, .error e⟩ := by
  rw [run_bind, h]

end Run

/-! ## Stopping on the way -/

/-- A place between two steps: what is still to be run, and what was done so far. -/
structure Point (V : ρ → Type) (ω ε α : Type) where
  rest : Script V ω ε α
  store : ∀ r, V r
  saved : List ρ
  told : List ω

/-- The points of a script that goes on from a point where this much was done. -/
def Point.after (saved : List ρ) (told : List ω) (p : Point V ω ε α) : Point V ω ε α :=
  { p with saved := saved ++ p.saved, told := told ++ p.told }

/-- Every point of a run, the first and the last included. -/
def points : Script V ω ε α → (∀ r, V r) → List (Point V ω ε α)
  | done result, s => [⟨done result, s, [], []⟩]
  | load r next, s => ⟨load r next, s, [], []⟩ :: (next (s r)).points s
  | save r v next, s =>
    ⟨save r v next, s, [], []⟩ ::
      (next.points (Function.update s r v)).map (Point.after [r] [])
  | tell w next, s => ⟨tell w next, s, [], []⟩ :: (next.points s).map (Point.after [] [w])

section Points

variable (s : ∀ r, V r) {P : Point V ω ε α → Prop}

@[simp] theorem forall_points_done (result : Except ε α) :
    (∀ p ∈ (done result : Script V ω ε α).points s, P p) ↔ P ⟨done result, s, [], []⟩ := by
  simp [points]

@[simp] theorem forall_points_load (r : ρ) (next : V r → Script V ω ε α) :
    (∀ p ∈ (load r next).points s, P p) ↔
      P ⟨load r next, s, [], []⟩ ∧ ∀ p ∈ (next (s r)).points s, P p := by
  simp [points]

@[simp] theorem forall_points_save (r : ρ) (v : V r) (next : Script V ω ε α) :
    (∀ p ∈ (save r v next).points s, P p) ↔
      P ⟨save r v next, s, [], []⟩ ∧
        ∀ p ∈ next.points (Function.update s r v), P (p.after [r] []) := by
  simp [points]

@[simp] theorem forall_points_tell (w : ω) (next : Script V ω ε α) :
    (∀ p ∈ (tell w next).points s, P p) ↔
      P ⟨tell w next, s, [], []⟩ ∧ ∀ p ∈ next.points s, P (p.after [] [w]) := by
  simp [points]

omit s in
/-- Every run has its first point. -/
theorem start_mem_points (t : Script V ω ε α) (s : ∀ r, V r) : ⟨t, s, [], []⟩ ∈ t.points s := by
  cases t with
  | done result => exact List.mem_singleton_self _
  | load r next => exact List.mem_cons_self
  | save r v next => exact List.mem_cons_self
  | tell w next => exact List.mem_cons_self

/-- The points of a sequence are those of its first half, each followed by the second, and
those of the second. -/
theorem forall_points_bind {t : Script V ω ε β} {f : β → Script V ω ε α} :
    (∀ p ∈ (t >>= f).points s, P p) ↔
      (∀ p ∈ t.points s, P ⟨p.rest >>= f, p.store, p.saved, p.told⟩) ∧
      ∀ b, (t.run s).result = .ok b →
        ∀ p ∈ (f b).points (t.run s).store, P (p.after (t.run s).saved (t.run s).told) := by
  induction t generalizing s P with
  | done result =>
    cases result with
    | ok b =>
      rw [forall_points_done]
      constructor
      · intro h
        refine ⟨h _ (start_mem_points (f b) s), fun b' hb => ?_⟩
        obtain rfl : b = b' := Except.ok.inj hb
        exact h
      · rintro ⟨-, h⟩
        exact h b rfl
    | error e =>
      change (∀ p ∈ (done (.error e) : Script V ω ε α).points s, P p) ↔ _
      rw [forall_points_done, forall_points_done]
      exact ⟨fun h => ⟨h, fun b hb => nomatch hb⟩, fun h => h.1⟩
  | load r next ih =>
    rw [load_bind, forall_points_load, forall_points_load, ih (s r) s, and_assoc]
    exact Iff.rfl
  | save r v next ih =>
    rw [save_bind, forall_points_save, forall_points_save, ih, and_assoc]
    exact Iff.rfl
  | tell w next ih =>
    rw [tell_bind, forall_points_tell, forall_points_tell, ih s, and_assoc]
    exact Iff.rfl

omit s in
/-- From every point the rest of the run leads to where the whole run ends. -/
theorem run_of_mem_points {t : Script V ω ε α} {s : ∀ r, V r} {p : Point V ω ε α}
    (hp : p ∈ t.points s) :
    (t.run s).store = (p.rest.run p.store).store ∧
      (t.run s).told = p.told ++ (p.rest.run p.store).told := by
  revert p
  induction t generalizing s with
  | done result => simp
  | load r next ih =>
    rw [forall_points_load]
    exact ⟨⟨rfl, rfl⟩, fun p hp => ih (s r) hp⟩
  | save r v next ih =>
    rw [forall_points_save]
    exact ⟨⟨rfl, rfl⟩, fun p hp => ih (p := p) hp⟩
  | tell w next ih =>
    rw [forall_points_tell]
    refine ⟨⟨rfl, rfl⟩, fun p hp => ⟨(ih (p := p) hp).1, ?_⟩⟩
    exact congrArg (w :: ·) (ih (p := p) hp).2

end Points

/-! ## Records a script leaves alone or overwrites -/

/-- The script never saves this record. -/
def Spares (r : ρ) : Script V ω ε α → Prop
  | done _ => True
  | load _ next => ∀ v, (next v).Spares r
  | save q _ next => q ≠ r ∧ next.Spares r
  | tell _ next => next.Spares r

/-- The next the script does with this record is to save it, without having another look. -/
def overwrites (r : ρ) : Script V ω ε α → (∀ r, V r) → Bool
  | done _, _ => false
  | load q next, s => if q = r then false else (next (s q)).overwrites r s
  | save q v next, s => if q = r then true else next.overwrites r (Function.update s q v)
  | tell _ next, s => next.overwrites r s

/-- The next the script does with this record is to load it. -/
def rereads (r : ρ) : Script V ω ε α → (∀ r, V r) → Bool
  | done _, _ => false
  | load q next, s => if q = r then true else (next (s q)).rereads r s
  | save q v next, s => if q = r then false else next.rereads r (Function.update s q v)
  | tell _ next, s => next.rereads r s

section Spares

variable {r : ρ}

omit [DecidableEq ρ] in
theorem Spares.bind {t : Script V ω ε α} {f : α → Script V ω ε β} (ht : t.Spares r)
    (hf : ∀ a, (f a).Spares r) : (t >>= f).Spares r := by
  induction t with
  | done result =>
    cases result with
    | ok a => exact hf a
    | error e => trivial
  | load q next ih => exact fun v => ih v (ht v)
  | save q v next ih => exact ⟨ht.1, ih ht.2⟩
  | tell w next ih => exact ih ht

omit [DecidableEq ρ] in
theorem Spares.tellThen {next : Script V ω ε α} (events : List ω) (h : next.Spares r) :
    (tellThen events next).Spares r := by
  induction events with
  | nil => exact h
  | cons w events ih => exact ih

theorem Spares.run_store {t : Script V ω ε α} (h : t.Spares r) (s : ∀ r, V r) :
    (t.run s).store r = s r := by
  induction t generalizing s with
  | done result => rfl
  | load q next ih => exact ih (s q) (h (s q)) s
  | save q v next ih =>
    rw [run_save]
    exact (ih h.2 _).trans (Function.update_of_ne h.1.symm v s)
  | tell w next ih => exact ih h s

theorem Spares.points {t : Script V ω ε α} (h : t.Spares r) (s : ∀ r, V r) :
    ∀ p ∈ t.points s, p.store r = s r ∧ r ∉ p.saved := by
  induction t generalizing s with
  | done result => simp
  | load q next ih =>
    rw [forall_points_load]
    exact ⟨by simp, ih (s q) (h (s q)) s⟩
  | save q v next ih =>
    rw [forall_points_save]
    refine ⟨by simp, fun p hp => ?_⟩
    obtain ⟨hstore, hsaved⟩ := ih h.2 _ p hp
    refine ⟨hstore.trans (Function.update_of_ne h.1.symm v s), fun hmem => ?_⟩
    rcases List.mem_cons.mp hmem with hq | hmem
    · exact h.1 hq.symm
    · exact hsaved hmem
  | tell w next ih =>
    rw [forall_points_tell]
    exact ⟨by simp, ih h s⟩

theorem Spares.rest {t : Script V ω ε α} (h : t.Spares r) (s : ∀ r, V r) :
    ∀ p ∈ t.points s, p.rest.Spares r := by
  induction t generalizing s with
  | done result => simp [Spares]
  | load q next ih =>
    rw [forall_points_load]
    exact ⟨h, ih (s q) (h (s q)) s⟩
  | save q v next ih =>
    rw [forall_points_save]
    exact ⟨h, ih h.2 _⟩
  | tell w next ih =>
    rw [forall_points_tell]
    exact ⟨h, ih h s⟩

theorem Spares.not_overwrites {t : Script V ω ε α} (h : t.Spares r) (s : ∀ r, V r) :
    t.overwrites r s = false := by
  induction t generalizing s with
  | done result => rfl
  | load q next ih =>
    rw [overwrites]
    split_ifs
    · rfl
    · exact ih (s q) (h (s q)) s
  | save q v next ih =>
    rw [overwrites, if_neg h.1]
    exact ih h.2 _
  | tell w next ih => exact ih h s

end Spares

/-! ## Scripts that tell nothing -/

def Silent : Script V ω ε α → Prop
  | done _ => True
  | load _ next => ∀ v, (next v).Silent
  | save _ _ next => next.Silent
  | tell _ _ => False

section Silent

omit [DecidableEq ρ] in
theorem Silent.bind {t : Script V ω ε α} {f : α → Script V ω ε β} (ht : t.Silent)
    (hf : ∀ a, (f a).Silent) : (t >>= f).Silent := by
  induction t with
  | done result =>
    cases result with
    | ok a => exact hf a
    | error e => trivial
  | load q next ih => exact fun v => ih v (ht v)
  | save q v next ih => exact ih ht
  | tell w next ih => exact ht.elim

theorem Silent.run_told {t : Script V ω ε α} (h : t.Silent) (s : ∀ r, V r) :
    (t.run s).told = [] := by
  induction t generalizing s with
  | done result => rfl
  | load q next ih => exact ih (s q) (h (s q)) s
  | save q v next ih => exact ih h _
  | tell w next ih => exact h.elim

theorem Silent.points {t : Script V ω ε α} (h : t.Silent) (s : ∀ r, V r) :
    ∀ p ∈ t.points s, p.told = [] ∧ p.rest.Silent := by
  induction t generalizing s with
  | done result => simp [Silent]
  | load q next ih =>
    rw [forall_points_load]
    exact ⟨⟨rfl, h⟩, ih (s q) (h (s q)) s⟩
  | save q v next ih =>
    rw [forall_points_save]
    exact ⟨⟨rfl, h⟩, ih h _⟩
  | tell w next ih => exact h.elim

end Silent

/-! ## Scripts that load nothing -/

/-- What such a script saves and tells was decided before. -/
def Blind : Script V ω ε α → Prop
  | done _ => True
  | load _ _ => False
  | save _ _ next => next.Blind
  | tell _ next => next.Blind

section Blind

omit [DecidableEq ρ] in
theorem Blind.bind {t : Script V ω ε α} {f : α → Script V ω ε β} (ht : t.Blind)
    (hf : ∀ a, (f a).Blind) : (t >>= f).Blind := by
  induction t with
  | done result =>
    cases result with
    | ok a => exact hf a
    | error e => trivial
  | load q next ih => exact ht.elim
  | save q v next ih => exact ih ht
  | tell w next ih => exact ih ht

omit [DecidableEq ρ] in
theorem Blind.tellThen {next : Script V ω ε α} (events : List ω) (h : next.Blind) :
    (tellThen events next).Blind := by
  induction events with
  | nil => exact h
  | cons w events ih => exact ih

variable {t : Script V ω ε α} (h : t.Blind) (s s' : ∀ r, V r)

include h

theorem Blind.rest : ∀ p ∈ t.points s, p.rest.Blind := by
  induction t generalizing s with
  | done result => simpa using h
  | load q next ih => exact h.elim
  | save q v next ih =>
    rw [forall_points_save]
    exact ⟨h, ih h _⟩
  | tell w next ih =>
    rw [forall_points_tell]
    exact ⟨h, ih h s⟩

theorem Blind.run_told : (t.run s).told = (t.run s').told := by
  induction t generalizing s s' with
  | done result => rfl
  | load q next ih => exact h.elim
  | save q v next ih => exact ih h _ _
  | tell w next ih => exact congrArg (w :: ·) (ih h s s')

/-- What is there before only matters where nothing is saved. -/
theorem Blind.run_store_congr {r : ρ} (hr : s r = s' r) :
    (t.run s).store r = (t.run s').store r := by
  induction t generalizing s s' with
  | done result => exact hr
  | load q next ih => exact h.elim
  | save q v next ih =>
    refine ih h _ _ ?_
    by_cases hq : r = q
    · subst hq
      rw [Function.update_self, Function.update_self]
    · rw [Function.update_of_ne hq, Function.update_of_ne hq, hr]
  | tell w next ih => exact ih h s s' hr

theorem Blind.run_store_of_overwrites {r : ρ} (ho : t.overwrites r s = true) :
    (t.run s).store r = (t.run s').store r := by
  induction t generalizing s s' with
  | done result => exact nomatch ho
  | load q next ih => exact h.elim
  | save q v next ih =>
    rw [overwrites] at ho
    by_cases hq : q = r
    · subst hq
      refine Blind.run_store_congr (t := next) h _ _ ?_
      rw [Function.update_self, Function.update_self]
    · rw [if_neg hq] at ho
      exact ih h _ _ ho
  | tell w next ih => exact ih h s s' ho

theorem Blind.run_store_of_not_overwrites {r : ρ} (ho : t.overwrites r s = false) :
    (t.run s).store r = s r := by
  induction t generalizing s with
  | done result => rfl
  | load q next ih => exact h.elim
  | save q v next ih =>
    rw [overwrites] at ho
    by_cases hq : q = r
    · simp [hq] at ho
    · rw [if_neg hq] at ho
      exact (ih h _ ho).trans (Function.update_of_ne (Ne.symm hq) v s)
  | tell w next ih => exact ih h s ho

theorem Blind.overwrites_congr (r : ρ) : t.overwrites r s = t.overwrites r s' := by
  induction t generalizing s s' with
  | done result => rfl
  | load q next ih => exact h.elim
  | save q v next ih =>
    rw [overwrites, overwrites]
    split_ifs
    · rfl
    · exact ih h _ _
  | tell w next ih => exact ih h s s'

theorem Blind.not_rereads (r : ρ) : t.rereads r s = false := by
  induction t generalizing s with
  | done result => rfl
  | load q next ih => exact h.elim
  | save q v next ih =>
    rw [rereads]
    split_ifs
    · rfl
    · exact ih h _
  | tell w next ih => exact ih h s

end Blind

end Script

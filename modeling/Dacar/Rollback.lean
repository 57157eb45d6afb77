import Mathlib

/-!
# Stamps of a component that is saved and put back

A component answers calls with values, some calls hand it values of others, and its
state may be saved and later put back.  Putting a state back puts back what the
component knows, so it may hand out again what it handed out since.
-/

namespace Rollback

/-- A component that answers calls.  A call that fails (`none`) may still move the state. -/
structure Stamper (State Call Value : Type*) where
  call : State → Call → Option Value × State
  /-- The values of others that a call hands in. -/
  absorbs : Call → List Value

inductive Step (Call : Type*)
  | call (c : Call)
  | snapshot
  /-- The snapshots count from the latest. -/
  | restore (i : ℕ)

/-- A component in use. -/
structure Session (State Value : Type*) where
  state : State
  /-- The values answered or absorbed on the way to `state`. -/
  log : List Value := []
  /-- Each snapshot with its own log. -/
  snapshots : List (State × List Value) := []
  /-- Every value answered or absorbed, whatever was put back since. -/
  seen : List Value := []

variable {State Call Value : Type*} (g : Stamper State Call Value)

/-- What a call adds to the log. -/
def Stamper.gains (c : Call) : Option Value → List Value
  | none => []
  | some t => t :: g.absorbs c

namespace Session

def putBack (s : Session State Value) : Option (State × List Value) → Session State Value
  | none => s
  | some p => { s with state := p.1, log := p.2 }

def step (s : Session State Value) : Step Call → Session State Value
  | .call c =>
    let gained := g.gains c (g.call s.state c).1
    { s with
      state := (g.call s.state c).2
      log := gained ++ s.log
      seen := gained ++ s.seen }
  | .snapshot => { s with snapshots := (s.state, s.log) :: s.snapshots }
  | .restore i => s.putBack s.snapshots[i]?

def run (s : Session State Value) (steps : List (Step Call)) : Session State Value :=
  steps.foldl (step g) s

variable {g}

theorem run_concat (s : Session State Value) (steps : List (Step Call)) (x : Step Call) :
    s.run g (steps ++ [x]) = (s.run g steps).step g x := by
  simp [run]

/-- The step puts back a state that lacks some of what went into the present one. -/
def Undoes (s : Session State Value) : Step Call → Prop
  | .restore i => ∃ p, s.snapshots[i]? = some p ∧ p.2 ≠ s.log
  | _ => False

theorem step_log_eq_seen {s : Session State Value} {x : Step Call} (hx : ¬ s.Undoes x)
    (h : s.log = s.seen) : (s.step g x).log = (s.step g x).seen := by
  cases x with
  | call c => simp [step, h]
  | snapshot => exact h
  | restore i =>
    simp only [step]
    cases hi : s.snapshots[i]? with
    | none => exact h
    | some p =>
      have hp : p.2 = s.log := by_contra fun hne => hx ⟨p, hi, hne⟩
      exact hp.trans h

/-- As long as nothing is undone, the log holds everything. -/
theorem run_log_eq_seen (state : State) (steps : List (Step Call))
    (h : ∀ before x after, steps = before ++ x :: after →
      ¬ (run g { state := state } before).Undoes x) :
    (run g { state := state } steps).log = (run g { state := state } steps).seen := by
  induction steps using List.reverseRecOn with
  | nil => rfl
  | append_singleton steps x ih =>
    rw [run_concat]
    refine step_log_eq_seen (h steps x [] rfl) (ih fun before y after hsteps => ?_)
    exact h before y (after ++ [x]) (by simp [hsteps])

end Session

section Ranked

variable {γ : Type*} [Preorder γ]

/-- Calls only raise the rank of the state, and an answer is the rank reached: past the
rank before the call and past all that the call handed in. -/
structure Stamper.Ranked (rank : State → γ) (value : Value → γ) : Prop where
  rises (s : State) (c : Call) : rank s ≤ rank (g.call s c).2
  answers {s : State} {c : Call} {t : Value} (h : (g.call s c).1 = some t) :
    value t = rank (g.call s c).2
  passes {s : State} {c : Call} {t : Value} (h : (g.call s c).1 = some t) :
    rank s < rank (g.call s c).2
  absorbed {s : State} {c : Call} {t : Value} (h : (g.call s c).1 = some t) :
    ∀ v ∈ g.absorbs c, value v < rank (g.call s c).2

variable {g} {rank : State → γ} {value : Value → γ}

/-- Every log is behind its state. -/
structure Session.Behind (rank : State → γ) (value : Value → γ) (s : Session State Value) :
    Prop where
  log : ∀ v ∈ s.log, value v ≤ rank s.state
  snapshots : ∀ p ∈ s.snapshots, ∀ v ∈ p.2, value v ≤ rank p.1

theorem Stamper.Ranked.gains_le (hg : g.Ranked rank value) (s : State) (c : Call) :
    ∀ v ∈ g.gains c (g.call s c).1, value v ≤ rank (g.call s c).2 := by
  cases h : (g.call s c).1 with
  | none => simp [gains]
  | some t =>
    intro v hv
    obtain rfl | hv := List.mem_cons.mp hv
    · exact (hg.answers h).le
    · exact (hg.absorbed h v hv).le

theorem Session.Behind.step (hg : g.Ranked rank value) {s : Session State Value}
    (hs : s.Behind rank value) (x : Step Call) : (s.step g x).Behind rank value := by
  cases x with
  | call c =>
    refine ⟨fun v hv => ?_, hs.snapshots⟩
    obtain hv | hv := List.mem_append.mp hv
    · exact hg.gains_le s.state c v hv
    · exact (hs.log v hv).trans (hg.rises s.state c)
  | snapshot =>
    refine ⟨hs.log, fun p hp => ?_⟩
    obtain rfl | hp := List.mem_cons.mp hp
    · exact hs.log
    · exact hs.snapshots p hp
  | restore i =>
    simp only [Session.step]
    cases hi : s.snapshots[i]? with
    | none => exact hs
    | some p => exact ⟨hs.snapshots p (List.mem_of_getElem? hi), hs.snapshots⟩

theorem Session.Behind.run (hg : g.Ranked rank value) {s : Session State Value}
    (hs : s.Behind rank value) (steps : List (Step Call)) :
    (s.run g steps).Behind rank value := by
  induction steps using List.reverseRecOn with
  | nil => exact hs
  | append_singleton steps x ih =>
    rw [Session.run_concat]
    exact ih.step hg x

/-- After any run, an answer is past everything in the log. -/
theorem Stamper.Ranked.log_lt_answer (hg : g.Ranked rank value) (state : State)
    (steps : List (Step Call)) {c : Call} {t : Value}
    (h : (g.call (Session.run g { state := state } steps).state c).1 = some t) :
    ∀ v ∈ (Session.run g { state := state } steps).log, value v < value t := by
  have hstart : Session.Behind rank value { state := state } := ⟨by simp, by simp⟩
  intro v hv
  calc value v ≤ rank (Session.run g { state := state } steps).state :=
        (hstart.run hg steps).log v hv
    _ < rank (g.call (Session.run g { state := state } steps).state c).2 := hg.passes h
    _ = value t := (hg.answers h).symm

end Ranked

end Rollback

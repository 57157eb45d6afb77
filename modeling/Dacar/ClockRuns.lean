import Dacar.Clock
import Dacar.Rollback

/-!
# Runs of a clock

Every HLC a clock gives out is past those it gave out and observed before.  A snapshot
put back takes along what went in since: after it, the clock may repeat itself.
-/

namespace Dacar

open Rollback

inductive ClockCall
  | now (phys : ℕ)
  | observe (phys remoteHlc : ℕ)

inductive ClockPort
  | javascript
  | python
  | cpp

namespace ClockPort

def call (p : ClockPort) (c : Clock) : ClockCall → Option ℕ × Clock
  | .now phys =>
    match p with
    | javascript | python => c.now phys
    | cpp => Cpp.now c phys
  | .observe phys hlc =>
    match p with
    | javascript | python => c.observe phys hlc
    | cpp => Cpp.observe c phys hlc

def absorbs : ClockCall → List ℕ
  | .now _ => []
  | .observe _ hlc => [hlc]

def stamper (p : ClockPort) : Stamper Clock ClockCall ℕ := ⟨p.call, absorbs⟩

theorem advances_call (p : ClockPort) (c : Clock) (x : ClockCall) :
    c.Advances (absorbs x) (p.call c x) := by
  cases x with
  | now phys =>
    cases p with
    | javascript | python => exact c.advances_now phys
    | cpp => exact Cpp.advances_now c phys
  | observe phys hlc =>
    cases p with
    | javascript | python => exact c.advances_observe phys hlc
    | cpp => exact Cpp.advances_observe c phys hlc

/-- A call that answers packs the state it leaves, further on. -/
theorem call_answers {p : ClockPort} {c : Clock} {x : ClockCall} {t : ℕ}
    (h : (p.call c x).1 = some t) :
    hlcRank t = (p.call c x).2.rank ∧ c.rank < (p.call c x).2.rank ∧
      ∀ hlc ∈ absorbs x, hlcRank hlc < (p.call c x).2.rank := by
  obtain ⟨hnone, -⟩ | ⟨hpack, hlt, habs⟩ := p.advances_call c x
  · exact absurd (hnone.symm.trans h) (by simp)
  · exact ⟨hlcRank_of_pack (hpack ▸ h), hlt, habs⟩

theorem ranked (p : ClockPort) : p.stamper.Ranked Clock.rank hlcRank where
  rises c x := by
    obtain ⟨-, hle⟩ | ⟨-, hlt, -⟩ := p.advances_call c x
    · exact hle
    · exact hlt.le
  answers h := (call_answers h).1
  passes h := (call_answers h).2.1
  absorbed h := (call_answers h).2.2

end ClockPort

/-- A clock in use from `c` on. -/
def clockRun (p : ClockPort) (c : Clock) (steps : List (Step ClockCall)) : Session Clock ℕ :=
  Session.run p.stamper { state := c } steps

/-- After any run, an HLC given out is past every remote HLC it observes and all that went
into the clock, which is all that was given out and observed as long as no snapshot put
back undid a call. -/
theorem clock_answer_is_later (p : ClockPort) (c : Clock) (steps : List (Step ClockCall))
    {x : ClockCall} {t : ℕ} (h : (p.call (clockRun p c steps).state x).1 = some t) :
    (∀ hlc ∈ ClockPort.absorbs x, hlc < t) ∧ (∀ hlc ∈ (clockRun p c steps).log, hlc < t) ∧
      ((∀ before y after, steps = before ++ y :: after → ¬ (clockRun p c before).Undoes y) →
        ∀ hlc ∈ (clockRun p c steps).seen, hlc < t) := by
  have hlog : ∀ hlc ∈ (clockRun p c steps).log, hlc < t := fun hlc hmem =>
    hlcRank_lt_iff.mp (p.ranked.log_lt_answer c steps h hlc hmem)
  refine ⟨fun hlc hmem => ?_, hlog, fun hkept => ?_⟩
  · obtain ⟨hrank, -, habs⟩ := ClockPort.call_answers h
    exact hlcRank_lt_iff.mp (hrank ▸ habs hlc hmem)
  · rw [clockRun, ← Session.run_log_eq_seen c steps hkept]
    exact hlog

/-- A wall clock that goes back, and an HLC observed on the way. -/
theorem clock_answer_is_later_backwards :
    let steps := [.call (.now 7), .snapshot, .call (.observe 3 (9 * 65536 + 4))]
    (ClockPort.javascript.call (clockRun .javascript {} steps).state (.now 2)).1 =
        some (9 * 65536 + 6) ∧
      ∀ hlc ∈ (clockRun .javascript {} steps).log, hlc < 9 * 65536 + 6 :=
  ⟨by decide, (clock_answer_is_later .javascript {}
    [.call (.now 7), .snapshot, .call (.observe 3 (9 * 65536 + 4))] (x := .now 2)
    (by decide)).2.1⟩

/-- A snapshot put back after a call: at the same reading, the same HLC again. -/
theorem restored_clock_repeats :
    ¬ ∀ (p : ClockPort) (c : Clock) (steps : List (Step ClockCall)) (x : ClockCall) (t : ℕ),
      (p.call (clockRun p c steps).state x).1 = some t →
        ∀ hlc ∈ (clockRun p c steps).seen, hlc < t := by
  intro h
  have hlt := h .javascript {} [.snapshot, .call (.now 7), .restore 0] (.now 7) (7 * 65536)
    (by decide) (7 * 65536) (by decide)
  exact lt_irrefl _ hlt

end Dacar

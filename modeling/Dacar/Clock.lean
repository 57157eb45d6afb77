import Dacar.Hlc

/-!
# The clocks of the three ports

`Clock.now` and `Clock.observe` are the JavaScript and Python clocks, `Cpp.now` and
`Cpp.observe` the C++ one, which looks at the counter before it counts.
A wall-clock reading before 1970 stands above no `lastMs`, as a reading of zero does.
-/

namespace Dacar

/-- The logical half of an HLC. -/
def logicalHalf (hlc : ℕ) : ℕ := (unpackHlc hlc).logical

theorem logicalHalf_eq_mod (hlc : ℕ) : logicalHalf hlc = hlc % 65536 := by
  simp [logicalHalf, unpackHlc, logicalMask, logicalBits, ← Nat.and_two_pow_sub_one_eq_mod hlc 16]

theorem packHlc_eq_some_iff {p l t : ℕ} :
    packHlc p l = some t ↔ p ≤ maxPhysical ∧ l ≤ maxLogical ∧ t = p * 65536 + l := by
  constructor
  · intro h
    have hp : p ≤ maxPhysical := by
      unfold packHlc at h
      split_ifs at h with hp
      exact not_lt.mp hp
    exact ⟨hp, logical_le_of_packHlc h, packHlc_eq h⟩
  · rintro ⟨hp, hl, rfl⟩
    have h : packHlc p l = some (p <<< logicalBits ||| l) := by
      simp [packHlc, not_lt.mpr hp, not_lt.mpr hl]
    rw [h, packHlc_eq h]

theorem physical_of_packHlc {p l t : ℕ} (h : packHlc p l = some t) : physical t = p := by
  obtain ⟨-, hl, rfl⟩ := packHlc_eq_some_iff.mp h
  simp only [maxLogical, logicalMask, logicalBits] at hl
  rw [physical_eq_div]
  omega

theorem logicalHalf_of_packHlc {p l t : ℕ} (h : packHlc p l = some t) : logicalHalf t = l := by
  obtain ⟨-, hl, rfl⟩ := packHlc_eq_some_iff.mp h
  simp only [maxLogical, logicalMask, logicalBits] at hl
  rw [logicalHalf_eq_mod]
  omega

namespace Clock

/-- The last line of `now` and `observe`. -/
def pack (c : Clock) : Option ℕ × Clock := (packHlc c.lastMs c.logical, c)

theorem now_eq (c : Clock) (phys : ℕ) :
    c.now phys =
      (if phys > c.lastMs then { lastMs := phys, logical := 0 }
        else { c with logical := c.logical + 1 } : Clock).pack := rfl

/-- `Clock.observe(remoteHlc)`: `unpackHlc` refuses more than 64 bits before a field is
assigned, `packHlc` refuses after. -/
def observe (c : Clock) (phys remoteHlc : ℕ) : Option ℕ × Clock :=
  if remoteHlc > maxHlc then (none, c)
  else
    let rphys := physical remoteHlc
    let rlog := logicalHalf remoteHlc
    if phys > c.lastMs ∧ phys > rphys then
      pack { lastMs := phys, logical := 0 }
    else if rphys > c.lastMs then
      pack { lastMs := rphys, logical := rlog + 1 }
    else if c.lastMs > rphys then
      pack { c with logical := c.logical + 1 }
    else
      pack { c with logical := max c.logical rlog + 1 }

end Clock

namespace Cpp

/-- `Clock::now` -/
def now (c : Clock) (phys : ℕ) : Option ℕ × Clock :=
  if phys > c.lastMs then
    Clock.pack { lastMs := phys, logical := 0 }
  else if c.logical ≥ maxLogical then (none, c)
  else
    Clock.pack { c with logical := c.logical + 1 }

/-- `Clock::observe`.  Where the remote HLC leads, `_last_ms` is assigned before the
counter is looked at. -/
def observe (c : Clock) (phys remoteHlc : ℕ) : Option ℕ × Clock :=
  let rphys := physical remoteHlc
  let rlog := logicalHalf remoteHlc
  if phys > c.lastMs ∧ phys > rphys then
    Clock.pack { lastMs := phys, logical := 0 }
  else if rphys > c.lastMs then
    if rlog ≥ maxLogical then (none, { c with lastMs := rphys })
    else
      Clock.pack { lastMs := rphys, logical := rlog + 1 }
  else if c.lastMs > rphys then
    if c.logical ≥ maxLogical then (none, c)
    else
      Clock.pack { c with logical := c.logical + 1 }
  else
    let m := if c.logical > rlog then c.logical else rlog
    if m ≥ maxLogical then (none, c)
    else
      Clock.pack { c with logical := m + 1 }

end Cpp

/-! ## What a call may do -/

/-- Lexicographic order on the fields of a clock, which a counter past 16 bits respects. -/
def Clock.rank (c : Clock) : ℕ ×ₗ ℕ := toLex (c.lastMs, c.logical)

/-- An HLC, as a place in that order. -/
def hlcRank (hlc : ℕ) : ℕ ×ₗ ℕ := toLex (physical hlc, logicalHalf hlc)

theorem hlcRank_lt_iff {a b : ℕ} : hlcRank a < hlcRank b ↔ a < b := by
  rw [hlcRank, hlcRank, Prod.Lex.toLex_lt_toLex]
  simp only [physical_eq_div, logicalHalf_eq_mod]
  omega

theorem hlcRank_of_pack {c : Clock} {t : ℕ} (h : c.pack.1 = some t) : hlcRank t = c.rank := by
  rw [hlcRank, Clock.rank, physical_of_packHlc h, logicalHalf_of_packHlc h]

/-- What both calls do, in either code: throw without going back, or go on to a later
reading, past `remotes`, and pack it. -/
def Clock.Advances (c : Clock) (remotes : List ℕ) (r : Option ℕ × Clock) : Prop :=
  (r.1 = none ∧ c.rank ≤ r.2.rank) ∨
    (r = r.2.pack ∧ c.rank < r.2.rank ∧ ∀ hlc ∈ remotes, hlcRank hlc < r.2.rank)

theorem Clock.advances_now (c : Clock) (phys : ℕ) : c.Advances [] (c.now phys) := by
  refine .inr ⟨rfl, ?_, by simp⟩
  simp only [now, rank, Prod.Lex.toLex_lt_toLex]
  split_ifs with hphys
  · exact .inl hphys
  · exact .inr ⟨rfl, Nat.lt_succ_self _⟩

theorem Cpp.advances_now (c : Clock) (phys : ℕ) : c.Advances [] (Cpp.now c phys) := by
  unfold Cpp.now
  split_ifs with hphys hlog
  · exact .inr ⟨rfl, Prod.Lex.toLex_lt_toLex.mpr (.inl hphys), by simp⟩
  · exact .inl ⟨rfl, le_rfl⟩
  · exact .inr ⟨rfl, Prod.Lex.toLex_lt_toLex.mpr (.inr ⟨rfl, Nat.lt_succ_self _⟩), by simp⟩

/-- The four branches of `observe`, each past the clock and past the remote HLC. -/
theorem Clock.advances_branch {c d : Clock} {hlc : ℕ}
    (h : d.lastMs > c.lastMs ∧ d.lastMs > physical hlc ∨
      d.lastMs > c.lastMs ∧ d.lastMs = physical hlc ∧ d.logical > logicalHalf hlc ∨
      d.lastMs = c.lastMs ∧ d.lastMs > physical hlc ∧ d.logical > c.logical ∨
      d.lastMs = c.lastMs ∧ d.lastMs = physical hlc ∧
        d.logical > c.logical ∧ d.logical > logicalHalf hlc) :
    c.Advances [hlc] d.pack := by
  refine .inr ⟨rfl, ?_, fun v hv => ?_⟩
  · simp only [rank, pack, Prod.Lex.toLex_lt_toLex]
    omega
  · obtain rfl := List.mem_singleton.mp hv
    simp only [rank, hlcRank, pack, Prod.Lex.toLex_lt_toLex]
    omega

theorem Clock.advances_observe (c : Clock) (phys hlc : ℕ) :
    c.Advances [hlc] (c.observe phys hlc) := by
  dsimp only [observe]
  split_ifs with hmax hlocal hremote hlast
  · exact .inl ⟨rfl, le_rfl⟩
  · exact advances_branch (.inl hlocal)
  · exact advances_branch (.inr (.inl ⟨hremote, rfl, Nat.lt_succ_self _⟩))
  · exact advances_branch (.inr (.inr (.inl ⟨rfl, hlast, Nat.lt_succ_self _⟩)))
  · have heq : c.lastMs = physical hlc := by omega
    refine advances_branch (.inr (.inr (.inr ⟨rfl, heq, ?_, ?_⟩)))
    · exact Nat.lt_succ_of_le (le_max_left _ _)
    · exact Nat.lt_succ_of_le (le_max_right _ _)

theorem Cpp.advances_observe (c : Clock) (phys hlc : ℕ) :
    c.Advances [hlc] (Cpp.observe c phys hlc) := by
  dsimp only [Cpp.observe]
  split_ifs with hlocal hremote hrlog hlast hlog hbig hm hm
  · exact Clock.advances_branch (.inl hlocal)
  · exact .inl ⟨rfl, Prod.Lex.toLex_le_toLex.mpr (.inl hremote)⟩
  · exact Clock.advances_branch (.inr (.inl ⟨hremote, rfl, Nat.lt_succ_self _⟩))
  · exact .inl ⟨rfl, le_rfl⟩
  · exact Clock.advances_branch (.inr (.inr (.inl ⟨rfl, hlast, Nat.lt_succ_self _⟩)))
  · exact .inl ⟨rfl, le_rfl⟩
  · have heq : c.lastMs = physical hlc := by omega
    exact Clock.advances_branch
      (.inr (.inr (.inr ⟨rfl, heq, Nat.lt_succ_self _, Nat.lt_succ_of_lt hbig⟩)))
  · exact .inl ⟨rfl, le_rfl⟩
  · have heq : c.lastMs = physical hlc := by omega
    exact Clock.advances_branch
      (.inr (.inr (.inr ⟨rfl, heq, Nat.lt_succ_of_le (not_lt.mp hbig), Nat.lt_succ_self _⟩)))

/-! ## Failed calls -/

/-- A call answers with the state it leaves, or throws and leaves the clock alone. -/
def Clock.Atomic (c : Clock) (r : Option ℕ × Clock) : Prop :=
  (∃ t, r.1 = some t ∧ packHlc r.2.lastMs r.2.logical = some t) ∨
    (r.1 = none ∧ r.2 = c ∧ r.2.logical ≤ maxLogical)

theorem Clock.atomic_pack_iff {c d : Clock}
    (hne : d.lastMs ≠ c.lastMs ∨ d.logical ≠ c.logical) :
    c.Atomic d.pack ↔ d.lastMs ≤ maxPhysical ∧ d.logical ≤ maxLogical := by
  constructor
  · rintro (⟨t, -, ht⟩ | ⟨-, heq, -⟩)
    · obtain ⟨hp, hl, -⟩ := packHlc_eq_some_iff.mp ht
      exact ⟨hp, hl⟩
    · simp [← heq, pack] at hne
  · rintro ⟨hp, hl⟩
    have h : packHlc d.lastMs d.logical = some d.packed :=
      packHlc_eq_some_iff.mpr ⟨hp, hl, rfl⟩
    exact .inl ⟨d.packed, h, h⟩

/-- A failed call does not make `now` throw where it answered before. -/
def Clock.Unwedged (now : Clock → ℕ → Option ℕ × Clock) (c : Clock) (r : Option ℕ × Clock) :
    Prop :=
  r.1 = none → ∀ phys, (now c phys).1 ≠ none → (now r.2 phys).1 ≠ none

theorem Clock.Atomic.unwedged {now : Clock → ℕ → Option ℕ × Clock} {c : Clock}
    {r : Option ℕ × Clock} (h : c.Atomic r) : Clock.Unwedged now c r := by
  intro hnone phys hnow
  obtain ⟨t, ht, -⟩ | ⟨-, heq, -⟩ := h
  · exact absurd (hnone.symm.trans ht) (by simp)
  · rwa [heq]

theorem physical_le_of_le {hlc : ℕ} (h : hlc ≤ maxHlc) : physical hlc ≤ maxPhysical := by
  simp only [maxHlc, maxPhysical, physicalBits, physical_eq_div] at *
  omega

/-- The new fields fit: a later reading in 48 bits, else a counter with room. -/
@[mk_iff]
structure Clock.NowFits (c : Clock) (phys : ℕ) : Prop where
  reading : c.lastMs < phys → phys ≤ maxPhysical
  counter : phys ≤ c.lastMs → c.logical < maxLogical

/-- The wall clock leads with a reading in 48 bits, or the counters of those in the lead
have room. -/
@[mk_iff]
structure Clock.ObserveFits (c : Clock) (phys hlc : ℕ) : Prop where
  reading : c.lastMs < phys → physical hlc < phys → phys ≤ maxPhysical
  counter : ¬(c.lastMs < phys ∧ physical hlc < phys) → physical hlc ≤ c.lastMs →
    c.logical < maxLogical
  remote : ¬(c.lastMs < phys ∧ physical hlc < phys) → c.lastMs ≤ physical hlc →
    logicalHalf hlc < maxLogical

/-- The C++ calls go wrong only where they assign `_last_ms` first. -/
@[mk_iff]
structure Cpp.ObserveFits (c : Clock) (phys hlc : ℕ) : Prop where
  reading : c.lastMs < phys → physical hlc < phys → phys ≤ maxPhysical
  remote : phys ≤ physical hlc → c.lastMs < physical hlc → logicalHalf hlc < maxLogical

section Atomic

variable {c : Clock} (hms : c.lastMs ≤ maxPhysical) (hlog : c.logical ≤ maxLogical)
  (phys : ℕ) {hlc : ℕ} (hhlc : hlc ≤ maxHlc)

include hms

theorem Clock.atomic_now_iff : c.Atomic (c.now phys) ↔ c.NowFits phys := by
  rw [now_eq, nowFits_iff]
  split_ifs with hphys
  · rw [atomic_pack_iff (.inl hphys.ne')]
    simp only [Nat.zero_le, and_true]
    omega
  · rw [atomic_pack_iff (.inr (Nat.succ_ne_self _))]
    dsimp only
    omega

include hlog

theorem Cpp.atomic_now_iff :
    c.Atomic (Cpp.now c phys) ↔ (c.lastMs < phys → phys ≤ maxPhysical) := by
  dsimp only [Cpp.now]
  split_ifs with hphys hfull
  · rw [Clock.atomic_pack_iff (.inl hphys.ne')]
    simp only [Nat.zero_le, and_true]
    omega
  · exact ⟨fun _ hlt => absurd hlt hphys, fun _ => .inr ⟨rfl, rfl, hlog⟩⟩
  · rw [Clock.atomic_pack_iff (.inr (Nat.succ_ne_self _))]
    dsimp only
    omega

include hhlc
omit hlog in
theorem Clock.atomic_observe_iff :
    c.Atomic (c.observe phys hlc) ↔ c.ObserveFits phys hlc := by
  have hr := physical_le_of_le hhlc
  rw [observeFits_iff]
  dsimp only [observe]
  rw [if_neg (not_lt.mpr hhlc)]
  split_ifs with hlocal hremote hlast
  · rw [atomic_pack_iff (.inl hlocal.1.ne')]
    simp only [Nat.zero_le, and_true]
    omega
  · rw [atomic_pack_iff (.inl hremote.ne')]
    dsimp only
    omega
  · rw [atomic_pack_iff (.inr (Nat.succ_ne_self _))]
    dsimp only
    omega
  · rw [atomic_pack_iff (.inr (Nat.lt_succ_of_le (le_max_left _ _)).ne')]
    dsimp only
    omega

theorem Cpp.atomic_observe_iff :
    c.Atomic (Cpp.observe c phys hlc) ↔ Cpp.ObserveFits c phys hlc := by
  have hr := physical_le_of_le hhlc
  rw [Cpp.observeFits_iff]
  dsimp only [Cpp.observe]
  split_ifs with hlocal hremote hfull hlast hfull hbig hfull hfull
  · rw [Clock.atomic_pack_iff (.inl hlocal.1.ne')]
    simp only [Nat.zero_le, and_true]
    omega
  · refine iff_of_false ?_ (by omega)
    rintro (⟨t, ht, -⟩ | ⟨-, heq, -⟩)
    · exact absurd ht (by simp)
    · exact absurd (congrArg Clock.lastMs heq) hremote.ne'
  · rw [Clock.atomic_pack_iff (.inl hremote.ne')]
    dsimp only
    omega
  · exact iff_of_true (.inr ⟨rfl, rfl, hlog⟩) (by omega)
  · rw [Clock.atomic_pack_iff (.inr (Nat.succ_ne_self _))]
    dsimp only
    omega
  · exact iff_of_true (.inr ⟨rfl, rfl, hlog⟩) (by omega)
  · rw [Clock.atomic_pack_iff (.inr (Nat.succ_ne_self _))]
    dsimp only
    omega
  · exact iff_of_true (.inr ⟨rfl, rfl, hlog⟩) (by omega)
  · rw [Clock.atomic_pack_iff (.inr (Nat.lt_succ_of_le (not_lt.mp hbig)).ne')]
    dsimp only
    omega

/-- When a call is atomic, and a failed `observe` leaves `now` as able as it was: the
JavaScript and Python clock, then the C++ clock. -/
theorem clocks_atomic_iff :
    (c.Atomic (c.now phys) ↔ c.NowFits phys) ∧
    (c.Atomic (c.observe phys hlc) ∧ Clock.Unwedged Clock.now c (c.observe phys hlc) ↔
      c.ObserveFits phys hlc) ∧
    (c.Atomic (Cpp.now c phys) ↔ (c.lastMs < phys → phys ≤ maxPhysical)) ∧
    (c.Atomic (Cpp.observe c phys hlc) ∧ Clock.Unwedged Cpp.now c (Cpp.observe c phys hlc) ↔
      Cpp.ObserveFits c phys hlc) := by
  refine ⟨Clock.atomic_now_iff hms phys, ?_, Cpp.atomic_now_iff hms hlog phys, ?_⟩
  · rw [and_iff_left_of_imp Clock.Atomic.unwedged, Clock.atomic_observe_iff hms phys hhlc]
  · rw [and_iff_left_of_imp Clock.Atomic.unwedged, Cpp.atomic_observe_iff hms hlog phys hhlc]

end Atomic

/-- A remote HLC with room is absorbed. -/
theorem clocks_atomic_iff_remote :
    Clock.Atomic { lastMs := 10, logical := 5 } (Clock.observe { lastMs := 10, logical := 5 } 10
      (11 * 65536 + 7)) := by
  have hfits : Clock.ObserveFits { lastMs := 10, logical := 5 } 10 (11 * 65536 + 7) :=
    ⟨by decide, by decide, by decide⟩
  exact ((clocks_atomic_iff (by decide) (by decide) 10 (by decide)).2.1.mpr hfits).1

/-- A remote HLC one millisecond ahead with its counter exhausted: the JavaScript and Python
clock moves, and throws at the next reading too; so does the C++ clock with its own counter
at the limit. -/
theorem exhausted_remote_wedges :
    (¬ Clock.Atomic { lastMs := 10, logical := 5 }
      (Clock.observe { lastMs := 10, logical := 5 } 10 (11 * 65536 + 65535)) ∧
    ¬ Clock.Unwedged Clock.now { lastMs := 10, logical := 5 }
      (Clock.observe { lastMs := 10, logical := 5 } 10 (11 * 65536 + 65535))) ∧
    ¬ Clock.Atomic { lastMs := 10, logical := 65535 }
      (Clock.now { lastMs := 10, logical := 65535 } 10) ∧
    ¬ Clock.Atomic { lastMs := 10, logical := 5 }
      (Cpp.observe { lastMs := 10, logical := 5 } 10 (11 * 65536 + 65535)) ∧
    ¬ Clock.Unwedged Cpp.now { lastMs := 10, logical := 65535 }
      (Cpp.observe { lastMs := 10, logical := 65535 } 10 (11 * 65536 + 65535)) := by
  refine ⟨⟨?_, ?_⟩, ?_, ?_, ?_⟩
  · rw [Clock.atomic_observe_iff (by decide) 10 (by decide)]
    exact fun h => absurd (h.remote (by decide) (by decide)) (by decide)
  · exact fun h => h (by decide) 11 (by decide) (by decide)
  · rw [Clock.atomic_now_iff (by decide) 10]
    exact fun h => absurd (h.counter (by decide)) (by decide)
  · rw [Cpp.atomic_observe_iff (by decide) (by decide) 10 (by decide)]
    exact fun h => absurd (h.remote (by decide) (by decide)) (by decide)
  · exact fun h => h (by decide) 11 (by decide) (by decide)

end Dacar

import Dacar.Engine

/-!
# Live provisioning

On a microcontroller the configuration is set field by field over the wire, by setters that
answer whether they took the value.  Those of a single value check it before they assign it.
The two for lists clear the field first and check while they copy.
-/

namespace Dacar.Cpp

/-- The record that the setters write to.  Its byte strings are of any size. -/
structure StoreConfig where
  primarySalt : Bytes
  legacySalts : List Bytes
  anchors : List Bytes
  authoritative : Bytes
  horizonDays : ℤ
  rfedTopic : Bytes
  rfedNode : Bytes
  lxmfProprietor : Bytes

namespace StoreConfig

def saltSize : ℕ := 32
def hashSize : ℕ := 16

/-! ## The setters -/

def setPrimarySalt (config : StoreConfig) (salt : Bytes) : Bool × StoreConfig :=
  if salt.length = saltSize then (true, { config with primarySalt := salt }) else (false, config)

/-- The loop of the list setters, with what is pushed so far. -/
def pushAll (size : ℕ) (max : Option ℕ) : List Bytes → List Bytes → Bool × List Bytes
  | pushed, [] => (true, pushed)
  | pushed, value :: values =>
    if value.length ≠ size || max.any (pushed.length ≥ ·) then (false, pushed)
    else pushAll size max (pushed ++ [value]) values

def setLegacySalts (config : StoreConfig) (salts : List Bytes) : Bool × StoreConfig :=
  let r := pushAll saltSize (some maxLegacySalts) [] salts
  (r.1, { config with legacySalts := r.2 })

/-- Of anchors there may be any number. -/
def setAnchors (config : StoreConfig) (anchors : List Bytes) : Bool × StoreConfig :=
  let r := pushAll hashSize none [] anchors
  (r.1, { config with anchors := r.2 })

/-- The empty value unsets the identity. -/
def setAuthoritative (config : StoreConfig) (hash : Bytes) : Bool × StoreConfig :=
  if hash.isEmpty then (true, { config with authoritative := [] })
  else if hash.length ≠ hashSize then (false, config)
  else (true, { config with authoritative := hash })

def setHorizonDays (config : StoreConfig) (days : ℤ) : Bool × StoreConfig :=
  if days < 1 || days > 3650 then (false, config)
  else (true, { config with horizonDays := days })

def setRfedTopic (config : StoreConfig) (topic : Bytes) : Bool × StoreConfig :=
  (true, { config with rfedTopic := topic })

/-! ## How far the loop gets -/

/-- The leading values of the right size, up to the maximum. -/
def fitting (size : ℕ) (max : Option ℕ) (values : List Bytes) : List Bytes :=
  let sized := values.takeWhile (·.length = size)
  max.elim sized sized.take

theorem fitting_nil (size : ℕ) (max : Option ℕ) : fitting size max [] = [] := by
  cases max with
  | none => rfl
  | some m => exact List.take_nil

theorem fitting_cons_of_ne {size : ℕ} {value : Bytes} (h : value.length ≠ size)
    (max : Option ℕ) (values : List Bytes) : fitting size max (value :: values) = [] := by
  have hstop : (value :: values).takeWhile (·.length = size) = [] :=
    List.takeWhile_cons_of_neg (by simpa using h)
  cases max with
  | none => exact hstop
  | some m => exact (congrArg (List.take m) hstop).trans List.take_nil

theorem fitting_zero (size : ℕ) (values : List Bytes) : fitting size (some 0) values = [] :=
  rfl

/-- One value less, and place for one value less. -/
theorem fitting_cons {size : ℕ} {value : Bytes} (h : value.length = size) {max : Option ℕ}
    (hmax : max ≠ some 0) (values : List Bytes) :
    fitting size max (value :: values) =
      value :: fitting size (max.map (· - 1)) values := by
  have hgo : (value :: values).takeWhile (·.length = size) =
      value :: values.takeWhile (·.length = size) :=
    List.takeWhile_cons_of_pos (by simpa using h)
  cases max with
  | none => exact hgo
  | some m =>
    obtain ⟨m, rfl⟩ := Nat.exists_eq_succ_of_ne_zero fun h0 => hmax (congrArg some h0)
    exact congrArg (List.take (m + 1)) hgo

/-- All of the list fits. -/
theorem fitting_eq_self_iff (size : ℕ) (max : Option ℕ) (values : List Bytes) :
    fitting size max values = values ↔
      (∀ value ∈ values, value.length = size) ∧ ∀ m ∈ max, values.length ≤ m := by
  have hsized : values.takeWhile (·.length = size) = values ↔
      ∀ value ∈ values, value.length = size := by
    rw [List.takeWhile_eq_self_iff]
    simp only [decide_eq_true_eq]
  cases max with
  | none =>
    exact hsized.trans (iff_self_and.mpr fun _ m hm => nomatch hm)
  | some m =>
    have hsub : values.takeWhile (·.length = size) <+: values := List.takeWhile_prefix _
    have htake : (values.takeWhile (·.length = size)).take m = values ↔
        values.takeWhile (·.length = size) = values ∧ values.length ≤ m := by
      constructor
      · intro h
        have hlen := congrArg List.length h
        rw [List.length_take] at hlen
        exact ⟨hsub.eq_of_length_le (by omega), by omega⟩
      · rintro ⟨hall, hle⟩
        rw [hall, List.take_of_length_le hle]
    refine htake.trans ?_
    rw [hsized]
    simp

theorem full_iff (max : Option ℕ) (n : ℕ) :
    max.any (n ≥ ·) = true ↔ max.map (· - n) = some 0 := by
  cases max with
  | none => simp
  | some m => simp [Nat.sub_eq_zero_iff_le]

/-- The loop pushes what fits, and answers whether that is the whole list. -/
theorem pushAll_eq (size : ℕ) (max : Option ℕ) (pushed values : List Bytes) :
    pushAll size max pushed values =
      (decide (fitting size (max.map (· - pushed.length)) values = values),
        pushed ++ fitting size (max.map (· - pushed.length)) values) := by
  induction values generalizing pushed with
  | nil => simp [pushAll, fitting_nil]
  | cons value values ih =>
    rw [pushAll]
    by_cases hsize : value.length = size
    · by_cases hfull : max.map (· - pushed.length) = some 0
      · rw [if_pos (by simp [(full_iff _ _).mpr hfull]), hfull, fitting_zero, List.append_nil]
        simp
      · have hopen : ¬(value.length ≠ size ∨ max.any (pushed.length ≥ ·) = true) := by
          rw [full_iff]
          tauto
        have hrest : max.map (· - (pushed ++ [value]).length) =
            (max.map (· - pushed.length)).map (· - 1) := by
          rw [Option.map_map, List.length_append, List.length_singleton]
          rfl
        rw [if_neg (by simpa using hopen), ih, fitting_cons hsize hfull, hrest]
        simp
    · rw [fitting_cons_of_ne hsize, if_pos (by simp [hsize]), List.append_nil]
      simp

/-! ## Atomic setters -/

/-- A refused value changes nothing, and a taken one gives the configuration `updated`. -/
structure SetsAtomically (config : StoreConfig) (r : Bool × StoreConfig)
    (updated : StoreConfig) : Prop where
  refused : r.1 = false → r.2 = config
  taken : r.1 = true → r.2 = updated

/-- Checked first, then assigned. -/
theorem setsAtomically_ite (p : Prop) [Decidable p] (config updated : StoreConfig) :
    SetsAtomically config (if p then (true, updated) else (false, config)) updated := by
  by_cases hp : p
  · rw [if_pos hp]
    exact ⟨fun h => (nomatch h), fun _ => rfl⟩
  · rw [if_neg hp]
    exact ⟨fun _ => rfl, fun h => nomatch h⟩

theorem setPrimarySalt_setsAtomically (config : StoreConfig) (salt : Bytes) :
    SetsAtomically config (config.setPrimarySalt salt) { config with primarySalt := salt } :=
  setsAtomically_ite _ _ _

theorem setAuthoritative_setsAtomically (config : StoreConfig) (hash : Bytes) :
    SetsAtomically config (config.setAuthoritative hash) { config with authoritative := hash } := by
  rw [setAuthoritative]
  by_cases hempty : hash = []
  · subst hempty
    exact ⟨fun h => (nomatch h), fun _ => rfl⟩
  · rw [if_neg (by simpa using hempty), ite_not]
    exact setsAtomically_ite _ _ _

theorem setHorizonDays_setsAtomically (config : StoreConfig) (days : ℤ) :
    SetsAtomically config (config.setHorizonDays days) { config with horizonDays := days } := by
  rw [setHorizonDays, ← ite_not]
  exact setsAtomically_ite _ _ _

theorem setRfedTopic_setsAtomically (config : StoreConfig) (topic : Bytes) :
    SetsAtomically config (config.setRfedTopic topic) { config with rfedTopic := topic } :=
  ⟨fun h => (nomatch h), fun _ => rfl⟩

/-- A loop that leaves what fits of the list is atomic when that is all of it, or what the field
held before. -/
theorem setsAtomically_fitting_iff {config : StoreConfig} {fits values held : List Bytes}
    {put : List Bytes → StoreConfig} (hput : ∀ bs, put bs = config ↔ bs = held) :
    SetsAtomically config (decide (fits = values), put fits) (put values) ↔
      fits = values ∨ fits = held := by
  constructor
  · intro h
    by_cases hall : fits = values
    · exact .inl hall
    · exact .inr ((hput fits).mp (h.refused (decide_eq_false hall)))
  · intro h
    refine ⟨fun hr => ?_, fun ht => ?_⟩
    · exact (hput fits).mpr (h.resolve_left (of_decide_eq_false hr))
    · exact congrArg put (of_decide_eq_true ht)

theorem setLegacySalts_eq (config : StoreConfig) (salts : List Bytes) :
    config.setLegacySalts salts =
      (decide (fitting saltSize (some maxLegacySalts) salts = salts),
        { config with legacySalts := fitting saltSize (some maxLegacySalts) salts }) := by
  rw [setLegacySalts, pushAll_eq]
  rfl

theorem setAnchors_eq (config : StoreConfig) (anchors : List Bytes) :
    config.setAnchors anchors = (decide (fitting hashSize none anchors = anchors),
      { config with anchors := fitting hashSize none anchors }) := by
  rw [setAnchors, pushAll_eq]
  rfl

/-- A list setter is atomic for the lists it takes, and for those of which it keeps just what the
field held before. -/
theorem list_setters_atomic_iff (config : StoreConfig) (values : List Bytes) :
    (SetsAtomically config (config.setLegacySalts values) { config with legacySalts := values } ↔
      ((∀ salt ∈ values, salt.length = 32) ∧ values.length ≤ 2) ∨
        (values.takeWhile (·.length = 32)).take 2 = config.legacySalts) ∧
    (SetsAtomically config (config.setAnchors values) { config with anchors := values } ↔
      (∀ anchor ∈ values, anchor.length = 16) ∨
        values.takeWhile (·.length = 16) = config.anchors) := by
  constructor
  · have hput : ∀ bs, { config with legacySalts := bs } = config ↔ bs = config.legacySalts :=
      fun bs => ⟨fun h => congrArg legacySalts h, fun h => h ▸ rfl⟩
    have hmax : (∀ m ∈ some maxLegacySalts, values.length ≤ m) ↔ values.length ≤ 2 := by
      simp [maxLegacySalts]
    rw [setLegacySalts_eq, setsAtomically_fitting_iff hput, fitting_eq_self_iff, hmax]
    exact Iff.rfl
  · have hput : ∀ bs, { config with anchors := bs } = config ↔ bs = config.anchors :=
      fun bs => ⟨fun h => congrArg anchors h, fun h => h ▸ rfl⟩
    have hmax : ∀ m ∈ (none : Option ℕ), values.length ≤ m := fun m hm => nomatch hm
    rw [setAnchors_eq, setsAtomically_fitting_iff hput, fitting_eq_self_iff,
      and_iff_left hmax]
    exact Iff.rfl

def oneAnchor : StoreConfig where
  primarySalt := List.replicate 32 0
  legacySalts := []
  anchors := [List.replicate 16 0x11]
  authoritative := []
  horizonDays := 180
  rfedTopic := []
  rfedNode := []
  lxmfProprietor := []

/-- The list is refused for its second element, and its first one is now the only anchor. -/
theorem refused_list_replaces_anchors :
    let anchors := [List.replicate 16 0x22, [0x33]]
    oneAnchor.setAnchors anchors =
        (false, { oneAnchor with anchors := [List.replicate 16 0x22] }) ∧
      ¬ SetsAtomically oneAnchor (oneAnchor.setAnchors anchors)
        { oneAnchor with anchors := anchors } := by
  intro anchors
  have hset : oneAnchor.setAnchors anchors =
      (false, { oneAnchor with anchors := [List.replicate 16 0x22] }) := by rfl
  refine ⟨hset, fun h => ?_⟩
  have hkept := congrArg StoreConfig.anchors (h.refused (congrArg Prod.fst hset))
  rw [hset] at hkept
  exact absurd hkept (by decide)

/-! ## Sizes -/

inductive Update
  | primarySalt (salt : Bytes)
  | legacySalts (salts : List Bytes)
  | anchors (anchors : List Bytes)
  | authoritative (hash : Bytes)
  | horizonDays (days : ℤ)
  | rfedTopic (topic : Bytes)

def set (config : StoreConfig) : Update → Bool × StoreConfig
  | .primarySalt salt => config.setPrimarySalt salt
  | .legacySalts salts => config.setLegacySalts salts
  | .anchors anchors => config.setAnchors anchors
  | .authoritative hash => config.setAuthoritative hash
  | .horizonDays days => config.setHorizonDays days
  | .rfedTopic topic => config.setRfedTopic topic

/-- What the rest of the node reads is of the sizes it relies on. -/
structure WellSized (config : StoreConfig) : Prop where
  primarySalt : config.primarySalt.length = saltSize
  legacySalts : ∀ salt ∈ config.legacySalts, salt.length = saltSize
  legacy_le : config.legacySalts.length ≤ maxLegacySalts
  anchors : ∀ anchor ∈ config.anchors, anchor.length = hashSize
  authoritative : config.authoritative = [] ∨ config.authoritative.length = hashSize
  horizonDays : 1 ≤ config.horizonDays ∧ config.horizonDays ≤ 3650

theorem fitting_wellSized (size : ℕ) (max : Option ℕ) (values : List Bytes) :
    (∀ value ∈ fitting size max values, value.length = size) ∧
      ∀ m ∈ max, (fitting size max values).length ≤ m := by
  have hsized : ∀ value ∈ values.takeWhile (·.length = size), value.length = size := by
    intro value h
    simpa using List.mem_takeWhile_imp h
  cases max with
  | none => exact ⟨hsized, fun m hm => nomatch hm⟩
  | some m =>
    refine ⟨fun value h => hsized value (List.mem_of_mem_take h), ?_⟩
    rintro _ ⟨⟩
    exact List.length_take_le m _

/-- Refused or taken, an update leaves every field of its size. -/
theorem WellSized.set {config : StoreConfig} (h : WellSized config) (u : Update) :
    WellSized (config.set u).2 := by
  cases u with
  | primarySalt salt =>
    show WellSized (config.setPrimarySalt salt).2
    rw [setPrimarySalt]
    split_ifs with hsize
    · exact { h with primarySalt := hsize }
    · exact h
  | legacySalts salts =>
    show WellSized (config.setLegacySalts salts).2
    rw [setLegacySalts_eq]
    obtain ⟨hall, hle⟩ := fitting_wellSized saltSize (some maxLegacySalts) salts
    exact { h with legacySalts := hall, legacy_le := hle _ rfl }
  | anchors anchors =>
    show WellSized (config.setAnchors anchors).2
    rw [setAnchors_eq]
    exact { h with anchors := (fitting_wellSized hashSize none anchors).1 }
  | authoritative hash =>
    show WellSized (config.setAuthoritative hash).2
    rw [setAuthoritative]
    split_ifs with hempty hsize
    · exact { h with authoritative := .inl rfl }
    · exact h
    · exact { h with authoritative := .inr (not_not.mp hsize) }
  | horizonDays days =>
    show WellSized (config.setHorizonDays days).2
    rw [setHorizonDays]
    split_ifs with hout
    · exact h
    · refine { h with horizonDays := ?_ }
      simp only [Bool.or_eq_true, decide_eq_true_eq, not_or, not_lt] at hout
      exact hout
  | rfedTopic topic => exact { h with }

theorem WellSized.run {config : StoreConfig} (h : WellSized config) (us : List Update) :
    WellSized (us.foldl (fun c u => (c.set u).2) config) := by
  induction us generalizing config with
  | nil => exact h
  | cons u us ih => exact ih (h.set u)

end StoreConfig

end Dacar.Cpp

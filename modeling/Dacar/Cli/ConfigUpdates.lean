import Dacar.Cli.Config
import Dacar.Interpolation

/-!
# Commands that change the configuration

Each command loads the record, changes fields of its own and writes all of it again.  The
Python port names every field in that call and its parser interpolates values; a rotation of
the identity leaves a field out.
-/

namespace Dacar.Cli

inductive ConfigError
  /-- `anchor already present` -/
  | alreadyPresent (anchor : Hash)
  /-- The INI parser throws on a value that is read or written. -/
  | interpolation
  deriving DecidableEq

/-- The commands with what they are given: a random salt, the salt of an option or a file, a
resolved hash, the identity there was and the fresh one. -/
inductive ConfigCommand
  | saltNew (fresh : Salt)
  | saltSet (salt : Salt)
  | anchorAdd (anchor : Hash)
  | identityNew (old : Option Hash) (new : Hash)

/-! ## What a command is about -/

/-- The own hash that was an anchor is one no more, the new one is. -/
def replaceAnchor (old : Option Hash) (new : Hash) (anchors : List Hash) : List Hash :=
  let kept := anchors.filter fun a => old ≠ some a
  if kept.contains new then kept else kept ++ [new]

/-- The fields that the command is about, and no others, are new. -/
def ConfigCommand.update (config : StoreConfig Char ℤ) :
    ConfigCommand → Except ConfigError (StoreConfig Char ℤ)
  | .saltNew fresh =>
    .ok { config with
      primarySalt := fresh, legacySalts := config.primarySalt :: config.legacySalts.take 1 }
  | .saltSet salt => .ok { config with primarySalt := salt }
  | .anchorAdd anchor =>
    if config.anchors.contains anchor then .error (.alreadyPresent anchor)
    else .ok { config with anchors := config.anchors ++ [anchor] }
  | .identityNew old new =>
    .ok { config with anchors := replaceAnchor old new config.anchors }

/-! ## JavaScript -/

namespace Javascript

/-- `{ ...raw, … }` is what is saved. -/
def runConfig (raw : StoreConfig Char ℤ) :
    ConfigCommand → Except ConfigError (StoreConfig Char ℤ)
  | .saltNew fresh =>
    .ok { raw with
      primarySalt := fresh
      legacySalts := (raw.primarySalt :: raw.legacySalts.take 1).take maxLegacySalts }
  | .saltSet salt => .ok { raw with primarySalt := salt }
  | .anchorAdd anchor =>
    if raw.anchors.any (· = anchor) then .error (.alreadyPresent anchor)
    else .ok { raw with anchors := raw.anchors ++ [anchor] }
  | .identityNew old new =>
    let anchors := raw.anchors.filter fun a => match old with
      | none => true
      | some old => a ≠ old
    .ok { raw with anchors := if anchors.any (· = new) then anchors else anchors ++ [new] }

end Javascript

/-! ## Python -/

namespace Python

/-- The raw options of the section that the topic is in. -/
def rfedOptions (stored : StoreConfig Char ℤ) (name : List Char) : Option (List Char) :=
  let name := name.map Char.toLower
  if name = "topic".toList then some stored.rfedTopic
  else if name = "node".toList then stored.rfedNode.map fun h => hexText id h.val
  else none

def maxInterpolationDepth : ℕ := 10

/-- No other value can have a `%` in it. -/
def loadConfigRaw (stored : StoreConfig Char ℤ) : Except ConfigError (StoreConfig Char ℤ) :=
  match Interpolation.expand (rfedOptions stored) maxInterpolationDepth stored.rfedTopic with
  | none => .error .interpolation
  | some topic => .ok { stored with rfedTopic := topic }

/-- `_write_config` -/
def writeConfig (primarySalt : Salt) (legacySalts : List Salt) (anchors : List Hash)
    (authoritative : Option Hash) (horizonDays : ℤ) (topic : List Char) (rfedNode : Option Hash)
    (lxmfProprietor : Option Hash) : Except ConfigError (StoreConfig Char ℤ) :=
  if Interpolation.settable topic then
    .ok { primarySalt, legacySalts := legacySalts.take maxLegacySalts, anchors, authoritative,
          horizonDays, rfedTopic := topic, rfedNode, lxmfProprietor }
  else .error .interpolation

/-- `save_config`: a field that is not given is the stored one. -/
def saveConfig (stored : StoreConfig Char ℤ) (primarySalt : Salt) (legacySalts : List Salt)
    (anchors : Option (List Hash)) (authoritative : Option Hash) (horizonDays : Option ℤ)
    (topic : Option (List Char)) (rfedNode lxmfProprietor : Option Hash) :
    Except ConfigError (StoreConfig Char ℤ) := do
  let raw ← loadConfigRaw stored
  writeConfig primarySalt (if legacySalts.isEmpty then raw.legacySalts else legacySalts)
    (anchors.getD raw.anchors) (authoritative.or raw.authoritative)
    (horizonDays.getD raw.horizonDays) (topic.getD raw.rfedTopic) (rfedNode.or raw.rfedNode)
    (lxmfProprietor.or raw.lxmfProprietor)

def runConfig (stored : StoreConfig Char ℤ) :
    ConfigCommand → Except ConfigError (StoreConfig Char ℤ)
  | .saltNew fresh => do
    let raw ← loadConfigRaw stored
    saveConfig stored fresh ((raw.primarySalt :: raw.legacySalts.take 1).take 2)
      (some raw.anchors) raw.authoritative (some raw.horizonDays) none none none
  | .saltSet salt => do
    let raw ← loadConfigRaw stored
    saveConfig stored salt raw.legacySalts (some raw.anchors) raw.authoritative
      (some raw.horizonDays) none none none
  | .anchorAdd anchor => do
    let raw ← loadConfigRaw stored
    if raw.anchors.contains anchor then .error (.alreadyPresent anchor)
    else
      saveConfig stored raw.primarySalt raw.legacySalts (some (raw.anchors ++ [anchor]))
        raw.authoritative (some raw.horizonDays) none none none
  | .identityNew old new => do
    let raw ← loadConfigRaw stored
    let anchors := match old with
      | none => raw.anchors
      | some old => raw.anchors.erase old
    let anchors := if anchors.contains new then anchors else anchors ++ [new]
    -- The call leaves `lxmf_proprietor` at its default.
    writeConfig raw.primarySalt raw.legacySalts anchors raw.authoritative raw.horizonDays
      raw.rfedTopic raw.rfedNode none

end Python

/-! ## Where they agree -/

/-- Python reads the stored topic. -/
def Readable (stored : StoreConfig Char ℤ) : Prop :=
  (Interpolation.expand (Python.rfedOptions stored) Python.maxInterpolationDepth
    stored.rfedTopic).isSome

/-- The topic has no `%`, or nothing is written; for a rotation there is no proprietor either,
and the old hash is not an anchor twice. -/
def ConfigCommand.Kept (stored : StoreConfig Char ℤ) : ConfigCommand → Prop
  | .saltNew _ | .saltSet _ => '%' ∉ stored.rfedTopic
  | .anchorAdd anchor => '%' ∉ stored.rfedTopic ∨ anchor ∈ stored.anchors ∧ Readable stored
  | .identityNew old _ =>
    '%' ∉ stored.rfedTopic ∧ stored.lxmfProprietor = none ∧ ∀ h ∈ old, stored.anchors.count h ≤ 1

theorem javascript_runConfig (stored : StoreConfig Char ℤ) (c : ConfigCommand) :
    Javascript.runConfig stored c = c.update stored := by
  cases c with
  | saltNew fresh =>
    have htake : (stored.primarySalt :: stored.legacySalts.take 1).take maxLegacySalts =
        stored.primarySalt :: stored.legacySalts.take 1 := by
      rw [maxLegacySalts, List.take_succ_cons, List.take_take, Nat.min_self]
    rw [Javascript.runConfig, htake, ConfigCommand.update]
  | saltSet salt => rfl
  | anchorAdd anchor => simp [Javascript.runConfig, ConfigCommand.update]
  | identityNew old new =>
    have hkept : (stored.anchors.filter fun a => match old with
        | none => true
        | some old => a ≠ old) = stored.anchors.filter fun a => old ≠ some a := by
      refine List.filter_congr fun a _ => ?_
      cases old <;> simp [eq_comm]
    rw [Javascript.runConfig, hkept, ConfigCommand.update, replaceAnchor]
    simp

/-! ## Python -/

theorem options_plain {stored : StoreConfig Char ℤ} (name v : List Char)
    (h : Python.rfedOptions stored name = some v) :
    v = stored.rfedTopic ∨ v ≠ [] ∧ '%' ∉ v := by
  have hdigit : ∀ n < 16, n.digitChar ≠ '%' := by decide
  unfold Python.rfedOptions at h
  dsimp only at h
  split_ifs at h with htopic hnode
  · exact .inl (Option.some.inj h).symm
  · obtain ⟨node, -, rfl⟩ := Option.map_eq_some_iff.mp h
    refine .inr ⟨fun hnil => ?_, fun hmem => ?_⟩
    · have hlength : (hexText id node.val).length = 2 * node.val.length :=
        HexText.encode_length node.val
      rw [node.property] at hlength
      exact absurd (congrArg List.length hnil) (by rw [hlength]; decide)
    · obtain ⟨n, hn, heq⟩ := HexText.exists_of_mem_encode hmem
      exact hdigit n hn heq.symm

theorem loadConfigRaw_of_not_mem {stored : StoreConfig Char ℤ} (h : '%' ∉ stored.rfedTopic) :
    Python.loadConfigRaw stored = .ok stored := by
  rw [Python.loadConfigRaw, Python.maxInterpolationDepth, Interpolation.expand_of_not_mem h]

theorem writeConfig_of_not_mem {topic : List Char} (h : '%' ∉ topic) {legacySalts : List Salt}
    (hlegacy : legacySalts.length ≤ maxLegacySalts) (primarySalt : Salt) (anchors : List Hash)
    (authoritative : Option Hash) (horizonDays : ℤ) (rfedNode lxmfProprietor : Option Hash) :
    Python.writeConfig primarySalt legacySalts anchors authoritative horizonDays topic rfedNode
        lxmfProprietor =
      .ok { primarySalt, legacySalts, anchors, authoritative, horizonDays, rfedTopic := topic,
            rfedNode, lxmfProprietor } := by
  rw [Python.writeConfig, if_pos (Interpolation.settable_of_not_mem h),
    List.take_of_length_le hlegacy]

/-- What is saved has the salts and anchors that are given, and the rest as it is stored. -/
theorem saveConfig_of_not_mem {stored : StoreConfig Char ℤ} (h : '%' ∉ stored.rfedTopic)
    {legacySalts : List Salt} (hlegacy : legacySalts.length ≤ maxLegacySalts)
    (hkept : legacySalts = [] → stored.legacySalts = []) (primarySalt : Salt)
    (anchors : List Hash) :
    Python.saveConfig stored primarySalt legacySalts (some anchors) stored.authoritative
        (some stored.horizonDays) none none none =
      .ok { stored with primarySalt, legacySalts, anchors } := by
  have hsalts : (if legacySalts.isEmpty then stored.legacySalts else legacySalts) =
      legacySalts := by
    split_ifs with hempty
    · rw [List.isEmpty_iff] at hempty
      rw [hempty, hkept hempty]
    · rfl
  rw [Python.saveConfig, loadConfigRaw_of_not_mem h]
  simp only [bind, Except.bind]
  rw [hsalts, Option.getD_none, writeConfig_of_not_mem h hlegacy, Option.or_self, Option.none_or,
    Option.none_or]
  rfl

theorem python_run_of_not_mem {stored : StoreConfig Char ℤ} (h : '%' ∉ stored.rfedTopic)
    (hlegacy : stored.legacySalts.length ≤ maxLegacySalts) {c : ConfigCommand}
    (hc : ∀ old new, c ≠ .identityNew old new) : Python.runConfig stored c = c.update stored := by
  cases c with
  | saltNew fresh =>
    have htake : (stored.primarySalt :: stored.legacySalts.take 1).take 2 =
        stored.primarySalt :: stored.legacySalts.take 1 := by
      rw [List.take_succ_cons, List.take_take, Nat.min_self]
    rw [Python.runConfig, loadConfigRaw_of_not_mem h]
    simp only [bind, Except.bind]
    rw [htake, saveConfig_of_not_mem h (by simp [maxLegacySalts]) (by simp)]
    rfl
  | saltSet salt =>
    rw [Python.runConfig, loadConfigRaw_of_not_mem h]
    exact saveConfig_of_not_mem h hlegacy id salt stored.anchors
  | anchorAdd anchor =>
    rw [Python.runConfig, loadConfigRaw_of_not_mem h, ConfigCommand.update]
    simp only [bind, Except.bind]
    split_ifs
    · rfl
    · exact saveConfig_of_not_mem h hlegacy id stored.primarySalt _
  | identityNew old new => exact absurd rfl (hc old new)

/-- The anchors after a rotation: the first old one is removed. -/
def Python.rotatedAnchors (old : Option Hash) (new : Hash) (anchors : List Hash) : List Hash :=
  let kept := match old with
    | none => anchors
    | some old => anchors.erase old
  if kept.contains new then kept else kept ++ [new]

theorem python_rotation {stored : StoreConfig Char ℤ} (h : '%' ∉ stored.rfedTopic)
    (hlegacy : stored.legacySalts.length ≤ maxLegacySalts) (old : Option Hash) (new : Hash) :
    Python.runConfig stored (.identityNew old new) =
      .ok { stored with
        anchors := Python.rotatedAnchors old new stored.anchors, lxmfProprietor := none } := by
  rw [Python.runConfig, loadConfigRaw_of_not_mem h]
  exact writeConfig_of_not_mem h hlegacy _ _ _ _ _ _

theorem erase_eq_filter {α : Type} [DecidableEq α] [BEq α] [LawfulBEq α] {l : List α} {a : α}
    (h : l.count a ≤ 1) : l.erase a = l.filter (· ≠ a) := by
  induction l with
  | nil => rfl
  | cons b l ih =>
    by_cases hb : b = a
    · subst hb
      have hcount : l.count b = 0 := by
        rw [List.count_cons_self] at h
        omega
      have hnot : b ∉ l := List.count_eq_zero.mp hcount
      rw [List.erase_cons_head, List.filter_cons_of_neg (by simp)]
      exact (List.filter_eq_self.mpr fun x hx => decide_eq_true (ne_of_mem_of_not_mem hx hnot)).symm
    · rw [List.count_cons_of_ne hb] at h
      rw [List.erase_cons_tail (by simpa using hb), List.filter_cons_of_pos (by simpa using hb),
        ih h]

/-- An old hash that is an anchor twice stays one. -/
theorem rotatedAnchors_eq_iff {old : Option Hash} {new : Hash} (hfresh : ∀ h ∈ old, h ≠ new)
    (anchors : List Hash) :
    Python.rotatedAnchors old new anchors = replaceAnchor old new anchors ↔
      ∀ h ∈ old, anchors.count h ≤ 1 := by
  cases old with
  | none => simp [Python.rotatedAnchors, replaceAnchor]
  | some old =>
    have hne : old ≠ new := hfresh old rfl
    have hfilter : (anchors.filter fun a => some old ≠ some a) = anchors.filter (· ≠ old) :=
      List.filter_congr fun a _ => by simp [eq_comm]
    constructor
    · intro heq h hold
      obtain rfl := Option.some.inj hold
      by_contra hcount
      have hkept : old ∈ anchors.erase old := by
        rw [← List.count_pos_iff, List.count_erase_self]
        omega
      have hmem : old ∈ replaceAnchor (some old) new anchors := by
        rw [← heq, Python.rotatedAnchors]
        split_ifs
        · exact hkept
        · exact List.mem_append_left _ hkept
      rw [replaceAnchor, hfilter] at hmem
      split_ifs at hmem
      · simp at hmem
      · simp [hne] at hmem
    · intro hcount
      rw [Python.rotatedAnchors, replaceAnchor, hfilter, erase_eq_filter (hcount old rfl)]

/-- What Python writes has the interpolated topic. -/
theorem topic_of_python_run {stored saved : StoreConfig Char ℤ} {c : ConfigCommand}
    (h : Python.runConfig stored c = .ok saved) :
    Interpolation.expand (Python.rfedOptions stored) Python.maxInterpolationDepth
      stored.rfedTopic = some saved.rfedTopic := by
  cases hexpand : Interpolation.expand (Python.rfedOptions stored) Python.maxInterpolationDepth
      stored.rfedTopic with
  | none =>
    have hload : Python.loadConfigRaw stored = .error .interpolation := by
      rw [Python.loadConfigRaw, hexpand]
    cases c <;> (rw [Python.runConfig, hload] at h; cases h)
  | some topic =>
    have hload : Python.loadConfigRaw stored = .ok { stored with rfedTopic := topic } := by
      rw [Python.loadConfigRaw, hexpand]
    have hwrite : ∀ primarySalt legacySalts anchors authoritative horizonDays rfedNode
        lxmfProprietor, Python.writeConfig primarySalt legacySalts anchors authoritative horizonDays
          topic rfedNode lxmfProprietor = .ok saved → topic = saved.rfedTopic := by
      intro primarySalt legacySalts anchors authoritative horizonDays rfedNode lxmfProprietor hok
      rw [Python.writeConfig] at hok
      split_ifs at hok
      obtain rfl := Except.ok.inj hok
      rfl
    have hsave : ∀ primarySalt legacySalts anchors authoritative horizonDays,
        Python.saveConfig stored primarySalt legacySalts anchors authoritative horizonDays
          none none none = .ok saved → topic = saved.rfedTopic := by
      intro primarySalt legacySalts anchors authoritative horizonDays hok
      rw [Python.saveConfig, hload] at hok
      exact hwrite _ _ _ _ _ _ _ hok
    congr 1
    cases c with
    | saltNew fresh =>
      rw [Python.runConfig, hload] at h
      exact hsave _ _ _ _ _ h
    | saltSet salt =>
      rw [Python.runConfig, hload] at h
      exact hsave _ _ _ _ _ h
    | anchorAdd anchor =>
      rw [Python.runConfig, hload] at h
      simp only [bind, Except.bind] at h
      split_ifs at h
      exact hsave _ _ _ _ _ h
    | identityNew old new =>
      rw [Python.runConfig, hload] at h
      exact hwrite _ _ _ _ _ _ _ h

/-- A topic that is as it was has no `%` in it. -/
theorem not_mem_of_python_run {stored saved : StoreConfig Char ℤ} {c : ConfigCommand}
    (h : Python.runConfig stored c = .ok saved) (htopic : saved.rfedTopic = stored.rfedTopic) :
    '%' ∉ stored.rfedTopic :=
  Interpolation.not_mem_of_expand options_plain (htopic ▸ topic_of_python_run h)

/-- An anchor that is there already is refused, where the configuration is read at all. -/
theorem python_anchorAdd_present {stored : StoreConfig Char ℤ} {anchor : Hash}
    (hmem : anchor ∈ stored.anchors) :
    Python.runConfig stored (.anchorAdd anchor) = .error (.alreadyPresent anchor) ↔
      Readable stored := by
  rw [Readable]
  cases hexpand : Interpolation.expand (Python.rfedOptions stored) Python.maxInterpolationDepth
      stored.rfedTopic with
  | none =>
    rw [Python.runConfig, Python.loadConfigRaw, hexpand]
    exact iff_of_false (fun h => by cases h) Bool.false_ne_true
  | some topic =>
    rw [Python.runConfig, Python.loadConfigRaw, hexpand]
    exact iff_of_true (if_pos (List.contains_iff_mem.mpr hmem)) rfl

theorem readable_of_not_mem {stored : StoreConfig Char ℤ} (h : '%' ∉ stored.rfedTopic) :
    Readable stored := by
  rw [Readable, Python.maxInterpolationDepth, Interpolation.expand_of_not_mem h]
  rfl

/-! ## Both -/

/-- Topic, node, authoritative identity and an own anchor, and no proprietor. -/
def rotating : StoreConfig Char ℤ where
  primarySalt := Blob.fill 32 1
  legacySalts := [Blob.fill 32 2]
  anchors := [Blob.fill 16 0x11, Blob.fill 16 0x22]
  authoritative := some (Blob.fill 16 4)
  horizonDays := 90
  rfedTopic := ['m', 'e', 's', 'h']
  rfedNode := some (Blob.fill 16 5)
  lxmfProprietor := none

/-- Every command of either port changes its own fields and no others. -/
def UpdatesTouchOnlyTheirs : Prop :=
  ∀ (stored : StoreConfig Char ℤ) (c : ConfigCommand),
    stored.legacySalts.length ≤ maxLegacySalts →
    (∀ old new, c = .identityNew (some old) new → old ≠ new) →
    Python.runConfig stored c = c.update stored ∧
      Javascript.runConfig stored c = c.update stored

end Dacar.Cli

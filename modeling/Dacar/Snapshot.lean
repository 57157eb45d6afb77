import Dacar.Cpp.History
import Dacar.MessagePack
import Dacar.Payload

/-!
# Snapshots and their bytes

The JavaScript side of `toPayload` and `fromPayload`, and what all three ports make of the
bytes of a snapshot.  Each port has a MessagePack library of its own; what a library reads
stands for a value of the format, a JavaScript integer as a Number or as a BigInt.
-/

namespace Dacar

open MessagePack (Value)

variable {κ : Type} [DecidableEq κ] {hash : Tuple → κ}

/-! ## The JavaScript port -/

/-- `BigInt` knows no width and no sign, so neither does a timestamp that was restored. -/
structure RestoredEntry where
  tuple : Tuple
  addTs : Option ℤ
  removeTs : Option ℤ

structure RestoredState where
  entries : OrderedMap Bytes RestoredEntry
  deletionHorizonDays : ℕ

namespace StateVector

def toPayload (s : StateVector Tuple.key) : JsValue :=
  .array (s.entries.values.map fun e => .array [
    .bytes e.tuple.relationHash.val, .array (e.tuple.objectHashes.map fun h => .bytes h.val),
    .bool e.tuple.wildcard, .bytes e.tuple.grantee.val, .bytes e.tuple.issuer.val,
    e.addTs.elim .null (.bigint ·), e.removeTs.elim .null (.bigint ·)])

/-- `value === null ? null : BigInt(value)` -/
def normalizeTs : JsValue → Except DecodeError (Option ℤ)
  | .null => .ok none
  | v => (expectBigInt v).map some

def readRow : JsValue → Except DecodeError RestoredEntry
  | .array [relationHash, objectHashes, wildcard, grantee, issuer, addTs, removeTs] => do
    let relationHash ← expectBytes 16 "relation_hash" relationHash
    let objectHashes ← mapElements (expectBytes 16 "object_hash") objectHashes
    let wildcard ← expectBool "wildcard" wildcard
    let grantee ← expectBytes 16 "grantee" grantee
    let issuer ← expectBytes 16 "issuer" issuer
    let tuple ← Tuple.make relationHash objectHashes wildcard grantee issuer
    let addTs ← normalizeTs addTs
    let removeTs ← normalizeTs removeTs
    pure ⟨tuple, addTs, removeTs⟩
  | _ => throw (.error "each state entry must be a 7-element array")

def readRows (s : RestoredState) : List JsValue → Except DecodeError RestoredState
  | [] => .ok s
  | row :: rows => do
    let e ← readRow row
    readRows { s with entries := s.entries.upsert e.tuple.key fun _ => e } rows

/-- The constructor refuses a horizon below one day. -/
def fromPayload (decode : MsgPackDecode) (data : Bytes) (deletionHorizonDays : ℕ) :
    Except DecodeError RestoredState :=
  match decode data with
  | .error _ => throw .platform
  | .ok (.array rows) =>
    if deletionHorizonDays ≥ 1 then readRows ⟨.empty, deletionHorizonDays⟩ rows
    else throw (.error "deletionHorizonDays must be >= 1")
  | .ok _ => throw (.error "state vector payload must be a MessagePack array")

end StateVector

/-- An entry as `fromPayload` leaves it. -/
def Entry.restored (e : Entry) : RestoredEntry :=
  ⟨e.tuple, e.addTs.map Nat.cast, e.removeTs.map Nat.cast⟩

/-- A state as `fromPayload` leaves it. -/
def StateVector.restored (s : StateVector Tuple.key) : RestoredState where
  entries := ⟨s.entries.entries.map fun p => (p.1, p.2.restored), by
    rw [List.map_map]
    exact s.entries.nodup⟩
  deletionHorizonDays := s.deletionHorizonDays

/-! ## What a library reads -/

/-- A JavaScript value that stands for a value of the format. -/
inductive JsValue.Stands : JsValue → Value → Prop
  | null : Stands .null .nil
  | bool (b : Bool) : Stands (.bool b) (.bool b)
  | number (n : ℕ) : Stands (.number (.finite n)) (.uint n)
  | bigint (n : ℕ) : Stands (.bigint n) (.uint n)
  | bytes (b : Bytes) : Stands (.bytes b) (.bin b)
  | array {vs : List JsValue} {ms : List Value} (h : List.Forall₂ Stands vs ms) :
    Stands (.array vs) (.array ms)

/-- A value of the Python or the C++ library that stands for a value of the format. -/
inductive WireValue.Stands : WireValue → Value → Prop
  | nil : Stands .nil .nil
  | bool (b : Bool) : Stands (.bool b) (.bool b)
  | int (n : ℕ) (wide : Bool) : Stands (.int n wide) (.uint n)
  | bin (b : Bytes) : Stands (.bin b) (.bin b)
  | array {vs : List WireValue} {ms : List Value} (h : List.Forall₂ Stands vs ms) :
    Stands (.array vs) (.array ms)

/-- The MessagePack libraries of the three ports. -/
structure MsgPackLibraries where
  encode : MsgPackEncode
  decode : MsgPackDecode
  packb : WireValue → Bytes
  unpackb : Bytes → Except String WireValue
  packer : WireValue → Bytes
  unpacker : Bytes → Option WireValue

namespace MsgPackLibraries

variable (L : MsgPackLibraries)

/-- One of the libraries writes these bytes for the value. -/
def Writes (b : Bytes) (m : Value) : Prop :=
  (∃ v : JsValue, v.Stands m ∧ L.encode v = b) ∨
    ∃ v : WireValue, v.Stands m ∧ (L.packb v = b ∨ L.packer v = b)

/-- Every library reads the value from these bytes. -/
def Reads (b : Bytes) (m : Value) : Prop :=
  (∃ v : JsValue, v.Stands m ∧ L.decode b = .ok v) ∧
    (∃ v : WireValue, v.Stands m ∧ L.unpackb b = .ok v) ∧
    ∃ v : WireValue, v.Stands m ∧ L.unpacker b = some v

/-- Whatever one of them writes for the value, all of them read as the value. -/
def RoundTrips (m : Value) : Prop := ∀ b, L.Writes b m → L.Reads b m

end MsgPackLibraries

/-! ## Libraries that keep to the format -/

mutual

/-- The format's value for a JavaScript one, where there is one. -/
def JsValue.toFormat : JsValue → Value
  | .bool b => .bool b
  | .number (.finite q) => .uint q.num.toNat
  | .bigint n => .uint n.toNat
  | .bytes b => .bin b
  | .array vs => .array (JsValue.allToFormat vs)
  | .null | .number _ | .string _ | .object _ => .nil

def JsValue.allToFormat : List JsValue → List Value
  | [] => []
  | v :: vs => v.toFormat :: JsValue.allToFormat vs

end

mutual

def WireValue.toFormat : WireValue → Value
  | .bool b => .bool b
  | .int n _ => .uint n.toNat
  | .bin b => .bin b
  | .array vs => .array (WireValue.allToFormat vs)
  | .nil | .float _ | .str _ | .map _ | .ext _ _ => .nil

def WireValue.allToFormat : List WireValue → List Value
  | [] => []
  | v :: vs => v.toFormat :: WireValue.allToFormat vs

end

mutual

/-- Beyond 32 bits an integer becomes a BigInt. -/
def JsValue.ofFormat : Value → JsValue
  | .nil => .null
  | .bool b => .bool b
  | .uint n => if n < 2 ^ 32 then .number (.finite n) else .bigint n
  | .bin b => .bytes b
  | .array ms => .array (JsValue.allOfFormat ms)

def JsValue.allOfFormat : List Value → List JsValue
  | [] => []
  | m :: ms => JsValue.ofFormat m :: JsValue.allOfFormat ms

end

mutual

def WireValue.ofFormat : Value → WireValue
  | .nil => .nil
  | .bool b => .bool b
  | .uint n => .int n (decide (n ≥ 2 ^ 32))
  | .bin b => .bin b
  | .array ms => .array (WireValue.allOfFormat ms)

def WireValue.allOfFormat : List Value → List WireValue
  | [] => []
  | m :: ms => WireValue.ofFormat m :: WireValue.allOfFormat ms

end

/-- Libraries that write the shortest encoding and read any. -/
def MsgPackLibraries.ofFormat : MsgPackLibraries where
  encode v := MessagePack.encode v.toFormat
  decode b := ((MessagePack.decodeAll b).map JsValue.ofFormat).elim (.error "malformed") .ok
  packb v := MessagePack.encode v.toFormat
  unpackb b := ((MessagePack.decodeAll b).map WireValue.ofFormat).elim (.error "malformed") .ok
  packer v := MessagePack.encode v.toFormat
  unpacker b := (MessagePack.decodeAll b).map WireValue.ofFormat

mutual

theorem JsValue.toFormat_of_stands : ∀ {v : JsValue} {m : Value}, v.Stands m → v.toFormat = m
  | _, _, .null => rfl
  | _, _, .bool _ => rfl
  | _, _, .number n => by simp [JsValue.toFormat]
  | _, _, .bigint n => by simp [JsValue.toFormat]
  | _, _, .bytes _ => rfl
  | _, _, .array h => by rw [JsValue.toFormat, JsValue.allToFormat_of_stands h]

theorem JsValue.allToFormat_of_stands : ∀ {vs : List JsValue} {ms : List Value},
    List.Forall₂ JsValue.Stands vs ms → JsValue.allToFormat vs = ms
  | _, _, .nil => rfl
  | _, _, .cons h hs => by
    rw [JsValue.allToFormat, JsValue.toFormat_of_stands h, JsValue.allToFormat_of_stands hs]

end

mutual

theorem WireValue.toFormat_of_stands :
    ∀ {v : WireValue} {m : Value}, v.Stands m → v.toFormat = m
  | _, _, .nil => rfl
  | _, _, .bool _ => rfl
  | _, _, .int n _ => by simp [WireValue.toFormat]
  | _, _, .bin _ => rfl
  | _, _, .array h => by rw [WireValue.toFormat, WireValue.allToFormat_of_stands h]

theorem WireValue.allToFormat_of_stands : ∀ {vs : List WireValue} {ms : List Value},
    List.Forall₂ WireValue.Stands vs ms → WireValue.allToFormat vs = ms
  | _, _, .nil => rfl
  | _, _, .cons h hs => by
    rw [WireValue.allToFormat, WireValue.toFormat_of_stands h, WireValue.allToFormat_of_stands hs]

end

mutual

theorem JsValue.ofFormat_stands : ∀ m : Value, (JsValue.ofFormat m).Stands m
  | .nil => .null
  | .bool b => .bool b
  | .uint n => by
    rw [JsValue.ofFormat]
    split_ifs
    · exact .number n
    · exact .bigint n
  | .bin b => .bytes b
  | .array ms => .array (JsValue.allOfFormat_stands ms)

theorem JsValue.allOfFormat_stands :
    ∀ ms : List Value, List.Forall₂ JsValue.Stands (JsValue.allOfFormat ms) ms
  | [] => .nil
  | m :: ms => .cons (JsValue.ofFormat_stands m) (JsValue.allOfFormat_stands ms)

end

mutual

theorem WireValue.ofFormat_stands : ∀ m : Value, (WireValue.ofFormat m).Stands m
  | .nil => .nil
  | .bool b => .bool b
  | .uint n => .int n _
  | .bin b => .bin b
  | .array ms => .array (WireValue.allOfFormat_stands ms)

theorem WireValue.allOfFormat_stands :
    ∀ ms : List Value, List.Forall₂ WireValue.Stands (WireValue.allOfFormat ms) ms
  | [] => .nil
  | m :: ms => .cons (WireValue.ofFormat_stands m) (WireValue.allOfFormat_stands ms)

end

/-- Such libraries round-trip everything that fits. -/
theorem MsgPackLibraries.ofFormat_roundTrips {m : Value} (h : m.Fits) :
    MsgPackLibraries.ofFormat.RoundTrips m := by
  intro b hwrites
  obtain rfl : b = MessagePack.encode m := by
    rcases hwrites with ⟨v, hv, rfl⟩ | ⟨v, hv, rfl | rfl⟩
    · exact congrArg MessagePack.encode (JsValue.toFormat_of_stands hv)
    · exact congrArg MessagePack.encode (WireValue.toFormat_of_stands hv)
    · exact congrArg MessagePack.encode (WireValue.toFormat_of_stands hv)
  have hread := MessagePack.decodeAll_encode h
  refine ⟨⟨_, JsValue.ofFormat_stands m, ?_⟩, ⟨_, WireValue.ofFormat_stands m, ?_⟩,
    _, WireValue.ofFormat_stands m, ?_⟩
  · simp [MsgPackLibraries.ofFormat, hread]
  · simp [MsgPackLibraries.ofFormat, hread]
  · simp [MsgPackLibraries.ofFormat, hread]

/-! ## The value of a snapshot -/

def timestampOf : Option ℕ → Value
  | none => .nil
  | some t => .uint t

def rowOf (e : Entry) : Value :=
  .array [.bin e.tuple.relationHash.val, .array (e.tuple.objectHashes.map fun h => .bin h.val),
    .bool e.tuple.wildcard, .bin e.tuple.grantee.val, .bin e.tuple.issuer.val,
    timestampOf e.addTs, timestampOf e.removeTs]

/-- The snapshot of a state with these entries. -/
def snapshotOf (rows : List Entry) : Value := .array (rows.map rowOf)

theorem forall₂_map_stands {α V : Type} {Stands : V → Value → Prop} {f : α → V} {g : α → Value}
    (h : ∀ a, Stands (f a) (g a)) (as : List α) :
    List.Forall₂ Stands (as.map f) (as.map g) := by
  induction as with
  | nil => exact .nil
  | cons a as ih => exact .cons (h a) ih

section Written

theorem jsTimestamp_stands (ts : Option ℕ) :
    (ts.elim JsValue.null (.bigint ·)).Stands (timestampOf ts) := by
  cases ts with
  | none => exact .null
  | some t => exact .bigint t

theorem StateVector.toPayload_stands (s : StateVector Tuple.key) :
    s.toPayload.Stands (snapshotOf s.entries.values) := by
  refine .array (forall₂_map_stands (fun e => .array ?_) _)
  exact .cons (.bytes _) (.cons (.array (forall₂_map_stands (fun _ => .bytes _) _))
    (.cons (.bool _) (.cons (.bytes _) (.cons (.bytes _)
      (.cons (jsTimestamp_stands _) (.cons (jsTimestamp_stands _) .nil))))))

theorem timestampValue_stands (ts : Option ℕ) : (timestampValue ts).Stands (timestampOf ts) := by
  cases ts with
  | none => exact .nil
  | some t => exact .int t _

theorem rowValue_stands (e : Entry) : (rowValue e.tuple e.addTs e.removeTs).Stands (rowOf e) :=
  .array (.cons (.bin _) (.cons (.array (forall₂_map_stands (fun _ => .bin _) _))
    (.cons (.bool _) (.cons (.bin _) (.cons (.bin _)
      (.cons (timestampValue_stands _) (.cons (timestampValue_stands _) .nil)))))))

omit [DecidableEq κ] in
theorem python_toPayload_stands (s : StateVector hash) :
    (Python.StateVector.toPayload s).Stands (snapshotOf s.entries.values) :=
  .array (forall₂_map_stands rowValue_stands _)

end Written

/-! ## Reading it back -/

theorem eq_map_of_forall₂ {α V : Type} {Stands : V → Value → Prop} {f : α → V} {g : α → Value}
    (h : ∀ a v, Stands v (g a) → v = f a) {as : List α} {vs : List V}
    (hvs : List.Forall₂ Stands vs (as.map g)) : vs = as.map f := by
  induction as generalizing vs with
  | nil =>
    cases hvs
    rfl
  | cons a as ih =>
    cases hvs with
    | cons hv hvs => rw [h a _ hv, ih hvs, List.map_cons]

section JavaScript

/-- Only the timestamps leave open what stands for them. -/
theorem JsValue.stands_rowOf {v : JsValue} {e : Entry} (h : v.Stands (rowOf e)) :
    ∃ a r, v = .array [.bytes e.tuple.relationHash.val,
        .array (e.tuple.objectHashes.map fun h => .bytes h.val), .bool e.tuple.wildcard,
        .bytes e.tuple.grantee.val, .bytes e.tuple.issuer.val, a, r] ∧
      a.Stands (timestampOf e.addTs) ∧ r.Stands (timestampOf e.removeTs) := by
  obtain _ | _ | _ | _ | _ | h := h
  obtain _ | ⟨hrelation, _ | ⟨hobject, _ | ⟨hwildcard, _ | ⟨hgrantee, _ | ⟨hissuer,
    _ | ⟨ha, _ | ⟨hr, _ | _⟩⟩⟩⟩⟩⟩⟩ := h
  cases hrelation
  cases hwildcard
  cases hgrantee
  cases hissuer
  cases hobject with
  | array hs =>
    have hhashes := eq_map_of_forall₂ (f := fun h : Hash => JsValue.bytes h.val)
      (fun h v hv => by cases hv; rfl) hs
    exact ⟨_, _, by rw [hhashes], ha, hr⟩

theorem normalizeTs_of_stands {v : JsValue} {ts : Option ℕ} (h : v.Stands (timestampOf ts)) :
    StateVector.normalizeTs v = .ok (ts.map Nat.cast) := by
  cases ts with
  | none =>
    cases h
    rfl
  | some t =>
    cases h with
    | number => simp [StateVector.normalizeTs, expectBigInt, JsValue.toBigInt, Except.map]
    | bigint => rfl

theorem js_readRow {v : JsValue} {e : Entry} (h : v.Stands (rowOf e)) :
    StateVector.readRow v = .ok e.restored := by
  obtain ⟨a, r, rfl, ha, hr⟩ := JsValue.stands_rowOf h
  simp only [StateVector.readRow, expectBytes_val, mapElements, mapM_expectBytes_val, expectBool,
    Tuple.make, dif_pos e.tuple.segments_le, normalizeTs_of_stands ha, normalizeTs_of_stands hr,
    bind, Except.bind]
  rfl

theorem js_readRows {vs : List JsValue} {rows : List Entry}
    (h : List.Forall₂ JsValue.Stands vs (rows.map rowOf)) (s : RestoredState)
    (hn : (s.entries.entries.map Prod.fst ++ rows.map fun e => e.tuple.key).Nodup) :
    ∃ s', StateVector.readRows s vs = .ok s' ∧ s'.deletionHorizonDays = s.deletionHorizonDays ∧
      s'.entries.entries =
        s.entries.entries ++ rows.map fun e => (e.tuple.key, e.restored) := by
  induction rows generalizing vs s with
  | nil =>
    cases h
    exact ⟨s, rfl, rfl, by simp⟩
  | cons e rows ih =>
    cases h with
    | cons hv hvs =>
      have hnew : e.tuple.key ∉ s.entries.entries.map Prod.fst := by
        rw [List.nodup_append] at hn
        exact fun hm => hn.2.2 _ hm _ (List.mem_map_of_mem List.mem_cons_self) rfl
      have hset : (s.entries.upsert e.tuple.key fun _ => e.restored).entries =
          s.entries.entries ++ [(e.tuple.key, e.restored)] :=
        OrderedMap.upsertEntries_of_not_mem hnew _
      obtain ⟨s', hs', hdays, hentries⟩ := ih hvs
        { s with entries := s.entries.upsert e.tuple.key fun _ => e.restored } (by
          rw [hset]
          simpa using hn)
      refine ⟨s', ?_, hdays, ?_⟩
      · rw [StateVector.readRows, js_readRow hv]
        exact hs'
      · rw [hentries, hset]
        simp

end JavaScript

section PythonAndCpp

theorem WireValue.stands_rowOf {v : WireValue} {e : Entry} (h : v.Stands (rowOf e)) :
    ∃ a r, v = .array [.bin e.tuple.relationHash.val,
        .array (e.tuple.objectHashes.map fun h => .bin h.val), .bool e.tuple.wildcard,
        .bin e.tuple.grantee.val, .bin e.tuple.issuer.val, a, r] ∧
      a.Stands (timestampOf e.addTs) ∧ r.Stands (timestampOf e.removeTs) := by
  obtain _ | _ | _ | _ | h := h
  obtain _ | ⟨hrelation, _ | ⟨hobject, _ | ⟨hwildcard, _ | ⟨hgrantee, _ | ⟨hissuer,
    _ | ⟨ha, _ | ⟨hr, _ | _⟩⟩⟩⟩⟩⟩⟩ := h
  cases hrelation
  cases hwildcard
  cases hgrantee
  cases hissuer
  cases hobject with
  | array hs =>
    have hhashes := eq_map_of_forall₂ (f := fun h : Hash => WireValue.bin h.val)
      (fun h v hv => by cases hv; rfl) hs
    exact ⟨_, _, by rw [hhashes], ha, hr⟩

theorem python_expectTimestamp_of_stands {v : WireValue} {ts : Option ℕ}
    (h : v.Stands (timestampOf ts)) (hts : ∀ t ∈ ts, t ≤ maxHlc) :
    Python.StateVector.expectTimestamp v = .ok ts := by
  cases ts with
  | none =>
    cases h
    rfl
  | some t =>
    cases h
    have ht : t ≤ maxHlc := hts t rfl
    simp [Python.StateVector.expectTimestamp, ht]

theorem cpp_expectTimestamp_of_stands {v : WireValue} {ts : Option ℕ}
    (h : v.Stands (timestampOf ts)) (hts : ∀ t ∈ ts, t ≤ maxHlc) :
    Cpp.RawState.expectTimestamp v = .ok ts := by
  cases ts with
  | none =>
    cases h
    rfl
  | some t =>
    cases h
    have ht : t ≤ maxHlc := hts t rfl
    simp [Cpp.RawState.expectTimestamp, ht]

theorem python_readRow_of_stands {v : WireValue} {r : SnapshotRow}
    (h : v.Stands (rowOf r.entry)) : Python.StateVector.readRow v = .ok r.entry := by
  obtain ⟨a, b, rfl, ha, hb⟩ := WireValue.stands_rowOf h
  exact python_readRow_of (python_expectTimestamp_of_stands ha r.addTs_le)
    (python_expectTimestamp_of_stands hb r.removeTs_le)

theorem cpp_readRow_of_stands {v : WireValue} {r : SnapshotRow}
    (h : v.Stands (rowOf r.entry)) : Cpp.RawState.readRow v = .ok (.ofEntry r.entry) := by
  obtain ⟨a, b, rfl, ha, hb⟩ := WireValue.stands_rowOf h
  exact cpp_readRow_of (cpp_expectTimestamp_of_stands ha r.addTs_le)
    (cpp_expectTimestamp_of_stands hb r.removeTs_le)

theorem python_readRows_of_stands {vs : List WireValue} {rows : List SnapshotRow}
    (h : List.Forall₂ WireValue.Stands vs ((rows.map SnapshotRow.entry).map rowOf))
    (s : StateVector hash) :
    Python.StateVector.readRows s vs =
      .ok (Python.StateVector.assignAll s (rows.map SnapshotRow.entry)) := by
  induction rows generalizing vs s with
  | nil =>
    cases h
    rfl
  | cons r rows ih =>
    cases h with
    | cons hv hvs =>
      rw [Python.StateVector.readRows, python_readRow_of_stands hv, List.map_cons,
        Python.StateVector.assignAll, List.foldl_cons, ← Python.StateVector.assignAll, ← ih hvs]
      rfl

theorem cpp_readRows_of_stands {vs : List WireValue} {rows : List SnapshotRow}
    (h : List.Forall₂ WireValue.Stands vs ((rows.map SnapshotRow.entry).map rowOf))
    (s : Cpp.RawState hash) :
    Cpp.RawState.readRows s vs = .ok (s.pushAll (rows.map SnapshotRow.entry)) := by
  induction rows generalizing vs s with
  | nil =>
    cases h
    rfl
  | cons r rows ih =>
    cases h with
    | cons hv hvs =>
      rw [Cpp.RawState.readRows, cpp_readRow_of_stands hv, List.map_cons,
        Cpp.RawState.pushAll, List.foldl_cons, ← Cpp.RawState.pushAll, ← ih hvs]
      rfl

end PythonAndCpp

end Dacar

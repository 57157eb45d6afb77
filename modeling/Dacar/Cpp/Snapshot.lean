import Dacar.Cpp.StateVector
import Dacar.WireValue

/-!
# Snapshots of the state

`to_payload` and `from_payload` of the Python and the C++ port, and the histories a state
can have once snapshots are restored into it.  Nothing in the C++ decoder keeps the index
and the vector together when two rows name one tuple, so here its state is the plain pair.
-/

namespace Dacar

/-- A timestamp of a snapshot row, packed in the fewest bytes it fits in. -/
def timestampValue : Option ℕ → WireValue
  | none => .nil
  | some t => .int t (decide (t ≥ 2 ^ 32))

/-- `[relation_hash, object_hashes, wildcard, grantee, issuer, add_ts, remove_ts]` -/
def rowValue (t : Tuple) (addTs removeTs : Option ℕ) : WireValue :=
  .array [
    .bin t.relationHash.val, .array (t.objectHashes.map fun h => .bin h.val), .bool t.wildcard,
    .bin t.grantee.val, .bin t.issuer.val, timestampValue addTs, timestampValue removeTs]

/-- A row of a well-formed snapshot: an entry whose timestamps are 64 bits wide. -/
structure SnapshotRow where
  entry : Entry
  addTs_le : ∀ t ∈ entry.addTs, t ≤ maxHlc
  removeTs_le : ∀ t ∈ entry.removeTs, t ≤ maxHlc

/-- The well-formed snapshot payload with these rows. -/
def snapshotPayload (rows : List SnapshotRow) : WireValue :=
  .array (rows.map fun r => rowValue r.entry.tuple r.entry.addTs r.entry.removeTs)

variable {κ : Type} [DecidableEq κ] {hash : Tuple → κ}

/-! ## The Python port -/

namespace Python.StateVector

def toPayload (s : Dacar.StateVector hash) : WireValue :=
  .array (s.entries.values.map fun e => rowValue e.tuple e.addTs e.removeTs)

def expectBlob (name : String) : WireValue → Except ValueError Hash
  | .bin b =>
    if h : b.length = 16 then .ok ⟨b, h⟩
    else .error (.error s!"{name} must be a 16-byte binary blob")
  | _ => .error (.error s!"{name} must be a 16-byte binary blob")

def expectSegments : List WireValue → Except ValueError (List Hash)
  | [] => .ok []
  | .bin b :: vs =>
    if h : b.length = 16 then do
      let hs ← expectSegments vs
      pure (⟨b, h⟩ :: hs)
    else .error (.error "each object segment hash must be 16 bytes")
  | _ :: _ => .error (.error "each object segment hash must be 16 bytes")

def expectObjectHashes : WireValue → Except ValueError (List Hash)
  | .array vs => expectSegments vs
  | _ => .error (.error "object_hashes must be an array of 16-byte blobs")

def expectWildcard : WireValue → Except ValueError Bool
  | .bool b => .ok b
  | _ => .error (.error "wildcard must be a bool")

/-- A boolean is an `int` and compares as one. -/
def expectTimestamp : WireValue → Except ValueError (Option ℕ)
  | .nil => .ok none
  | .int n _ =>
    if 0 ≤ n ∧ n ≤ maxHlc then .ok (some n.toNat)
    else .error (.error "timestamps must be uint64 or nil")
  | .bool b => .ok (some (if b then 1 else 0))
  | _ => .error (.error "timestamps must be uint64 or nil")

def readRow : WireValue → Except ValueError Entry
  | .array [relationHash, objectHashes, wildcard, grantee, issuer, addTs, removeTs] => do
    let relationHash ← expectBlob "relation_hash" relationHash
    let grantee ← expectBlob "grantee" grantee
    let issuer ← expectBlob "issuer" issuer
    let objectHashes ← expectObjectHashes objectHashes
    let wildcard ← expectWildcard wildcard
    let addTs ← expectTimestamp addTs
    let removeTs ← expectTimestamp removeTs
    let tuple ← Tuple.make relationHash objectHashes wildcard grantee issuer
    pure ⟨tuple, addTs, removeTs⟩
  | _ => throw (.error "each state entry must be a 7-element array")

/-- `state._entries[entry.tuple.hash()] = entry`: a later row replaces an earlier one. -/
def assign (s : Dacar.StateVector hash) (e : Entry) : Dacar.StateVector hash where
  entries := s.entries.upsert (hash e.tuple) fun _ => e
  deletionHorizonDays := s.deletionHorizonDays
  keyed := by
    intro k e' he
    rcases OrderedMap.mem_upsert_entries.mp he with ⟨rfl, rfl⟩ | ⟨-, he⟩
    · rfl
    · exact s.keyed k e' he

def assignAll (s : Dacar.StateVector hash) (rows : List Entry) : Dacar.StateVector hash :=
  rows.foldl assign s

def readRows (s : Dacar.StateVector hash) :
    List WireValue → Except ValueError (Dacar.StateVector hash)
  | [] => .ok s
  | row :: rows => do
    let e ← readRow row
    readRows (assign s e) rows

def fromPayload (hash : Tuple → κ) (data : WireValue) (deletionHorizonDays : ℕ) :
    Except ValueError (Dacar.StateVector hash) :=
  match data with
  | .array rows => readRows (.empty deletionHorizonDays) rows
  | _ => throw (.error "state vector payload must be a MessagePack array")

end Python.StateVector

/-! ## The C++ port -/

namespace Cpp

/-- The flags and timestamps of a row; a missing timestamp is left at zero. -/
def Entry.ofEntry (e : Dacar.Entry) : Entry where
  tuple := e.tuple
  hasAdd := e.addTs.isSome
  addTs := e.addTs.getD 0
  hasRemove := e.removeTs.isSome
  removeTs := e.removeTs.getD 0

@[simp] theorem Entry.tuple_ofEntry (e : Dacar.Entry) : (Entry.ofEntry e).tuple = e.tuple := rfl

@[simp] theorem Entry.toEntry_ofEntry (e : Dacar.Entry) : (Entry.ofEntry e).toEntry = e := by
  obtain ⟨tuple, addTs, removeTs⟩ := e
  cases addTs <;> cases removeTs <;> rfl

/-- Every position in the index is one of the vector. -/
def InBounds (entries : List Entry) (index : κ → Option ℕ) : Prop :=
  ∀ k i, index k = some i → i < entries.length

theorem InBounds.push {entries : List Entry} {index : κ → Option ℕ} (h : InBounds entries index)
    (k : κ) (e : Entry) :
    InBounds (entries ++ [e]) (Function.update index k (some entries.length)) := by
  intro k' i hi
  rw [List.length_append, List.length_singleton]
  by_cases hk : k' = k
  · subst hk
    rw [Function.update_self] at hi
    obtain rfl := Option.some.inj hi
    exact Nat.lt_succ_self _
  · rw [Function.update_of_ne hk] at hi
    exact Nat.lt_succ_of_lt (h k' i hi)

theorem inBounds_reindex (hash : Tuple → κ) (entries : List Entry) :
    InBounds entries (reindex hash entries) := by
  induction entries using List.reverseRecOn with
  | nil => exact nofun
  | append_singleton entries e ih =>
    rw [reindex_concat]
    exact ih.push _ e

/-- The two containers as they are, with no more than what keeps every access in bounds. -/
@[ext] structure RawState (hash : Tuple → κ) where
  entries : List Entry
  index : κ → Option ℕ
  deletionHorizonDays : ℕ
  inBounds : InBounds entries index

namespace RawState

def empty (deletionHorizonDays : ℕ) : RawState hash :=
  ⟨[], fun _ => none, deletionHorizonDays, nofun⟩

def deletionHorizonMs (s : RawState hash) : ℕ := s.deletionHorizonDays * msPerDay

/-- `_index[hash] = _entries.size(); _entries.push_back(entry)` -/
def push (s : RawState hash) (e : Entry) : RawState hash where
  entries := s.entries ++ [e]
  index := Function.update s.index (hash e.tuple) (some s.entries.length)
  deletionHorizonDays := s.deletionHorizonDays
  inBounds := s.inBounds.push _ e

/-- `entry_for(tuple)`, then mutate the entry it refers to. -/
def withEntry (s : RawState hash) (t : Tuple) (f : Entry → Entry) : RawState hash :=
  match hi : s.index (hash t) with
  | some i =>
    have hlt : i < s.entries.length := s.inBounds _ i hi
    { s with
      entries := s.entries.set i (f s.entries[i])
      inBounds := fun k j hj => by simpa using s.inBounds k j hj }
  | none =>
    { s with
      entries := s.entries ++ [f { tuple := t }]
      index := Function.update s.index (hash t) (some s.entries.length)
      inBounds := s.inBounds.push _ _ }

def cutoff (s : RawState hash) (now : ℕ) : ℕ :=
  if now > s.deletionHorizonMs then now - s.deletionHorizonMs else 0

def apply (s : RawState hash) (op : Operation) (wall : ℕ) (nowMs maxFutureMs : ℤ) :
    Bool × RawState hash :=
  let now := StateVector.clockReading wall nowMs
  if maxFutureMs ≥ 0 ∧ physical op.hlc > now + maxFutureMs.toNat then (false, s)
  else if physical op.hlc < s.cutoff now then (false, s)
  else (true, s.withEntry op.tuple (Entry.record op))

def merge (s other : RawState hash) : RawState hash :=
  other.entries.foldl (fun s e => s.withEntry e.tuple (Entry.join e)) s

def prune (s : RawState hash) (wall : ℕ) (nowMs : ℤ) : ℕ × RawState hash :=
  let cutoff := s.cutoff (StateVector.clockReading wall nowMs)
  let pruned := s.entries.countP (Entry.expired cutoff)
  let kept := s.entries.filter fun e => !e.expired cutoff
  if pruned = 0 then (0, s)
  else
    (pruned,
      { s with
        entries := kept
        index := reindex hash kept
        inBounds := inBounds_reindex hash kept })

def isActive (s : RawState hash) (k : κ) : Bool :=
  (s.index k).any fun i => (s.entries[i]?).any Entry.active

def activeTuples (s : RawState hash) : List Tuple :=
  (s.entries.filter Entry.active).map Entry.tuple

def toPayload (s : RawState hash) : WireValue :=
  .array (s.entries.map fun e =>
    rowValue e.tuple (if e.hasAdd then some e.addTs else none)
      (if e.hasRemove then some e.removeTs else none))

def expectBlob (message : String) : WireValue → Except String Hash
  | .bin b => if h : b.length = 16 then .ok ⟨b, h⟩ else .error message
  | _ => .error message

def expectSegments : List WireValue → Except String (List Hash)
  | [] => .ok []
  | v :: vs => do
    let h ← expectBlob "each object segment hash must be 16 bytes" v
    let hs ← expectSegments vs
    pure (h :: hs)

def expectObjectHashes : WireValue → Except String (List Hash)
  | .array vs => expectSegments vs
  | _ => .error "object_hashes must be an array of 16-byte blobs"

def expectWildcard : WireValue → Except String Bool
  | .bool b => .ok b
  | _ => .error "wildcard must be a boolean"

def expectTimestamp : WireValue → Except String (Option ℕ)
  | .nil => .ok none
  | .int n _ =>
    if 0 ≤ n ∧ n ≤ maxHlc then .ok (some n.toNat) else .error "timestamps must be uint64 or nil"
  | _ => .error "timestamps must be uint64 or nil"

/-- The constructor; the sizes of the hashes are checked already. -/
def makeTuple (relationHash : Hash) (objectHashes : List Hash) (wildcard : Bool)
    (grantee issuer : Hash) : Except String Tuple :=
  if h : objectHashes.length ≤ maxSegments then
    .ok ⟨relationHash, objectHashes, wildcard, grantee, issuer, h⟩
  else .error s!"too many object segments ({objectHashes.length} > 255)"

def readRow : WireValue → Except String Entry
  | .array [relationHash, objectHashes, wildcard, grantee, issuer, addTs, removeTs] => do
    let relationHash ← expectBlob "relation_hash must be a 16-byte binary blob" relationHash
    let objectHashes ← expectObjectHashes objectHashes
    let wildcard ← expectWildcard wildcard
    let grantee ← expectBlob "grantee must be a 16-byte binary blob" grantee
    let issuer ← expectBlob "issuer must be a 16-byte binary blob" issuer
    let addTs ← expectTimestamp addTs
    let removeTs ← expectTimestamp removeTs
    let tuple ← makeTuple relationHash objectHashes wildcard grantee issuer
    pure (.ofEntry ⟨tuple, addTs, removeTs⟩)
  | _ => throw "each state entry must be a 7-element array"

def pushAll (s : RawState hash) (rows : List Dacar.Entry) : RawState hash :=
  rows.foldl (fun s e => s.push (.ofEntry e)) s

/-- Every row is appended, whatever the index says about its tuple. -/
def readRows (s : RawState hash) : List WireValue → Except String (RawState hash)
  | [] => .ok s
  | row :: rows => do
    let e ← readRow row
    readRows (s.push e) rows

def fromPayload (hash : Tuple → κ) (data : WireValue) (deletionHorizonDays : ℕ) :
    Except String (RawState hash) :=
  match data with
  | .array rows => readRows (.empty deletionHorizonDays) rows
  | _ => throw "state vector payload must be a MessagePack array"

end RawState

end Cpp

/-! ## Reading back a well-formed snapshot -/

section ReadBack

theorem python_expectBlob (name : String) (h : Hash) :
    Python.StateVector.expectBlob name (.bin h.val) = .ok h := by
  simp [Python.StateVector.expectBlob, h.property]

theorem cpp_expectBlob (message : String) (h : Hash) :
    Cpp.RawState.expectBlob message (.bin h.val) = .ok h := by
  simp [Cpp.RawState.expectBlob, h.property]

theorem python_expectSegments (hs : List Hash) :
    Python.StateVector.expectSegments (hs.map fun h => .bin h.val) = .ok hs := by
  induction hs with
  | nil => rfl
  | cons h hs ih =>
    simp only [List.map_cons, Python.StateVector.expectSegments, h.property, dite_true, ih]
    rfl

theorem cpp_expectSegments (hs : List Hash) :
    Cpp.RawState.expectSegments (hs.map fun h => .bin h.val) = .ok hs := by
  induction hs with
  | nil => rfl
  | cons h hs ih =>
    rw [List.map_cons, Cpp.RawState.expectSegments, cpp_expectBlob, ih]
    rfl

theorem python_expectTimestamp {ts : Option ℕ} (h : ∀ t ∈ ts, t ≤ maxHlc) :
    Python.StateVector.expectTimestamp (timestampValue ts) = .ok ts := by
  cases ts with
  | none => rfl
  | some t =>
    have ht : t ≤ maxHlc := h t rfl
    simp [timestampValue, Python.StateVector.expectTimestamp, ht]

theorem cpp_expectTimestamp {ts : Option ℕ} (h : ∀ t ∈ ts, t ≤ maxHlc) :
    Cpp.RawState.expectTimestamp (timestampValue ts) = .ok ts := by
  cases ts with
  | none => rfl
  | some t =>
    have ht : t ≤ maxHlc := h t rfl
    simp [timestampValue, Cpp.RawState.expectTimestamp, ht]

/-- A row is read once its timestamps are. -/
theorem python_readRow_of {e : Entry} {addTs removeTs : WireValue}
    (hadd : Python.StateVector.expectTimestamp addTs = .ok e.addTs)
    (hremove : Python.StateVector.expectTimestamp removeTs = .ok e.removeTs) :
    Python.StateVector.readRow (.array [.bin e.tuple.relationHash.val,
      .array (e.tuple.objectHashes.map fun h => .bin h.val), .bool e.tuple.wildcard,
      .bin e.tuple.grantee.val, .bin e.tuple.issuer.val, addTs, removeTs]) = .ok e := by
  have htuple : Python.Tuple.make e.tuple.relationHash e.tuple.objectHashes e.tuple.wildcard
      e.tuple.grantee e.tuple.issuer = .ok e.tuple := dif_pos e.tuple.segments_le
  simp only [Python.StateVector.readRow, python_expectBlob,
    Python.StateVector.expectObjectHashes, Python.StateVector.expectWildcard,
    python_expectSegments, hadd, hremove, bind, Except.bind, htuple]
  rfl

theorem cpp_readRow_of {e : Entry} {addTs removeTs : WireValue}
    (hadd : Cpp.RawState.expectTimestamp addTs = .ok e.addTs)
    (hremove : Cpp.RawState.expectTimestamp removeTs = .ok e.removeTs) :
    Cpp.RawState.readRow (.array [.bin e.tuple.relationHash.val,
      .array (e.tuple.objectHashes.map fun h => .bin h.val), .bool e.tuple.wildcard,
      .bin e.tuple.grantee.val, .bin e.tuple.issuer.val, addTs, removeTs]) =
        .ok (.ofEntry e) := by
  have htuple : Cpp.RawState.makeTuple e.tuple.relationHash e.tuple.objectHashes
      e.tuple.wildcard e.tuple.grantee e.tuple.issuer = .ok e.tuple :=
    dif_pos e.tuple.segments_le
  simp only [Cpp.RawState.readRow, cpp_expectBlob, Cpp.RawState.expectObjectHashes,
    Cpp.RawState.expectWildcard, cpp_expectSegments, hadd, hremove, bind, Except.bind, htuple]
  rfl

theorem python_readRow (r : SnapshotRow) :
    Python.StateVector.readRow (rowValue r.entry.tuple r.entry.addTs r.entry.removeTs) =
      .ok r.entry :=
  python_readRow_of (python_expectTimestamp r.addTs_le) (python_expectTimestamp r.removeTs_le)

theorem cpp_readRow (r : SnapshotRow) :
    Cpp.RawState.readRow (rowValue r.entry.tuple r.entry.addTs r.entry.removeTs) =
      .ok (.ofEntry r.entry) :=
  cpp_readRow_of (cpp_expectTimestamp r.addTs_le) (cpp_expectTimestamp r.removeTs_le)

theorem python_fromPayload (rows : List SnapshotRow) (deletionHorizonDays : ℕ) :
    Python.StateVector.fromPayload hash (snapshotPayload rows) deletionHorizonDays =
      .ok (Python.StateVector.assignAll (.empty deletionHorizonDays)
        (rows.map SnapshotRow.entry)) := by
  have hread (s : StateVector hash) : Python.StateVector.readRows s
      (rows.map fun r => rowValue r.entry.tuple r.entry.addTs r.entry.removeTs) =
        .ok (Python.StateVector.assignAll s (rows.map SnapshotRow.entry)) := by
    induction rows generalizing s with
    | nil => rfl
    | cons r rows ih =>
      rw [List.map_cons, Python.StateVector.readRows, python_readRow, List.map_cons,
        Python.StateVector.assignAll, List.foldl_cons, ← Python.StateVector.assignAll, ← ih]
      rfl
  exact hread _

theorem cpp_fromPayload (rows : List SnapshotRow) (deletionHorizonDays : ℕ) :
    Cpp.RawState.fromPayload hash (snapshotPayload rows) deletionHorizonDays =
      .ok (Cpp.RawState.pushAll (.empty deletionHorizonDays) (rows.map SnapshotRow.entry)) := by
  have hread (s : Cpp.RawState hash) : Cpp.RawState.readRows s
      (rows.map fun r => rowValue r.entry.tuple r.entry.addTs r.entry.removeTs) =
        .ok (s.pushAll (rows.map SnapshotRow.entry)) := by
    induction rows generalizing s with
    | nil => rfl
    | cons r rows ih =>
      rw [List.map_cons, Cpp.RawState.readRows, cpp_readRow, List.map_cons,
        Cpp.RawState.pushAll, List.foldl_cons, ← Cpp.RawState.pushAll, ← ih]
      rfl
  exact hread _

end ReadBack

end Dacar

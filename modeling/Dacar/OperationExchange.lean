import Dacar.Cpp.OperationPayload
import Dacar.PythonDelta
import Dacar.Snapshot

/-!
# An operation from one port to another

Whichever port writes an Operation, every port reads that Operation back.
-/

namespace Dacar

open MessagePack

/-! ## Writing -/

/-- `Operation.to_payload` -/
def Python.Operation.toPayload (packb : WireValue → Bytes) (op : Dacar.Operation) :
    Except ValueError Bytes :=
  if op.signatures.isEmpty then
    .error (.error "Operation must be signed before payload serialization")
  else .ok (packb op.toWire)

/-- The value of an operation. -/
def operationOf (op : Operation) : Value :=
  .array [.bin op.tuple.issuer.val, .bin op.tuple.grantee.val, .uint op.action.byte.toNat,
    .uint op.hlc, .bin op.tuple.relationHash.val,
    .array (op.tuple.objectHashes.map fun h => .bin h.val), .bool op.tuple.wildcard,
    .array (op.signatures.map fun s => .bin s.val)]

theorem Operation.toValue_stands (op : Operation) : op.toValue.Stands (operationOf op) :=
  .array (.cons (.bytes _) (.cons (.bytes _) (.cons (.number _) (.cons (.bigint _)
    (.cons (.bytes _) (.cons (.array (forall₂_map_stands (fun _ => .bytes _) _))
      (.cons (.bool _) (.cons (.array (forall₂_map_stands (fun _ => .bytes _) _)) .nil))))))))

theorem Operation.toWire_stands (op : Operation) : op.toWire.Stands (operationOf op) :=
  .array (.cons (.bin _) (.cons (.bin _) (.cons (.int _ _) (.cons (.int _ _)
    (.cons (.bin _) (.cons (.array (forall₂_map_stands (fun _ => .bin _) _))
      (.cons (.bool _) (.cons (.array (forall₂_map_stands (fun _ => .bin _) _)) .nil))))))))

/-- One of the ports writes these bytes for the operation. -/
def MsgPackLibraries.Issues (L : MsgPackLibraries) (op : Operation) (b : Bytes) : Prop :=
  Operation.toPayload L.encode op = .ok b ∨ Python.Operation.toPayload L.packb op = .ok b ∨
    Cpp.toPayload L.packer op = .ok b

theorem MsgPackLibraries.Issues.writes {L : MsgPackLibraries} {op : Operation} {b : Bytes}
    (h : L.Issues op b) : op.signatures ≠ [] ∧ L.Writes b (operationOf op) := by
  unfold MsgPackLibraries.Issues at h
  by_cases hsigs : op.signatures = []
  · have hempty : op.signatures.isEmpty = true := by rw [hsigs]; rfl
    rw [Operation.toPayload, Python.Operation.toPayload, Cpp.toPayload, if_pos hempty,
      if_pos hempty, if_pos hempty] at h
    rcases h with h | h | h <;> cases h
  · have hsome : ¬ op.signatures.isEmpty = true := by simpa using hsigs
    rw [Operation.toPayload, Python.Operation.toPayload, Cpp.toPayload, if_neg hsome,
      if_neg hsome, if_neg hsome] at h
    refine ⟨hsigs, ?_⟩
    rcases h with h | h | h
    · exact .inl ⟨_, op.toValue_stands, Except.ok.inj h⟩
    · exact .inr ⟨_, op.toWire_stands, .inl (Except.ok.inj h)⟩
    · exact .inr ⟨_, op.toWire_stands, .inr (Except.ok.inj h)⟩

/-! ## Reading -/

/-- What stands for an operation; it is open how the numbers are held. -/
theorem JsValue.stands_operationOf {v : JsValue} {op : Operation} (h : v.Stands (operationOf op)) :
    ∃ a n, v = .array [.bytes op.tuple.issuer.val, .bytes op.tuple.grantee.val, a, n,
        .bytes op.tuple.relationHash.val, .array (op.tuple.objectHashes.map fun h => .bytes h.val),
        .bool op.tuple.wildcard, .array (op.signatures.map fun s => .bytes s.val)] ∧
      a.Stands (.uint op.action.byte.toNat) ∧ n.Stands (.uint op.hlc) := by
  obtain _ | _ | _ | _ | _ | h := h
  obtain _ | ⟨hissuer, _ | ⟨hgrantee, _ | ⟨ha, _ | ⟨hn, _ | ⟨hrelation, _ | ⟨hobject,
    _ | ⟨hwildcard, _ | ⟨hsigs, _ | _⟩⟩⟩⟩⟩⟩⟩⟩ := h
  cases hissuer
  cases hgrantee
  cases hrelation
  cases hwildcard
  cases hobject with
  | array hs =>
    cases hsigs with
    | array hsigs =>
      have hhashes := eq_map_of_forall₂ (f := fun h : Hash => JsValue.bytes h.val)
        (fun h v hv => by cases hv; rfl) hs
      have hsignatures := eq_map_of_forall₂ (f := fun s : Signature => JsValue.bytes s.val)
        (fun s v hv => by cases hv; rfl) hsigs
      exact ⟨_, _, by rw [hhashes, hsignatures], ha, hn⟩

theorem WireValue.stands_operationOf {v : WireValue} {op : Operation}
    (h : v.Stands (operationOf op)) :
    ∃ wide wide', v = .array [.bin op.tuple.issuer.val, .bin op.tuple.grantee.val,
      .int op.action.byte.toNat wide, .int op.hlc wide', .bin op.tuple.relationHash.val,
      .array (op.tuple.objectHashes.map fun h => .bin h.val), .bool op.tuple.wildcard,
      .array (op.signatures.map fun s => .bin s.val)] := by
  obtain _ | _ | _ | _ | h := h
  obtain _ | ⟨hissuer, _ | ⟨hgrantee, _ | ⟨ha, _ | ⟨hn, _ | ⟨hrelation, _ | ⟨hobject,
    _ | ⟨hwildcard, _ | ⟨hsigs, _ | _⟩⟩⟩⟩⟩⟩⟩⟩ := h
  cases hissuer
  cases hgrantee
  cases ha
  cases hn
  cases hrelation
  cases hwildcard
  cases hobject with
  | array hs =>
    cases hsigs with
    | array hsigs =>
      have hhashes := eq_map_of_forall₂ (f := fun h : Hash => WireValue.bin h.val)
        (fun h v hv => by cases hv; rfl) hs
      have hsignatures := eq_map_of_forall₂ (f := fun s : Signature => WireValue.bin s.val)
        (fun s v hv => by cases hv; rfl) hsigs
      exact ⟨_, _, by rw [hhashes, hsignatures]⟩

section Fields

variable {op : Operation}

theorem mapM_blobOf_val {n : ℕ} (bs : List (Blob n)) :
    (bs.map fun b => WireValue.bin b.val).mapM (blobOf n) = some bs := by
  induction bs with
  | nil => rfl
  | cons b bs ih =>
    rw [List.map_cons, List.mapM_cons, ih, blobOf_eq_some.mpr rfl]
    rfl

theorem signaturesOf_val (h : op.signatures ≠ []) :
    signaturesOf (.array (op.signatures.map fun s => .bin s.val)) = some op.signatures := by
  have hread := mapM_blobOf_val op.signatures
  cases hsigs : op.signatures with
  | nil => exact absurd hsigs h
  | cons sig sigs =>
    rw [hsigs] at hread
    exact hread

theorem pyAction_byte (wide : Bool) :
    pyAction (.int op.action.byte.toNat wide) = some op.action := by
  rw [pyAction_int]
  cases op.action <;> rfl

/-- The fields of an operation on the wire. -/
def Operation.fields (op : Operation) (wide wide' : Bool) : Cpp.Fields where
  issuer := .bin op.tuple.issuer.val
  grantee := .bin op.tuple.grantee.val
  action := op.action.byte.toNat
  actionWide := wide
  hlc := op.hlc
  hlcWide := wide'
  relationHash := .bin op.tuple.relationHash.val
  objectHashes := .array (op.tuple.objectHashes.map fun h => .bin h.val)
  wildcard := .bool op.tuple.wildcard
  signatures := .array (op.signatures.map fun s => .bin s.val)
  action_low := by omega
  action_high := by have := op.action.byte.toNat_lt; omega
  hlc_low := by omega
  hlc_high := by exact_mod_cast op.hlc_le

theorem Operation.reads_fields (h : op.signatures ≠ []) (wide wide' : Bool) :
    Reads (blobOf 16 (op.fields wide wide').issuer) (blobOf 16 (op.fields wide wide').grantee)
      (pyAction (.int (op.fields wide wide').action (op.fields wide wide').actionWide))
      (some (op.fields wide wide').hlc) (blobOf 16 (op.fields wide wide').relationHash)
      (segmentsOf (op.fields wide wide').objectHashes) (flagOf (op.fields wide wide').wildcard)
      (signaturesOf (op.fields wide wide').signatures) op where
  issuer := blobOf_eq_some.mpr rfl
  grantee := blobOf_eq_some.mpr rfl
  action := pyAction_byte wide
  hlc := rfl
  relationHash := blobOf_eq_some.mpr rfl
  objectHashes := mapM_blobOf_val _
  wildcard := rfl
  signatures := signaturesOf_val h

end Fields

/-- The cursor goes over what the library unpacks. -/
def Cpp.Cursor.Over {σ : Type} (u : Cpp.Cursor σ) (At : σ → List WireValue → Prop)
    (unpacker : Bytes → Option WireValue) : Prop :=
  ∀ b v, unpacker b = some v → b ≠ [] ∧ ∃ s, u.feed b = some s ∧ At s [v]

section Read

variable {op : Operation}

theorem expectBigInt_of_stands {v : JsValue} {n : ℕ} (h : v.Stands (.uint n)) :
    expectBigInt v = .ok (n : ℤ) := by
  cases h with
  | number => simp [expectBigInt, JsValue.toBigInt]
  | bigint => rfl

theorem js_fromValue_of_stands (hsigned : op.signatures ≠ []) {v : JsValue}
    (h : v.Stands (operationOf op))
    (hnumber : ∀ vs n, v = .array vs → vs[2]? ≠ some (.bigint n)) :
    Operation.fromValue v = .ok op := by
  obtain ⟨a, n, rfl, ha, hn⟩ := JsValue.stands_operationOf h
  cases ha with
  | bigint => exact absurd rfl (hnumber _ _ rfl)
  | number =>
    obtain ⟨sig, sigs, hsigs⟩ := List.exists_cons_of_ne_nil hsigned
    have hread : ((sig :: sigs).map fun s => JsValue.bytes s.val).mapM
        (expectBytes 64 "signature") = .ok (sig :: sigs) := mapM_expectBytes_val _ _
    have hhlc : (0 : ℤ) ≤ op.hlc ∧ (op.hlc : ℤ) ≤ maxHlc :=
      ⟨Int.natCast_nonneg _, Int.ofNat_le.mpr op.hlc_le⟩
    rw [hsigs]
    simp only [List.map_cons] at hread ⊢
    rw [Operation.fromValue, Action.ofValue_byte]
    simp only [bind, pure, Except.bind, Except.pure, expectBytes_val, mapElements,
      mapM_expectBytes_val, expectBool, Tuple.make, dif_pos op.tuple.segments_le,
      expectBigInt_of_stands hn, hread, Operation.make, dif_pos hhlc, Int.toNat_natCast, ← hsigs]

theorem python_fromValue_of_stands (hsigned : op.signatures ≠ []) {v : WireValue}
    (h : v.Stands (operationOf op)) : Python.Operation.fromValue v = .ok op := by
  obtain ⟨wide, wide', rfl⟩ := WireValue.stands_operationOf h
  refine Fallible.eq_ok_of_toOption ?_
  have hreads := op.reads_fields hsigned wide wide'
  rw [← Cpp.pyHlc_field] at hreads
  exact pyFromValue_eq_some.mpr hreads

theorem cpp_fromPayload_of_stands {σ : Type} {u : Cpp.Cursor σ} {At : σ → List WireValue → Prop}
    (hu : u.Lawful At) (hsigned : op.signatures ≠ []) {v : WireValue}
    (h : v.Stands (operationOf op)) {b : Bytes} (hb : b ≠ []) {s : σ} (hfeed : u.feed b = some s)
    (hs : At s [v]) : Cpp.fromPayload u b = .ok op := by
  have hpython := python_fromValue_of_stands hsigned h
  obtain ⟨wide, wide', rfl⟩ := WireValue.stands_operationOf h
  refine Fallible.eq_ok_of_toOption ?_
  rw [Cpp.fromPayload_alike hu (op.fields wide wide') hb hfeed hs]
  exact congrArg Except.toOption hpython

end Read

/-- Whatever port writes a signed operation, every port reads that operation back.  The libraries
carry the value across, and JavaScript's decodes the action as a Number. -/
theorem issued_operation_read_back (L : MsgPackLibraries) {σ : Type} {u : Cpp.Cursor σ}
    {At : σ → List WireValue → Prop} (hu : u.Lawful At) (hover : u.Over At L.unpacker)
    {op : Operation} (hlib : L.RoundTrips (operationOf op))
    (hnumber : ∀ b vs n, L.Issues op b → L.decode b = .ok (.array vs) → vs[2]? ≠ some (.bigint n))
    {b : Bytes} (hb : L.Issues op b) :
    Operation.fromPayload L.decode b = .ok op ∧
      Python.Operation.fromPayload L.unpackb b = .ok op ∧ Cpp.fromPayload u b = .ok op := by
  obtain ⟨hsigned, hwrites⟩ := hb.writes
  obtain ⟨⟨v, hv, hdecode⟩, ⟨w, hw, hunpackb⟩, ⟨x, hx, hunpacker⟩⟩ := hlib b hwrites
  obtain ⟨hne, s, hfeed, hs⟩ := hover b x hunpacker
  refine ⟨?_, ?_, cpp_fromPayload_of_stands hu hsigned hx hne hfeed hs⟩
  · rw [Operation.fromPayload, hdecode]
    exact js_fromValue_of_stands hsigned hv fun vs n h => hnumber b vs n hb (h ▸ hdecode)
  · rw [Python.Operation.fromPayload, hunpackb]
    exact python_fromValue_of_stands hsigned hw

/-! ## Libraries that keep to the format -/

section Scene

theorem objectReader_feed (b : Bytes) :
    Cpp.objectReader.feed b = (MsgPackLibraries.ofFormat.unpacker b).map ([·]) := rfl

theorem objectReader_over : Cpp.objectReader.Over Eq MsgPackLibraries.ofFormat.unpacker := by
  intro b v hb
  refine ⟨?_, [v], ?_, rfl⟩
  · rintro rfl
    cases hb
  · rw [objectReader_feed, hb, Option.map_some]

/-- Such a library decodes the action as a Number. -/
theorem ofFormat_number {op : Operation} (hfits : (operationOf op).Fits) {b : Bytes}
    {vs : List JsValue} (n : ℤ) (hb : MsgPackLibraries.ofFormat.Issues op b)
    (hvs : MsgPackLibraries.ofFormat.decode b = .ok (.array vs)) :
    vs[2]? ≠ some (.bigint n) := by
  have henc : b = encode (operationOf op) := by
    rcases hb.writes.2 with ⟨v, hv, rfl⟩ | ⟨v, hv, rfl | rfl⟩
    · exact congrArg encode (JsValue.toFormat_of_stands hv)
    · exact congrArg encode (WireValue.toFormat_of_stands hv)
    · exact congrArg encode (WireValue.toFormat_of_stands hv)
  have hdecode : MsgPackLibraries.ofFormat.decode b = .ok (JsValue.ofFormat (operationOf op)) := by
    simp [MsgPackLibraries.ofFormat, henc, decodeAll_encode hfits]
  rw [hdecode] at hvs
  obtain rfl := JsValue.array.inj (Except.ok.inj hvs)
  have hsmall : op.action.byte.toNat < 2 ^ 32 := op.action.byte.toNat_lt.trans (by norm_num)
  simp only [JsValue.allOfFormat, JsValue.ofFormat, if_pos hsmall]
  simp

theorem signedTwice_fits : (operationOf signedTwice).Fits := by
  decide

theorem issued_operation_read_back_signedTwice :
    Operation.fromPayload MsgPackLibraries.ofFormat.decode (encode (operationOf signedTwice)) =
        .ok signedTwice ∧
      Python.Operation.fromPayload MsgPackLibraries.ofFormat.unpackb
        (encode (operationOf signedTwice)) = .ok signedTwice ∧
      Cpp.fromPayload Cpp.objectReader (encode (operationOf signedTwice)) = .ok signedTwice :=
  issued_operation_read_back .ofFormat Cpp.objectReader_lawful objectReader_over
    (MsgPackLibraries.ofFormat_roundTrips signedTwice_fits)
    (fun _ _ n => ofFormat_number signedTwice_fits n) (.inl (by
      have h : encode signedTwice.toValue.toFormat = encode (operationOf signedTwice) :=
        congrArg encode (JsValue.toFormat_of_stands signedTwice.toValue_stands)
      exact congrArg Except.ok h))

theorem fromPayload_alike_signedTwice : ∃ wide wide',
    (Cpp.fromPayload Cpp.objectReader (encode (operationOf signedTwice))).toOption =
      (Python.Operation.fromValue (.array (signedTwice.fields wide wide').values)).toOption := by
  have hunpack : MsgPackLibraries.ofFormat.unpacker (encode (operationOf signedTwice)) =
      some (WireValue.ofFormat (operationOf signedTwice)) := by
    simp [MsgPackLibraries.ofFormat, decodeAll_encode signedTwice_fits]
  obtain ⟨wide, wide', hv⟩ :=
    WireValue.stands_operationOf (WireValue.ofFormat_stands (operationOf signedTwice))
  have hfeed : Cpp.objectReader.feed (encode (operationOf signedTwice)) =
      some [.array (signedTwice.fields wide wide').values] := by
    rw [objectReader_feed, hunpack, hv, Option.map_some]
    rfl
  exact ⟨wide, wide', Cpp.fromPayload_alike Cpp.objectReader_lawful (signedTwice.fields wide wide')
    (by decide) hfeed rfl⟩

end Scene

end Dacar

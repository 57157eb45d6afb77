import Dacar.Cpp.Cursor
import Dacar.PayloadAgreement

/-!
# Operations in C++

The C++ port decodes an Operation field by field, with one cursor that goes into the arrays.  On
fields whose numbers fit where they are read to, it takes the operations that Python takes.
-/

namespace Dacar

/-- `[issuer, grantee, action, hlc, relation_hash, object_hashes, wildcard, signatures]`, as
Python and C++ pack it. -/
def Operation.toWire (op : Operation) : WireValue :=
  .array [.bin op.tuple.issuer.val, .bin op.tuple.grantee.val,
    .int op.action.byte.toNat false, .int op.hlc (decide (op.hlc ≥ 2 ^ 32)),
    .bin op.tuple.relationHash.val, .array (op.tuple.objectHashes.map fun h => .bin h.val),
    .bool op.tuple.wildcard, .array (op.signatures.map fun s => .bin s.val)]

namespace Cpp

open Fallible

/-! ## Decoding an operation -/

section Decode

variable {σ : Type} (u : Cursor σ)

/-- A `bin_t` of a fixed size. -/
def readBlob (n : ℕ) (message : String) (s : σ) : Except String (Blob n × σ) :=
  let read := u.deserializeBin s
  match read.1 with
  | some b => if h : b.length = n then .ok (⟨b, h⟩, read.2) else .error message
  | none => .error message

/-- The loop over so many more elements, from index `i` on. -/
def readBlobs (n : ℕ) (name : String) : ℕ → ℕ → σ → Except String (List (Blob n) × σ)
  | 0, _, s => .ok ([], s)
  | count + 1, i, s => do
    let head ← readBlob u n s!"{name}[{i}] must be {n} bytes" s
    let tail ← readBlobs n name count (i + 1) head.2
    pure (head.1 :: tail.1, tail.2)

def readAction (s : σ) : Except String (Action × σ) :=
  let read := u.deserializeInt s
  match read.1 with
  | some action =>
    if action = 1 then .ok (.grant, read.2)
    else if action = 0 then .ok (.revoke, read.2)
    else .error "unknown action byte"
  | none => .error "unknown action byte"

def readHlc (s : σ) : Except String (ℕ × σ) :=
  let read := u.deserializeUInt s
  match read.1 with
  | some hlc => .ok (hlc, read.2)
  | none => .error "hlc must be a uint64 integer"

def readObjectHashes (s : σ) : Except String (List Hash × σ) :=
  if !u.isArray s then .error "object_hashes must be an array of 16-byte blobs"
  else
    let size := u.unpackArraySize s
    readBlobs u 16 "object_hashes" size.1 0 size.2

def readWildcard (s : σ) : Except String (Bool × σ) :=
  let read := u.deserializeBool s
  match read.1 with
  | some wildcard => .ok (wildcard, read.2)
  | none => .error "wildcard must be a boolean"

def readSignatures (s : σ) : Except String (List Signature × σ) :=
  if !u.isArray s then .error "signatures must be a non-empty array of 64-byte blobs"
  else
    let size := u.unpackArraySize s
    if size.1 = 0 then .error "signatures must be a non-empty array of 64-byte blobs"
    else readBlobs u 64 "signatures" size.1 0 size.2

/-- The constructor; the sizes of the signatures are checked already. -/
def makeOperation (tuple : Tuple) (action : Action) (hlc : ℕ) (signatures : List Signature) :
    Except String Operation :=
  if h : hlc ≤ maxHlc then .ok ⟨tuple, action, hlc, signatures, h⟩
  else .error "hlc must fit in 64 bits"

/-- What follows the header of an operation. -/
def readOperation (s : σ) : Except String Operation := do
  let issuer ← readBlob u 16 "issuer must be a 16-byte binary blob" s
  let grantee ← readBlob u 16 "grantee must be a 16-byte binary blob" issuer.2
  let action ← readAction u grantee.2
  let hlc ← readHlc u action.2
  let relationHash ← readBlob u 16 "relation_hash must be a 16-byte binary blob" hlc.2
  let objectHashes ← readObjectHashes u relationHash.2
  let wildcard ← readWildcard u objectHashes.2
  let signatures ← readSignatures u wildcard.2
  let tuple ← RawState.makeTuple relationHash.1 objectHashes.1 wildcard.1 grantee.1 issuer.1
  makeOperation tuple action.1 hlc.1 signatures.1

/-- `Operation::from_payload` -/
def fromPayload (data : Bytes) : Except String Operation :=
  if data.isEmpty then .error "payload is empty"
  else
    match u.feed data with
    | none => .error "payload is not decodable MessagePack"
    | some s =>
      if !u.isArray s then .error "payload must be an 8-element MessagePack array"
      else
        let size := u.unpackArraySize s
        if size.1 ≠ 8 then .error "payload must be an 8-element MessagePack array"
        else readOperation u size.2

/-- `Operation::to_payload` -/
def toPayload (packer : WireValue → Bytes) (op : Operation) : Except String Bytes :=
  if op.signatures.isEmpty then .error "Operation must be signed before payload serialization"
  else
    .ok (packer op.toWire)

end Decode

/-! ## What is decoded -/

/-- What a read gives of the objects before the cursor, and where it leaves the cursor. -/
structure Takes {σ α : Type} (At : σ → List WireValue → Prop) (x : Except String (α × σ))
    (o : Option α) (rest : List WireValue) : Prop where
  value : x.toOption.map Prod.fst = o
  next : ∀ a, x = .ok a → At a.2 rest

section Takes

variable {σ α β : Type} {At : σ → List WireValue → Prop} {x : Except String (α × σ)}
  {o : Option α} {mid rest : List WireValue}

theorem Takes.ok {a : α} {s : σ} (hs : At s rest) : Takes At (.ok (a, s)) (some a) rest :=
  ⟨rfl, by rintro _ ⟨⟩; exact hs⟩

theorem Takes.error (message : String) :
    Takes At (.error message : Except String (α × σ)) none rest :=
  ⟨rfl, fun _ h => nomatch h⟩

theorem Takes.toOption_bind (h : Takes At x o rest) {g : α × σ → Except String β}
    {k : α → Option β} (hg : ∀ a s, At s rest → (g (a, s)).toOption = k a) :
    (x >>= g).toOption = o.bind k := by
  obtain ⟨rfl, hnext⟩ := h
  cases x with
  | error e => rfl
  | ok a => exact hg a.1 a.2 (hnext a rfl)

theorem Takes.bind (h : Takes At x o mid) {g : α × σ → Except String (β × σ)}
    {k : α → Option β} (hg : ∀ a s, At s mid → Takes At (g (a, s)) (k a) rest) :
    Takes At (x >>= g) (o.bind k) rest := by
  obtain ⟨rfl, hnext⟩ := h
  cases x with
  | error e => exact .error e
  | ok a => exact hg a.1 a.2 (hnext a rfl)

end Takes

section Lawful

variable {σ : Type} {u : Cursor σ} {At : σ → List WireValue → Prop}

theorem readBlob_takes (hu : u.Lawful At) (n : ℕ) (message : String) {s : σ} {v : WireValue}
    {rest : List WireValue} (hs : At s (v :: rest)) :
    Takes At (readBlob u n message s) (blobOf n v) rest := by
  unfold readBlob
  by_cases hv : ∃ b, v = .bin b
  · obtain ⟨b, rfl⟩ := hv
    obtain ⟨hread, hnext⟩ := hu.deserializeBin s b rest hs
    dsimp only
    rw [hread, blobOf]
    dsimp only
    split_ifs with hlen
    · exact .ok hnext
    · exact .error message
  · obtain ⟨hread, -⟩ := hu.deserializeBin_fails s v rest hs fun b h => hv ⟨b, h⟩
    have hnone : blobOf n v = none := by
      cases v with
      | bin b => exact absurd ⟨b, rfl⟩ hv
      | _ => rfl
    dsimp only
    rw [hread, hnone]
    exact .error message

theorem readBlobs_takes (hu : u.Lawful At) (n : ℕ) (name : String) (vs : List WireValue) (i : ℕ)
    {s : σ} {rest : List WireValue} (hs : At s (vs ++ rest)) :
    Takes At (readBlobs u n name vs.length i s) (vs.mapM (blobOf n)) rest := by
  induction vs generalizing i s with
  | nil => exact .ok hs
  | cons v vs ih =>
    rw [List.mapM_cons]
    refine (readBlob_takes hu n _ hs).bind fun b s hs => ?_
    refine (ih (i + 1) hs).bind fun bs s hs => ?_
    exact .ok hs

theorem readAction_takes (hu : u.Lawful At) {s : σ} {n : ℤ} {wide : Bool}
    {rest : List WireValue} (hs : At s (.int n wide :: rest)) (hlow : -2 ^ 31 ≤ n)
    (hhigh : n < 2 ^ 31) : Takes At (readAction u s) (pyAction (.int n wide)) rest := by
  obtain ⟨hread, hnext⟩ := hu.deserializeInt s n wide rest hs hlow hhigh
  unfold readAction
  dsimp only
  rw [hread, pyAction_int]
  dsimp only
  split_ifs
  · exact .ok hnext
  · exact .ok hnext
  · exact .error _

theorem readAction_bin (hu : u.Lawful At) {s : σ} {b : Bytes} {rest : List WireValue}
    (hs : At s (.bin b :: rest)) : readAction u s = .error "unknown action byte" := by
  unfold readAction
  dsimp only
  rw [hu.deserializeInt_bin s b rest hs]

theorem readHlc_takes (hu : u.Lawful At) {s : σ} {n : ℤ} {wide : Bool} {rest : List WireValue}
    (hs : At s (.int n wide :: rest)) (hlow : 0 ≤ n) (hhigh : n ≤ maxHlc) :
    Takes At (readHlc u s) (some n.toNat) rest := by
  obtain ⟨-, -, -, hread, hnext⟩ := hu.uint s n wide rest hs hlow hhigh
  unfold readHlc
  dsimp only
  rw [hread]
  exact .ok hnext

theorem readWildcard_takes (hu : u.Lawful At) {s : σ} {v : WireValue} {rest : List WireValue}
    (hs : At s (v :: rest)) : Takes At (readWildcard u s) (flagOf v) rest := by
  unfold readWildcard
  by_cases hv : ∃ b, v = .bool b
  · obtain ⟨b, rfl⟩ := hv
    obtain ⟨hread, hnext⟩ := hu.deserializeBool s b rest hs
    dsimp only
    rw [hread]
    exact .ok hnext
  · have hread := hu.deserializeBool_fails s v rest hs fun b h => hv ⟨b, h⟩
    have hnone : flagOf v = none := by
      cases v with
      | bool b => exact absurd ⟨b, rfl⟩ hv
      | _ => rfl
    dsimp only
    rw [hread, hnone]
    exact .error _

/-- Before what is no array. -/
theorem isArray_eq_false (hu : u.Lawful At) {s : σ} {v : WireValue} {rest : List WireValue}
    (hs : At s (v :: rest)) (hv : ∀ vs, v ≠ .array vs) : u.isArray s = false := by
  rw [Bool.eq_false_iff, Ne, hu.isArray s v rest hs]
  exact fun ⟨vs, h⟩ => hv vs h

theorem readObjectHashes_takes (hu : u.Lawful At) {s : σ} {v : WireValue} {rest : List WireValue}
    (hs : At s (v :: rest)) : Takes At (readObjectHashes u s) (segmentsOf v) rest := by
  unfold readObjectHashes
  by_cases hv : ∃ vs, v = .array vs
  · obtain ⟨vs, rfl⟩ := hv
    obtain ⟨hsize, hnext⟩ := hu.unpackArraySize s vs rest hs
    rw [(hu.isArray s _ rest hs).mpr ⟨vs, rfl⟩, if_neg (by simp)]
    dsimp only
    rw [hsize]
    exact readBlobs_takes hu 16 _ vs 0 hnext
  · rw [isArray_eq_false hu hs fun vs h => hv ⟨vs, h⟩, if_pos (by simp)]
    have hnone : segmentsOf v = none := by
      cases v with
      | array vs => exact absurd ⟨vs, rfl⟩ hv
      | _ => rfl
    rw [hnone]
    exact .error _

theorem readSignatures_takes (hu : u.Lawful At) {s : σ} {v : WireValue} {rest : List WireValue}
    (hs : At s (v :: rest)) : Takes At (readSignatures u s) (signaturesOf v) rest := by
  unfold readSignatures
  by_cases hv : ∃ vs, v = .array vs
  · obtain ⟨vs, rfl⟩ := hv
    obtain ⟨hsize, hnext⟩ := hu.unpackArraySize s vs rest hs
    rw [(hu.isArray s _ rest hs).mpr ⟨vs, rfl⟩, if_neg (by simp)]
    dsimp only
    rw [hsize]
    cases vs with
    | nil => exact .error _
    | cons sig sigs =>
      rw [if_neg (by simp)]
      exact readBlobs_takes hu 64 _ (sig :: sigs) 0 hnext
  · rw [isArray_eq_false hu hs fun vs h => hv ⟨vs, h⟩, if_pos (by simp)]
    have hnone : signaturesOf v = none := by
      cases v with
      | array vs => exact absurd ⟨vs, rfl⟩ hv
      | _ => rfl
    rw [hnone]
    exact .error _

theorem toOption_makeTuple (relationHash : Hash) (objectHashes : List Hash) (wildcard : Bool)
    (grantee issuer : Hash) :
    (RawState.makeTuple relationHash objectHashes wildcard grantee issuer).toOption =
      (Tuple.make relationHash objectHashes wildcard grantee issuer).toOption := by
  unfold RawState.makeTuple Tuple.make
  split_ifs <;> rfl

theorem toOption_makeOperation (tuple : Tuple) (action : Action) (hlc : ℕ)
    (signatures : List Signature) : (makeOperation tuple action hlc signatures).toOption =
      (Operation.make tuple action hlc signatures).toOption := by
  unfold makeOperation Operation.make
  split_ifs with h h' h'
  · rfl
  · exact absurd ⟨by omega, by exact_mod_cast h⟩ h'
  · exact absurd (by exact_mod_cast h'.2) h
  · rfl

/-! ## The fields of an operation -/

/-- Eight fields whose action fits in an `int32_t` and whose HLC fits in a `uint64_t`. -/
structure Fields where
  issuer : WireValue
  grantee : WireValue
  action : ℤ
  actionWide : Bool
  hlc : ℤ
  hlcWide : Bool
  relationHash : WireValue
  objectHashes : WireValue
  wildcard : WireValue
  signatures : WireValue
  action_low : -2 ^ 31 ≤ action
  action_high : action < 2 ^ 31
  hlc_low : 0 ≤ hlc
  hlc_high : hlc ≤ maxHlc

def Fields.values (f : Fields) : List WireValue :=
  [f.issuer, f.grantee, .int f.action f.actionWide, .int f.hlc f.hlcWide, f.relationHash,
    f.objectHashes, f.wildcard, f.signatures]

theorem pyHlc_field (f : Fields) : pyHlc (.int f.hlc f.hlcWide) = some f.hlc := by
  rw [pyHlc_of_integral (show Integral (.int f.hlc f.hlcWide) from trivial), jsHlc_eq_some,
    toBigInt_toJs_int]
  exact ⟨rfl, f.hlc_low, f.hlc_high⟩

theorem readOperation_eq_some (hu : u.Lawful At) (f : Fields) {s : σ} {rest : List WireValue}
    (hs : At s (f.values ++ rest)) {op : Operation} :
    (readOperation u s).toOption = some op ↔
      Reads (blobOf 16 f.issuer) (blobOf 16 f.grantee) (pyAction (.int f.action f.actionWide))
        (some f.hlc) (blobOf 16 f.relationHash) (segmentsOf f.objectHashes) (flagOf f.wildcard)
        (signaturesOf f.signatures) op := by
  have hread : (readOperation u s).toOption =
      (blobOf 16 f.issuer).bind fun issuer =>
      (blobOf 16 f.grantee).bind fun grantee =>
      (pyAction (.int f.action f.actionWide)).bind fun action =>
      (some f.hlc.toNat).bind fun hlc =>
      (blobOf 16 f.relationHash).bind fun relationHash =>
      (segmentsOf f.objectHashes).bind fun objectHashes =>
      (flagOf f.wildcard).bind fun wildcard =>
      (signaturesOf f.signatures).bind fun signatures =>
      (Tuple.make relationHash objectHashes wildcard grantee issuer).toOption.bind fun tuple =>
      (Operation.make tuple action hlc signatures).toOption := by
    unfold readOperation
    refine (readBlob_takes hu 16 _ hs).toOption_bind fun issuer s hs => ?_
    refine (readBlob_takes hu 16 _ hs).toOption_bind fun grantee s hs => ?_
    refine (readAction_takes hu hs f.action_low f.action_high).toOption_bind fun action s hs => ?_
    refine (readHlc_takes hu hs f.hlc_low f.hlc_high).toOption_bind fun hlc s hs => ?_
    refine (readBlob_takes hu 16 _ hs).toOption_bind fun relationHash s hs => ?_
    refine (readObjectHashes_takes hu hs).toOption_bind fun objectHashes s hs => ?_
    refine (readWildcard_takes hu hs).toOption_bind fun wildcard s hs => ?_
    refine (readSignatures_takes hu hs).toOption_bind fun signatures s _ => ?_
    rw [toOption_bind, toOption_makeTuple]
    simp only [toOption_makeOperation]
  have hnat : (f.hlc.toNat : ℤ) = f.hlc := Int.toNat_of_nonneg f.hlc_low
  rw [hread]
  simp only [Option.bind_eq_some_iff, Option.some.injEq, tupleMake_eq_some, operationMake_eq_some]
  constructor
  · rintro ⟨i, hi, g, hg, a, ha, n, rfl, r, hr, os, hos, w, hw, sigs, hsigs, t,
      ⟨rfl, rfl, rfl, rfl, rfl⟩, rfl, rfl, hn, rfl⟩
    exact ⟨hi, hg, ha, congrArg some (hnat.symm.trans hn), hr, hos, hw, hsigs⟩
  · rintro ⟨hi, hg, ha, hn, hr, hos, hw, hsigs⟩
    exact ⟨_, hi, _, hg, _, ha, _, rfl, _, hr, _, hos, _, hw, _, hsigs, _,
      ⟨rfl, rfl, rfl, rfl, rfl⟩, rfl, rfl, hnat.trans (Option.some.inj hn), rfl⟩

theorem fromPayload_eq (hu : u.Lawful At) (f : Fields) {data : Bytes} {s : σ}
    {rest : List WireValue} (hne : data ≠ []) (hfeed : u.feed data = some s)
    (hs : At s (.array f.values :: rest)) :
    ∃ s', At s' (f.values ++ rest) ∧ fromPayload u data = readOperation u s' := by
  obtain ⟨hsize, hnext⟩ := hu.unpackArraySize s f.values rest hs
  have harray : u.isArray s = true := (hu.isArray s _ rest hs).mpr ⟨_, rfl⟩
  refine ⟨_, hnext, ?_⟩
  rw [fromPayload, if_neg (by simpa using hne), hfeed]
  dsimp only
  rw [harray, if_neg (by decide), hsize, if_neg (by simp [Fields.values])]

/-- Where the numbers fit, the port takes the operations that Python takes. -/
theorem fromPayload_alike (hu : u.Lawful At) (f : Fields) {data : Bytes} {s : σ}
    {rest : List WireValue} (hne : data ≠ []) (hfeed : u.feed data = some s)
    (hs : At s (.array f.values :: rest)) :
    (fromPayload u data).toOption = (Python.Operation.fromValue (.array f.values)).toOption := by
  obtain ⟨s', hs', hread⟩ := fromPayload_eq hu f hne hfeed hs
  apply Option.ext
  intro op
  rw [hread, readOperation_eq_some hu f hs', ← pyHlc_field]
  exact pyFromValue_eq_some.symm

/-- An operation begins with its issuer and its grantee, and then comes no byte string. -/
theorem exists_head_of_readOperation (hu : u.Lawful At) {s : σ} {vs rest : List WireValue}
    (hs : At s (vs ++ rest)) (hvs : vs.length = 8) {op : Operation}
    (h : readOperation u s = .ok op) :
    ∃ v tail, vs = .bin op.tuple.issuer.val :: .bin op.tuple.grantee.val :: v :: tail ∧
      ∀ b, v ≠ .bin b := by
  obtain ⟨i, g, a, tail, rfl⟩ : ∃ i g a tail, vs = i :: g :: a :: tail := by
    match vs, hvs with
    | i :: g :: a :: tail, _ => exact ⟨i, g, a, tail, rfl⟩
  unfold readOperation at h
  obtain ⟨issuer, hissuer, h⟩ := ok_of_bind h
  obtain ⟨grantee, hgrantee, h⟩ := ok_of_bind h
  obtain ⟨action, haction, h⟩ := ok_of_bind h
  obtain ⟨hlc, -, h⟩ := ok_of_bind h
  obtain ⟨relationHash, -, h⟩ := ok_of_bind h
  obtain ⟨objectHashes, -, h⟩ := ok_of_bind h
  obtain ⟨wildcard, -, h⟩ := ok_of_bind h
  obtain ⟨signatures, -, h⟩ := ok_of_bind h
  obtain ⟨tuple, htuple, h⟩ := ok_of_bind h
  have hi := readBlob_takes hu 16 "issuer must be a 16-byte binary blob" hs
  have hg := readBlob_takes hu 16 "grantee must be a 16-byte binary blob" (hi.next _ hissuer)
  have hafter := hg.next _ hgrantee
  have hiv := hi.value
  have hgv := hg.value
  rw [hissuer] at hiv
  rw [hgrantee] at hgv
  obtain rfl := blobOf_eq_some.mp hiv.symm
  obtain rfl := blobOf_eq_some.mp hgv.symm
  have hop := operationMake_eq_some.mp
    ((toOption_makeOperation _ _ _ _).symm.trans (congrArg Except.toOption h))
  have hparts := tupleMake_eq_some.mp
    ((toOption_makeTuple _ _ _ _ _).symm.trans (congrArg Except.toOption htuple))
  refine ⟨a, tail, ?_, ?_⟩
  · rw [hparts.2.2.2.2, hparts.2.2.2.1, hop.1]
  · rintro b rfl
    rw [readAction_bin hu hafter] at haction
    cases haction

end Lawful

end Cpp

end Dacar

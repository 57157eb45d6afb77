import Dacar.Fallible
import Dacar.Payload
import Dacar.WireValue

/-!
# Which payloads the two ports agree on

Either port reads the eight fields one by one and fails when one cannot be read.  They
read five of them alike.  Python also takes a boolean, or an integer that JavaScript sees
as a BigInt, for the action; JavaScript takes whatever `BigInt()` takes for the HLC, and
an empty byte string for the segments.
-/

namespace Dacar

open Fallible

/-! ## The fields that both ports read alike -/

/-- A byte string of the right length. -/
def blobOf (n : ℕ) : WireValue → Option (Blob n)
  | .bin b => if h : b.length = n then some ⟨b, h⟩ else none
  | _ => none

theorem blobOf_eq_some {n : ℕ} {v : WireValue} {b : Blob n} :
    blobOf n v = some b ↔ v = .bin b.val := by
  constructor
  · intro h
    cases v with
    | bin c =>
      rw [blobOf] at h
      split_ifs at h
      exact congrArg WireValue.bin (congrArg Subtype.val (Option.some.inj h))
    | _ => cases h
  · rintro rfl
    rw [blobOf, dif_pos b.property]

def flagOf : WireValue → Option Bool
  | .bool b => some b
  | _ => none

/-- At least one signature. -/
def signaturesOf : WireValue → Option (List Signature)
  | .array (sig :: sigs) => (sig :: sigs).mapM (blobOf 64)
  | _ => none

theorem toOption_expectBytes (n : ℕ) (name : String) (v : WireValue) :
    (expectBytes n name v.toJs).toOption = blobOf n v := by
  cases v with
  | bin b =>
    rw [WireValue.toJs, expectBytes, blobOf]
    split_ifs <;> rfl
  | int m wide => cases wide <;> rfl
  | _ => rfl

theorem toOption_pyExpectBytes (n : ℕ) (name : String) (v : WireValue) :
    (Python.expectBytes n name v).toOption = blobOf n v := by
  cases v with
  | bin b =>
    rw [Python.expectBytes, blobOf]
    split_ifs <;> rfl
  | _ => rfl

theorem toOption_expectBool (name : String) (v : WireValue) :
    (expectBool name v.toJs).toOption = flagOf v := by
  cases v with
  | int m wide => cases wide <;> rfl
  | _ => rfl

theorem toOption_pyExpectBool (name : String) (v : WireValue) :
    (Python.expectBool name v).toOption = flagOf v := by
  cases v <;> rfl

theorem toOption_expectBlobs (n : ℕ) (name : String) (i : ℕ) (vs : List WireValue) :
    (Python.expectBlobs n name i vs).toOption = vs.mapM (blobOf n) := by
  induction vs generalizing i with
  | nil => rfl
  | cons v vs ih =>
    rw [Python.expectBlobs, List.mapM_cons, ← toOption_pyExpectBytes n name v]
    cases Python.expectBytes n name v with
    | error e => rfl
    | ok b =>
      change (Python.expectBlobs n name (i + 1) vs >>= fun bs => pure (b :: bs)).toOption = _
      rw [toOption_bind, ih]
      rfl

theorem mapM_expectBytes_toJs (n : ℕ) (name : String) (vs : List WireValue) :
    ((vs.map WireValue.toJs).mapM (expectBytes n name)).toOption = vs.mapM (blobOf n) := by
  rw [toOption_mapM]
  induction vs with
  | nil => rfl
  | cons v vs ih => rw [List.map_cons, List.mapM_cons, List.mapM_cons, ih, toOption_expectBytes]

/-! ## The fields they read differently -/

def pyAction (v : WireValue) : Option Action := (Python.Action.ofValue v).toOption
def jsAction (v : WireValue) : Option Action := (Action.ofValue v.toJs).toOption

/-- In range, as either port asks for later. -/
def inRange (n : ℤ) : Option ℤ := if 0 ≤ n ∧ n ≤ maxHlc then some n else none

def pyHlc (v : WireValue) : Option ℤ := (Python.expectHlc v).toOption
def jsHlc (v : WireValue) : Option ℤ := v.toJs.toBigInt.bind inRange

def segmentsOf : WireValue → Option (List Hash)
  | .array vs => vs.mapM (blobOf 16)
  | _ => none

def jsSegments (v : WireValue) : Option (List Hash) :=
  match v with
  | .bin [] => some []
  | v => segmentsOf v

theorem toOption_segments (v : WireValue) :
    (mapElements (expectBytes 16 "object_hash") v.toJs).toOption = jsSegments v := by
  cases v with
  | array vs =>
    rw [WireValue.toJs, mapElements, WireValue.toJsAll_eq_map, mapM_expectBytes_toJs]
    rfl
  | bin b =>
    cases b with
    | nil => rfl
    | cons x b =>
      rw [WireValue.toJs, mapElements, List.map_cons, List.mapM_cons]
      rfl
  | int m wide => cases wide <;> rfl
  | _ => rfl

theorem toOption_pySegments (v : WireValue) :
    (Python.expectObjectHashes v).toOption = segmentsOf v := by
  cases v with
  | array hs => exact toOption_expectBlobs 16 _ 0 hs
  | _ => rfl

theorem toOption_pySignatures (v : WireValue) :
    (Python.expectSignatures v).toOption = signaturesOf v := by
  cases v with
  | array vs =>
    cases vs with
    | nil => rfl
    | cons sig sigs => exact toOption_expectBlobs 64 _ 0 (sig :: sigs)
  | _ => rfl

/-! ## Reading an operation -/

/-- Every field reads as the one that the operation has. -/
structure Reads (issuer grantee : Option Hash) (action : Option Action) (hlc : Option ℤ)
    (relationHash : Option Hash) (objectHashes : Option (List Hash)) (wildcard : Option Bool)
    (signatures : Option (List Signature)) (op : Operation) : Prop where
  issuer : issuer = some op.tuple.issuer
  grantee : grantee = some op.tuple.grantee
  action : action = some op.action
  hlc : hlc = some (op.hlc : ℤ)
  relationHash : relationHash = some op.tuple.relationHash
  objectHashes : objectHashes = some op.tuple.objectHashes
  wildcard : wildcard = some op.tuple.wildcard
  signatures : signatures = some op.signatures

section Make

variable {issuer grantee relationHash : Hash} {objectHashes : List Hash} {wildcard : Bool}
  {tuple : Tuple} {action : Action} {hlc : ℤ} {signatures : List Signature} {op : Operation}

theorem tupleMake_eq_some :
    (Tuple.make relationHash objectHashes wildcard grantee issuer).toOption = some tuple ↔
      relationHash = tuple.relationHash ∧ objectHashes = tuple.objectHashes ∧
        wildcard = tuple.wildcard ∧ grantee = tuple.grantee ∧ issuer = tuple.issuer := by
  have hle := tuple.segments_le
  cases tuple
  by_cases hs : objectHashes.length ≤ maxSegments
  · simp [Tuple.make, hs, Except.toOption]
  · simp only [Tuple.make, hs, Except.toOption, dite_false]
    constructor
    · intro h
      cases h
    · rintro ⟨-, rfl, -⟩
      exact absurd hle hs

theorem operationMake_eq_some :
    (Operation.make tuple action hlc signatures).toOption = some op ↔
      tuple = op.tuple ∧ action = op.action ∧ hlc = op.hlc ∧ signatures = op.signatures := by
  have hle := op.hlc_le
  cases op
  by_cases hh : 0 ≤ hlc ∧ hlc ≤ maxHlc
  · simp [Operation.make, hh, Except.toOption]
    omega
  · simp only [Operation.make, hh, Except.toOption, dite_false]
    constructor
    · intro h
      cases h
    · rintro ⟨-, -, rfl, -⟩
      exact absurd ⟨by omega, by exact_mod_cast hle⟩ hh

theorem toOption_pyTupleMake :
    (Python.Tuple.make relationHash objectHashes wildcard grantee issuer).toOption =
      (Tuple.make relationHash objectHashes wildcard grantee issuer).toOption := by
  unfold Python.Tuple.make Tuple.make
  split_ifs <;> rfl

theorem toOption_pyOperationMake :
    (Python.Operation.make tuple action hlc signatures).toOption =
      (Operation.make tuple action hlc signatures).toOption := by
  unfold Python.Operation.make Operation.make
  split_ifs <;> rfl

end Make

section Fields

variable {issuer grantee action hlc relationHash objectHashes wildcard signatures : WireValue}
  {op : Operation}

theorem pyFromValue_eq_some :
    (Python.Operation.fromValue (.array [issuer, grantee, action, hlc, relationHash,
      objectHashes, wildcard, signatures])).toOption = some op ↔
      Reads (blobOf 16 issuer) (blobOf 16 grantee) (pyAction action) (pyHlc hlc)
        (blobOf 16 relationHash) (segmentsOf objectHashes) (flagOf wildcard)
        (signaturesOf signatures) op := by
  rw [Python.Operation.fromValue]
  simp only [toOption_bind, toOption_pyExpectBytes, toOption_pyExpectBool, toOption_pySegments,
    toOption_pySignatures, toOption_pyTupleMake, toOption_pyOperationMake,
    Option.bind_eq_some_iff, tupleMake_eq_some, operationMake_eq_some]
  constructor
  · rintro ⟨i, hi, g, hg, r, hr, w, hw, a, ha, n, hn, os, hos, sigs, hsigs, t,
      ⟨rfl, rfl, rfl, rfl, rfl⟩, rfl, rfl, rfl, rfl⟩
    exact ⟨hi, hg, ha, hn, hr, hos, hw, hsigs⟩
  · rintro ⟨hi, hg, ha, hn, hr, hos, hw, hsigs⟩
    exact ⟨_, hi, _, hg, _, hr, _, hw, _, ha, _, hn, _, hos, _, hsigs, _,
      ⟨rfl, rfl, rfl, rfl, rfl⟩, rfl, rfl, rfl, rfl⟩

theorem toOption_expectBigInt (v : JsValue) : (expectBigInt v).toOption = v.toBigInt := by
  rw [expectBigInt]
  cases v.toBigInt <;> rfl

/-- JavaScript looks at the HLC's range last, in the constructor. -/
theorem jsHlc_eq_some {v : WireValue} {n : ℤ} :
    jsHlc v = some n ↔ v.toJs.toBigInt = some n ∧ 0 ≤ n ∧ n ≤ maxHlc := by
  simp only [jsHlc, inRange, Option.bind_eq_some_iff]
  constructor
  · rintro ⟨m, hm, hr⟩
    split_ifs at hr with h
    obtain rfl := Option.some.inj hr
    exact ⟨hm, h⟩
  · rintro ⟨hn, hr⟩
    exact ⟨n, hn, if_pos hr⟩

theorem jsHlc_of_op {v : WireValue} :
    v.toJs.toBigInt = some (op.hlc : ℤ) ↔ jsHlc v = some (op.hlc : ℤ) := by
  rw [jsHlc_eq_some]
  have hle := op.hlc_le
  exact ⟨fun h => ⟨h, by omega, by exact_mod_cast hle⟩, And.left⟩

/-- What the port does past the list of signatures. -/
theorem jsFromValue_of_signatures {sig : WireValue} {sigs : List WireValue} :
    (Operation.fromValue (WireValue.array [issuer, grantee, action, hlc, relationHash,
      objectHashes, wildcard, .array (sig :: sigs)]).toJs).toOption = some op ↔
      Reads (blobOf 16 issuer) (blobOf 16 grantee) (jsAction action) (jsHlc hlc)
        (blobOf 16 relationHash) (jsSegments objectHashes) (flagOf wildcard)
        (signaturesOf (.array (sig :: sigs))) op := by
  have hsigs : ((sig.toJs :: sigs.map WireValue.toJs).mapM (expectBytes 64 "signature")).toOption =
      signaturesOf (.array (sig :: sigs)) := mapM_expectBytes_toJs 64 _ (sig :: sigs)
  simp only [WireValue.toJs, WireValue.toJsAll, WireValue.toJsAll_eq_map]
  rw [Operation.fromValue]
  simp only [pure_bind, toOption_bind, toOption_expectBytes, toOption_expectBool,
    toOption_segments, toOption_expectBigInt, hsigs, Option.bind_eq_some_iff, tupleMake_eq_some,
    operationMake_eq_some]
  constructor
  · rintro ⟨a, ha, r, hr, os, hos, w, hw, g, hg, i, hi, t, ⟨rfl, rfl, rfl, rfl, rfl⟩, n, hn, sigs,
      hsigs, rfl, rfl, rfl, rfl⟩
    exact ⟨hi, hg, ha, jsHlc_of_op.mp hn, hr, hos, hw, hsigs⟩
  · rintro ⟨hi, hg, ha, hn, hr, hos, hw, hsigs⟩
    exact ⟨_, ha, _, hr, _, hos, _, hw, _, hg, _, hi, _, ⟨rfl, rfl, rfl, rfl, rfl⟩, _,
      jsHlc_of_op.mpr hn, _, hsigs, rfl, rfl, rfl, rfl⟩

theorem jsFromValue_eq_some :
    (Operation.fromValue (WireValue.array [issuer, grantee, action, hlc, relationHash,
      objectHashes, wildcard, signatures]).toJs).toOption = some op ↔
      Reads (blobOf 16 issuer) (blobOf 16 grantee) (jsAction action) (jsHlc hlc)
        (blobOf 16 relationHash) (jsSegments objectHashes) (flagOf wildcard)
        (signaturesOf signatures) op := by
  by_cases h : ∃ sig sigs, signatures = .array (sig :: sigs)
  · obtain ⟨sig, sigs, rfl⟩ := h
    exact jsFromValue_of_signatures
  · -- neither port reads signatures from anything else
    have hnone : signaturesOf signatures = none := by
      cases signatures with
      | array vs =>
        cases vs with
        | nil => rfl
        | cons sig sigs => exact absurd ⟨sig, sigs, rfl⟩ h
      | _ => rfl
    have hthrow : (Operation.fromValue (WireValue.array [issuer, grantee, action, hlc,
        relationHash, objectHashes, wildcard, signatures]).toJs).toOption = none := by
      simp only [WireValue.toJs, WireValue.toJsAll]
      rw [Operation.fromValue, toOption_bind]
      cases signatures with
      | array vs =>
        cases vs with
        | nil => exact Option.bind_fun_none _
        | cons sig sigs => exact absurd ⟨sig, sigs, rfl⟩ h
      | int n wide => cases wide <;> exact Option.bind_fun_none _
      | _ => exact Option.bind_fun_none _
    rw [hthrow, hnone]
    constructor
    · intro hop
      cases hop
    · intro hop
      cases hop.signatures

end Fields

/-! ## Where they part -/

/-- Integers and booleans. -/
def Integral : WireValue → Prop
  | .int _ _ | .bool _ => True
  | _ => False

/-- The actions that Python alone takes. -/
def Loose : WireValue → Prop
  | .bool _ => True
  | .int n wide => wide = true ∧ (n = 0 ∨ n = 1)
  | _ => False

theorem pyAction_int (n : ℤ) (wide : Bool) : pyAction (.int n wide) =
    if n = 1 then some .grant else if n = 0 then some .revoke else none := by
  rw [pyAction, Python.Action.ofValue]
  split_ifs <;> rfl

theorem jsAction_int (n : ℤ) : jsAction (.int n false) = pyAction (.int n false) := by
  have h1 : (n : ℚ) = 1 ↔ n = 1 := by exact_mod_cast Iff.rfl
  have h0 : (n : ℚ) = 0 ↔ n = 0 := by exact_mod_cast Iff.rfl
  rw [pyAction_int, jsAction, WireValue.toJs, if_neg Bool.false_ne_true, Action.ofValue]
  simp only [h1, h0]
  split_ifs <;> rfl

theorem jsAction_float (x : JsNumber) : jsAction (.float x) = pyAction (.float x) := by
  cases x with
  | finite q =>
    rw [jsAction, pyAction, WireValue.toJs, Action.ofValue, Python.Action.ofValue]
    split_ifs <;> rfl
  | _ => rfl

theorem action_of_loose {v : WireValue} (h : Loose v) :
    jsAction v = none ∧ (pyAction v).isSome = true := by
  cases v with
  | bool b => exact ⟨rfl, rfl⟩
  | int n wide =>
    obtain ⟨rfl, rfl | rfl⟩ := h
    · exact ⟨rfl, rfl⟩
    · exact ⟨rfl, rfl⟩
  | _ => exact h.elim

theorem action_of_not_loose {v : WireValue} (h : ¬ Loose v) : jsAction v = pyAction v := by
  cases v with
  | bool b => exact absurd trivial h
  | int n wide =>
    cases wide with
    | false => exact jsAction_int n
    | true =>
      -- a BigInt that is neither 0 nor 1
      have h1 : n ≠ 1 := fun hn => h ⟨rfl, Or.inr hn⟩
      have h0 : n ≠ 0 := fun hn => h ⟨rfl, Or.inl hn⟩
      rw [pyAction_int, if_neg h1, if_neg h0]
      rfl
  | float x => exact jsAction_float x
  | _ => rfl

theorem toBigInt_toJs_int (n : ℤ) (wide : Bool) :
    (WireValue.int n wide).toJs.toBigInt = some n := by
  cases wide with
  | true => rfl
  | false => simp [WireValue.toJs, JsValue.toBigInt]

theorem pyHlc_of_integral {v : WireValue} (h : Integral v) : pyHlc v = jsHlc v := by
  cases v with
  | int n wide =>
    rw [jsHlc, toBigInt_toJs_int, Option.bind_some, inRange, pyHlc, Python.expectHlc]
    split_ifs <;> rfl
  | bool b => cases b <;> rfl
  | _ => exact h.elim

theorem pyHlc_of_not_integral {v : WireValue} (h : ¬ Integral v) : pyHlc v = none := by
  cases v with
  | int n wide => exact absurd trivial h
  | bool b => exact absurd trivial h
  | _ => rfl

theorem jsSegments_of_ne {v : WireValue} (h : v ≠ .bin []) : jsSegments v = segmentsOf v := by
  cases v with
  | bin b =>
    cases b with
    | nil => exact absurd rfl h
    | cons x b => rfl
  | _ => rfl

/-- Not more segments than a Tuple takes. -/
def Fits (segments : Option (List Hash)) : Prop := ∃ hs ∈ segments, hs.length ≤ maxSegments

/-- Everything else is in order, and a field is one that only one of the ports takes. -/
def Disputed : WireValue → Prop
  | .array [issuer, grantee, action, hlc, relationHash, objectHashes, wildcard, signatures] =>
    ((blobOf 16 issuer).isSome ∧ (blobOf 16 grantee).isSome ∧ (blobOf 16 relationHash).isSome ∧
      (flagOf wildcard).isSome ∧ (signaturesOf signatures).isSome) ∧
    ((Loose action ∧ (pyHlc hlc).isSome ∧ Fits (segmentsOf objectHashes)) ∨
      ((jsAction action).isSome ∧ (jsHlc hlc).isSome ∧ Fits (jsSegments objectHashes) ∧
        (¬ Integral hlc ∨ objectHashes = .bin [])))
  | _ => False

theorem jsHlc_range {v : WireValue} {n : ℤ} (h : jsHlc v = some n) : 0 ≤ n ∧ n ≤ maxHlc :=
  (jsHlc_eq_some.mp h).2

theorem pyHlc_range {v : WireValue} {n : ℤ} (h : pyHlc v = some n) : 0 ≤ n ∧ n ≤ maxHlc := by
  by_cases hi : Integral v
  · exact jsHlc_range (pyHlc_of_integral hi ▸ h)
  · rw [pyHlc_of_not_integral hi] at h
    cases h

/-- Fields that can all be read, in range, are those of an operation. -/
theorem exists_reads {issuer grantee : Option Hash} {action : Option Action}
    {hlc : Option ℤ} {relationHash : Option Hash} {objectHashes : Option (List Hash)}
    {wildcard : Option Bool} {signatures : Option (List Signature)}
    (hissuer : issuer.isSome) (hgrantee : grantee.isSome) (haction : action.isSome)
    (hhlc : hlc.isSome) (hrange : ∀ n, hlc = some n → 0 ≤ n ∧ n ≤ maxHlc)
    (hrelation : relationHash.isSome) (hsegments : Fits objectHashes)
    (hwildcard : wildcard.isSome) (hsignatures : signatures.isSome) :
    ∃ op, Reads issuer grantee action hlc relationHash objectHashes wildcard signatures op := by
  obtain ⟨i, rfl⟩ := Option.isSome_iff_exists.mp hissuer
  obtain ⟨g, rfl⟩ := Option.isSome_iff_exists.mp hgrantee
  obtain ⟨a, rfl⟩ := Option.isSome_iff_exists.mp haction
  obtain ⟨n, rfl⟩ := Option.isSome_iff_exists.mp hhlc
  obtain ⟨r, rfl⟩ := Option.isSome_iff_exists.mp hrelation
  obtain ⟨os, rfl, hle⟩ := hsegments
  obtain ⟨w, rfl⟩ := Option.isSome_iff_exists.mp hwildcard
  obtain ⟨sigs, rfl⟩ := Option.isSome_iff_exists.mp hsignatures
  have hn := hrange n rfl
  have hnat : (n.toNat : ℤ) = n := Int.toNat_of_nonneg hn.1
  refine ⟨⟨⟨r, os, w, g, i, hle⟩, a, n.toNat, sigs, by omega⟩, rfl, rfl, rfl, ?_, rfl, rfl, rfl,
    rfl⟩
  exact congrArg some hnat.symm

section Eight

variable (issuer grantee action hlc relationHash objectHashes wildcard signatures : WireValue)

theorem accepted_alike_of_eight :
    (Python.Operation.fromValue (.array [issuer, grantee, action, hlc, relationHash,
      objectHashes, wildcard, signatures])).toOption =
      (Operation.fromValue (WireValue.array [issuer, grantee, action, hlc, relationHash,
        objectHashes, wildcard, signatures]).toJs).toOption ↔
      ¬ Disputed (.array [issuer, grantee, action, hlc, relationHash, objectHashes, wildcard,
        signatures]) := by
  constructor
  · rintro h ⟨⟨hi, hg, hr, hw, hs⟩, ⟨hloose, hhlc, hfits⟩ | ⟨haction, hhlc, hfits, hodd⟩⟩
    · -- Python accepts, JavaScript does not read the action
      obtain ⟨hjs, hpy⟩ := action_of_loose hloose
      obtain ⟨op, hop⟩ := exists_reads hi hg hpy hhlc (fun _ => pyHlc_range) hr hfits hw hs
      have hread := jsFromValue_eq_some.mp (h ▸ pyFromValue_eq_some.mpr hop)
      rw [hread.action] at hjs
      cases hjs
    · -- JavaScript accepts, Python does not read the HLC or the segments
      obtain ⟨op, hop⟩ := exists_reads hi hg haction hhlc (fun _ => jsHlc_range) hr hfits hw hs
      have hread := pyFromValue_eq_some.mp (h.trans (jsFromValue_eq_some.mpr hop))
      rcases hodd with hhlc | rfl
      · cases (pyHlc_of_not_integral hhlc).symm.trans hread.hlc
      · cases hread.objectHashes
  · intro hnot
    apply Option.ext
    intro op
    rw [pyFromValue_eq_some, jsFromValue_eq_some]
    have hsome : ∀ {α : Type} {x : Option α} {a : α}, x = some a → x.isSome = true := by
      rintro α x a rfl
      rfl
    constructor
    · intro hop
      have hloose : ¬ Loose action := fun hl => hnot ⟨⟨hsome hop.issuer, hsome hop.grantee,
        hsome hop.relationHash, hsome hop.wildcard, hsome hop.signatures⟩,
        Or.inl ⟨hl, hsome hop.hlc, _, hop.objectHashes, op.tuple.segments_le⟩⟩
      have hint : Integral hlc := by
        by_contra hi
        cases (pyHlc_of_not_integral hi).symm.trans hop.hlc
      have hne : objectHashes ≠ .bin [] := by
        rintro rfl
        cases hop.objectHashes
      exact ⟨hop.issuer, hop.grantee, (action_of_not_loose hloose).trans hop.action,
        (pyHlc_of_integral hint).symm.trans hop.hlc, hop.relationHash,
        (jsSegments_of_ne hne).trans hop.objectHashes, hop.wildcard, hop.signatures⟩
    · intro hop
      have hloose : ¬ Loose action := fun hl => by
        cases (action_of_loose hl).1.symm.trans hop.action
      have hodd : ¬ (¬ Integral hlc ∨ objectHashes = .bin []) := fun ho =>
        hnot ⟨⟨hsome hop.issuer, hsome hop.grantee, hsome hop.relationHash, hsome hop.wildcard,
          hsome hop.signatures⟩, Or.inr ⟨hsome hop.action, hsome hop.hlc,
          ⟨_, hop.objectHashes, op.tuple.segments_le⟩, ho⟩⟩
      rw [not_or, not_not] at hodd
      exact ⟨hop.issuer, hop.grantee, (action_of_not_loose hloose).symm.trans hop.action,
        (pyHlc_of_integral hodd.1).trans hop.hlc, hop.relationHash,
        (jsSegments_of_ne hodd.2).symm.trans hop.objectHashes, hop.wildcard, hop.signatures⟩

end Eight

theorem eight_of_disputed {v : WireValue} (h : Disputed v) :
    ∃ a b c d e f g k, v = .array [a, b, c, d, e, f, g, k] := by
  unfold Disputed at h
  split at h
  · exact ⟨_, _, _, _, _, _, _, _, rfl⟩
  · exact h.elim

/-- The two ports accept a payload alike, with the same operation, unless it is disputed. -/
theorem accepted_alike_iff (v : WireValue) :
    (Python.Operation.fromValue v).toOption = (Operation.fromValue v.toJs).toOption ↔
      ¬ Disputed v := by
  by_cases h : ∃ a b c d e f g k, v = .array [a, b, c, d, e, f, g, k]
  · obtain ⟨a, b, c, d, e, f, g, k, rfl⟩ := h
    exact accepted_alike_of_eight a b c d e f g k
  · refine iff_of_true ?_ fun hd => h (eight_of_disputed hd)
    -- no array of eight elements: both throw
    cases v with
    | array vs =>
      rcases vs with _ | ⟨a, _ | ⟨b, _ | ⟨c, _ | ⟨d, _ | ⟨e, _ | ⟨f, _ | ⟨g, _ | ⟨k,
        _ | ⟨l, vs⟩⟩⟩⟩⟩⟩⟩⟩⟩
      all_goals first
        | exact absurd ⟨_, _, _, _, _, _, _, _, rfl⟩ h
        | rfl
    | int n wide => cases wide <;> rfl
    | _ => rfl

/-! ## A boolean action -/

def disputedFields (action hlc objectHashes : WireValue) : WireValue :=
  .array [.bin (Blob.fill 16 1).val, .bin (Blob.fill 16 2).val, action, hlc,
    .bin (Blob.fill 16 3).val, objectHashes, .bool false, .array [.bin (Blob.fill 64 4).val]]

/-- An issuer may encode the action as `true`: Python merges the grant, JavaScript drops it. -/
theorem boolean_action_disputed :
    (Python.Operation.fromValue
      (disputedFields (.bool true) (.int 1 false) (.array []))).toOption ≠
      (Operation.fromValue
        (disputedFields (.bool true) (.int 1 false) (.array [])).toJs).toOption := by
  decide

end Dacar

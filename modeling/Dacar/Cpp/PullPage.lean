import Dacar.Snapshot

/-!
# The page of a pull

The client reads the answer of a pull object by object, with a cursor that goes into arrays.
A pair that it does not take leaves the cursor where the reading stopped.
-/

namespace Dacar.Cpp

/-! ## The cursor of the library -/

/-- `MsgPack::Unpacker`: the tests look at the next object, the reads move on. -/
structure StreamUnpacker (σ : Type) where
  feed : Bytes → Option σ
  isUInt : σ → Bool
  isArray : σ → Bool
  isBool : σ → Bool
  unpackArraySize : σ → ℕ × σ
  unpackBool : σ → Bool × σ
  deserializeUInt : σ → Option ℕ × σ
  deserializeBin : σ → Option Bytes × σ

/-- What lies before the cursor is these objects; an array counts as one until its header is
read, and then its fields are the next objects. -/
structure StreamUnpacker.Lawful {σ : Type} (u : StreamUnpacker σ) (At : σ → List WireValue → Prop) :
    Prop where
  isUInt : ∀ s v rest, At s (v :: rest) → u.isUInt s = true → ∃ n wide, v = .int n wide
  isArray : ∀ s v rest, At s (v :: rest) → (u.isArray s = true ↔ ∃ vs, v = .array vs)
  isBool : ∀ s v rest, At s (v :: rest) → (u.isBool s = true ↔ ∃ b, v = .bool b)
  unpackArraySize : ∀ s vs rest, At s (.array vs :: rest) →
    (u.unpackArraySize s).1 = vs.length ∧ At (u.unpackArraySize s).2 (vs ++ rest)
  unpackBool : ∀ s b rest, At s (.bool b :: rest) → (u.unpackBool s).1 = b
  deserializeBin : ∀ s b rest, At s (.bin b :: rest) →
    (u.deserializeBin s).1 = some b ∧ At (u.deserializeBin s).2 rest
  deserializeBin_fails : ∀ s v rest, At s (v :: rest) → (∀ b, v ≠ .bin b) →
    (u.deserializeBin s).1 = none ∧ At (u.deserializeBin s).2 (v :: rest)

/-! ## `RFedClient::pull` -/

structure PullItem where
  channelHash : Bytes
  blob : Bytes
  deriving DecidableEq

structure PullPage where
  items : List PullItem := []
  morePending : Bool := false
  deriving DecidableEq

/-- The page with `ok` and `error_code`. -/
structure Pulled where
  page : PullPage := {}
  ok : Bool := false
  errorCode : ℤ := -1
  deriving DecidableEq

section Pull

variable {σ : Type} (u : StreamUnpacker σ)

/-- The loop over the pairs, with as many turns to come.  The three ways on that push nothing
leave the cursor where it is. -/
def readPairs : ℕ → σ → List PullItem → σ × List PullItem
  | 0, s, items => (s, items)
  | pairs + 1, s, items =>
    if !u.isArray s then readPairs pairs s items
    else
      let fields := u.unpackArraySize s
      if fields.1 < 2 then readPairs pairs fields.2 items
      else
        let channelHash := u.deserializeBin fields.2
        match channelHash.1 with
        | none => readPairs pairs channelHash.2 items
        | some hash =>
          let blob := u.deserializeBin channelHash.2
          match blob.1 with
          | none => readPairs pairs blob.2 items
          | some b => readPairs pairs blob.2 (items ++ [⟨hash, b⟩])

/-- The array is gone through if it is one, then the flag is read if there is one. -/
def readPage (s : σ) : PullPage :=
  let read :=
    if u.isArray s then
      let pairs := u.unpackArraySize s
      readPairs u pairs.1 pairs.2 []
    else (s, [])
  { items := read.2, morePending := u.isBool read.1 && (u.unpackBool read.1).1 }

/-- `pull`, from the answer to the request on. -/
def decodePage (response : Bytes) : Pulled :=
  if response.isEmpty then {}
  else
    match u.feed response with
    | none => {}
    | some s =>
      if u.isUInt s then
        -- the code is cast to an `int`
        { errorCode := (u.deserializeUInt s).1.elim (-1) fun code => (code : ℤ).bmod (2 ^ 32) }
      else if !u.isArray s then {}
      else
        let outer := u.unpackArraySize s
        if outer.1 < 2 then {} else { page := readPage u outer.2, ok := true }

/-- `RFedClient::pull`; the link and the request over it may raise. -/
def pull (request : Except String Bytes) : Except String Pulled := request.map (decodePage u)

end Pull

/-! ## The reading in terms of objects -/

/-- What is read of the fields of one array, and the fields that are left. -/
def readFields : List WireValue → Option PullItem × List WireValue
  | .bin hash :: .bin b :: fields => (some ⟨hash, b⟩, fields)
  | .bin _ :: v :: fields => (none, v :: fields)
  | fields => (none, fields)

/-- The pairs that so many turns read, and the objects that are left.  On an object that is no
array all turns to come are spent. -/
def skim : ℕ → List WireValue → List PullItem × List WireValue
  | pairs + 1, .array fields :: rest =>
    ((readFields fields).1.toList ++ (skim pairs ((readFields fields).2 ++ rest)).1,
      (skim pairs ((readFields fields).2 ++ rest)).2)
  | _, objects => ([], objects)

/-- The flag that is read before these objects. -/
def nextFlag : List WireValue → Bool
  | .bool b :: _ => b
  | _ => false

theorem readFields_of_ne {v : WireValue} (hv : ∀ b, v ≠ .bin b) (fields : List WireValue) :
    readFields (v :: fields) = (none, v :: fields) := by
  cases v <;> first | rfl | exact absurd rfl (hv _)

theorem readFields_bin_of_ne {v : WireValue} (hv : ∀ b, v ≠ .bin b) (hash : Bytes)
    (fields : List WireValue) : readFields (.bin hash :: v :: fields) = (none, v :: fields) := by
  cases v <;> first | rfl | exact absurd rfl (hv _)

theorem readFields_of_few {fields : List WireValue} (h : fields.length < 2) :
    readFields fields = (none, fields) := by
  match fields, h with
  | [], _ => rfl
  | [v], _ => cases v <;> rfl

section Lawful

variable {σ : Type} {u : StreamUnpacker σ} {At : σ → List WireValue → Prop} (hu : u.Lawful At)
include hu

/-- Before an object that is no array the loop does nothing. -/
theorem readPairs_stuck {v : WireValue} (hv : ∀ vs, v ≠ .array vs) {s : σ} {rest : List WireValue}
    (hs : At s (v :: rest)) (pairs : ℕ) (items : List PullItem) :
    readPairs u pairs s items = (s, items) := by
  have hno : u.isArray s = false := by
    rw [Bool.eq_false_iff, Ne, hu.isArray s v rest hs]
    exact fun ⟨vs, h⟩ => hv vs h
  induction pairs with
  | zero => rfl
  | succ pairs ih => rw [readPairs, if_pos (by rw [hno]; rfl), ih]

/-- One turn before an array. -/
theorem readPairs_array {fields rest : List WireValue} {s : σ}
    (hs : At s (.array fields :: rest)) :
    ∃ s', At s' ((readFields fields).2 ++ rest) ∧ ∀ pairs items,
      readPairs u (pairs + 1) s items =
        readPairs u pairs s' (items ++ (readFields fields).1.toList) := by
  have harray : ¬(!u.isArray s) = true := by simp [(hu.isArray s _ _ hs).mpr ⟨_, rfl⟩]
  obtain ⟨hsize, hfields⟩ := hu.unpackArraySize s _ _ hs
  by_cases hfew : fields.length < 2
  · rw [readFields_of_few hfew]
    refine ⟨_, hfields, fun pairs items => ?_⟩
    rw [readPairs, if_neg harray]
    dsimp only
    rw [if_pos (by rw [hsize]; exact hfew), Option.toList_none, List.append_nil]
  · obtain ⟨v, w, fields, rfl⟩ : ∃ v w fs, fields = v :: w :: fs := by
      match fields, hfew with
      | v :: w :: fs, _ => exact ⟨v, w, fs, rfl⟩
      | [v], h => exact absurd (show 1 < 2 by decide) h
      | [], h => exact absurd (show 0 < 2 by decide) h
    have hmany : ¬(u.unpackArraySize s).1 < 2 := by rw [hsize]; exact hfew
    by_cases hv : ∃ hash, v = .bin hash
    · obtain ⟨hash, rfl⟩ := hv
      obtain ⟨hhash, hnext⟩ := hu.deserializeBin _ _ _ hfields
      by_cases hw : ∃ b, w = .bin b
      · obtain ⟨b, rfl⟩ := hw
        obtain ⟨hb, hrest⟩ := hu.deserializeBin _ _ _ hnext
        refine ⟨_, hrest, fun pairs items => ?_⟩
        rw [readPairs, if_neg harray]
        dsimp only
        rw [if_neg hmany, hhash]
        dsimp only
        rw [hb]
        rfl
      · have hne : ∀ b, w ≠ .bin b := fun b h => hw ⟨b, h⟩
        obtain ⟨hnone, hstay⟩ := hu.deserializeBin_fails _ _ _ hnext hne
        rw [readFields_bin_of_ne hne]
        refine ⟨_, hstay, fun pairs items => ?_⟩
        rw [readPairs, if_neg harray]
        dsimp only
        rw [if_neg hmany, hhash]
        dsimp only
        rw [hnone, Option.toList_none, List.append_nil]
    · have hne : ∀ b, v ≠ .bin b := fun b h => hv ⟨b, h⟩
      obtain ⟨hnone, hstay⟩ := hu.deserializeBin_fails _ _ _ hfields hne
      rw [readFields_of_ne hne]
      refine ⟨_, hstay, fun pairs items => ?_⟩
      rw [readPairs, if_neg harray]
      dsimp only
      rw [if_neg hmany, hnone, Option.toList_none, List.append_nil]

/-- The loop reads what the objects before the flag hold. -/
theorem readPairs_eq (pairs : ℕ) {objects : List WireValue} {flag : Bool} {s : σ}
    (hs : At s (objects ++ [.bool flag])) (items : List PullItem) :
    ∃ s', readPairs u pairs s items = (s', items ++ (skim pairs objects).1) ∧
      At s' ((skim pairs objects).2 ++ [.bool flag]) := by
  fun_induction skim pairs objects generalizing s items with
  | case1 pairs fields rest ih =>
    rw [List.cons_append] at hs
    obtain ⟨s₁, hs₁, hturn⟩ := readPairs_array hu hs
    rw [← List.append_assoc] at hs₁
    obtain ⟨s', hread, hs'⟩ := ih hs₁ (items ++ (readFields fields).1.toList)
    refine ⟨s', ?_, hs'⟩
    rw [hturn, hread, List.append_assoc]
  | case2 pairs objects hno =>
    refine ⟨s, ?_, hs⟩
    rw [List.append_nil]
    cases pairs with
    | zero => rfl
    | succ pairs =>
      cases objects with
      | nil => exact readPairs_stuck hu (by simp) hs _ items
      | cons v rest =>
        have hv : ∀ vs, v ≠ .array vs := fun vs h => hno pairs vs rest rfl (h ▸ rfl)
        exact readPairs_stuck hu hv hs _ items

theorem readFlag {s : σ} {objects : List WireValue} {flag : Bool}
    (hs : At s (objects ++ [.bool flag])) :
    (u.isBool s && (u.unpackBool s).1) = nextFlag (objects ++ [.bool flag]) := by
  obtain ⟨v, rest, hcons⟩ : ∃ v rest, objects ++ [.bool flag] = v :: rest :=
    List.exists_cons_of_ne_nil (by simp)
  rw [hcons] at hs ⊢
  have hbool := hu.isBool s v rest hs
  cases v with
  | bool b => rw [hbool.mpr ⟨b, rfl⟩, Bool.true_and, hu.unpackBool s b rest hs, nextFlag]
  | _ =>
    rw [Bool.eq_false_of_not_eq_true (mt hbool.mp (by simp)), Bool.false_and]
    rfl

/-- The page that is decoded, where the response is an array of an array and a flag. -/
theorem decodePage_eq {response : Bytes} {elements : List WireValue} {flag : Bool} {s : σ}
    (hne : response ≠ []) (hfeed : u.feed response = some s)
    (hs : At s [.array [.array elements, .bool flag]]) :
    decodePage u response = {
      page := {
        items := (skim elements.length elements).1
        morePending := nextFlag ((skim elements.length elements).2 ++ [.bool flag]) }
      ok := true } := by
  have huint : ¬u.isUInt s = true := fun h => by
    obtain ⟨n, wide, hint⟩ := hu.isUInt s _ _ hs h
    cases hint
  have harray : ¬(!u.isArray s) = true := by simp [(hu.isArray s _ _ hs).mpr ⟨_, rfl⟩]
  obtain ⟨hsize, hinner⟩ := hu.unpackArraySize s _ _ hs
  have hpairs : u.isArray (u.unpackArraySize s).2 = true :=
    (hu.isArray _ _ _ hinner).mpr ⟨_, rfl⟩
  obtain ⟨hcount, helements⟩ := hu.unpackArraySize _ _ _ hinner
  obtain ⟨s', hread, hs'⟩ := readPairs_eq hu elements.length helements []
  have hflag := readFlag hu hs'
  rw [decodePage, if_neg (by simpa using hne), hfeed]
  dsimp only
  rw [if_neg huint, if_neg harray, if_neg (by simp [hsize]), readPage, hpairs]
  simp only [if_true, hcount, hread, List.nil_append, hflag]

end Lawful

/-! ## Malformed pairs -/

/-- A pair is an array that starts with two binaries. -/
def pairOf : WireValue → Option PullItem
  | .array (.bin hash :: .bin b :: _) => some ⟨hash, b⟩
  | _ => none

/-- The cursor comes out behind it: no fields, or two binaries and no more. -/
def Plain : WireValue → Prop
  | .array [] => True
  | .array [.bin _, .bin _] => True
  | _ => False

theorem skim_cons {e : WireValue} (he : Plain e) (pairs : ℕ) (rest : List WireValue) :
    skim (pairs + 1) (e :: rest) =
      ((pairOf e).toList ++ (skim pairs rest).1, (skim pairs rest).2) := by
  match e, he with
  | .array [], _ => rfl
  | .array [.bin _, .bin _], _ => rfl

theorem skim_plain {elements : List WireValue} (h : ∀ e ∈ elements, Plain e) :
    skim elements.length elements = (elements.filterMap pairOf, []) := by
  induction elements with
  | nil => rfl
  | cons e elements ih =>
    rw [List.forall_mem_cons] at h
    rw [List.length_cons, skim_cons h.1, ih h.2, List.filterMap_cons]
    cases pairOf e <;> rfl

/-- The fields of an array that is not plain are not all read. -/
theorem plain_of_readFields {fields : List WireValue} (h : (readFields fields).2 = []) :
    Plain (.array fields) := by
  match fields with
  | [] => trivial
  | v :: fields =>
    by_cases hv : ∃ hash, v = .bin hash
    · obtain ⟨hash, rfl⟩ := hv
      cases fields with
      | nil => cases h
      | cons w fields =>
        by_cases hw : ∃ b, w = .bin b
        · obtain ⟨b, rfl⟩ := hw
          obtain rfl : fields = [] := h
          trivial
        · rw [readFields_bin_of_ne fun b hb => hw ⟨b, hb⟩] at h
          cases h
    · rw [readFields_of_ne fun b hb => hv ⟨b, hb⟩] at h
      cases h

/-- With more objects than turns some are left. -/
theorem skim_left {pairs : ℕ} {objects : List WireValue} (h : pairs < objects.length) :
    (skim pairs objects).2 ≠ [] := by
  fun_induction skim pairs objects with
  | case1 pairs fields rest ih =>
    refine ih ?_
    rw [List.length_append]
    rw [List.length_cons] at h
    omega
  | case2 pairs objects hno => exact List.ne_nil_of_length_pos (Nat.zero_lt_of_lt h)

/-- An element that is not plain leaves the cursor before the end. -/
theorem skim_not_plain {elements : List WireValue} (h : ¬∀ e ∈ elements, Plain e) :
    (skim elements.length elements).2 ≠ [] := by
  induction elements with
  | nil => exact absurd (by simp) h
  | cons e elements ih =>
    by_cases he : Plain e
    · rw [List.forall_mem_cons, not_and] at h
      rw [List.length_cons, skim_cons he]
      exact ih (h he)
    · cases e with
      | array fields =>
        have hne : (readFields fields).2 ≠ [] := mt plain_of_readFields he
        have hpos := List.length_pos_of_ne_nil hne
        have hleft : (skim elements.length ((readFields fields).2 ++ elements)).2 ≠ [] :=
          skim_left (by rw [List.length_append]; omega)
        exact hleft
      | _ => exact List.cons_ne_nil _ _

/-- What a pull is to return of a page. -/
def isolated (elements : List WireValue) (flag : Bool) : Pulled where
  page := { items := elements.filterMap pairOf, morePending := flag }
  ok := true

/-- The bytes are those of `[elements, flag]`. -/
structure Answers {σ : Type} (u : StreamUnpacker σ) (At : σ → List WireValue → Prop)
    (response : Bytes) (elements : List WireValue) (flag : Bool) : Prop where
  ne_nil : response ≠ []
  feed : ∃ s, u.feed response = some s ∧ At s [.array [.array elements, .bool flag]]

/-- Pages with the elements are read as they should be, whatever the flag, exactly when all the
elements are plain. -/
theorem pull_isolates_iff {σ : Type} {u : StreamUnpacker σ} {At : σ → List WireValue → Prop}
    (hu : u.Lawful At) (elements : List WireValue) {response : Bool → Bytes}
    (hresponse : ∀ flag, Answers u At (response flag) elements flag) :
    (∀ flag, pull u (.ok (response flag)) = .ok (isolated elements flag)) ↔
      ∀ e ∈ elements, Plain e := by
  have hpull : ∀ flag, pull u (.ok (response flag)) = .ok {
      page := {
        items := (skim elements.length elements).1
        morePending := nextFlag ((skim elements.length elements).2 ++ [.bool flag]) }
      ok := true } := fun flag => by
    obtain ⟨s, hfeed, hs⟩ := (hresponse flag).feed
    exact congrArg Except.ok (decodePage_eq hu (hresponse flag).ne_nil hfeed hs)
  constructor
  · intro h
    by_contra hplain
    -- an object that is left stands before the flag, so the flag is not looked at
    obtain ⟨v, rest, hleft⟩ := List.exists_cons_of_ne_nil (skim_not_plain hplain)
    have hflag : ∀ flag, nextFlag (v :: rest ++ [.bool flag]) = flag := fun flag => by
      rw [← hleft]
      have hpage := Except.ok.inj ((hpull flag).symm.trans (h flag))
      exact congrArg (fun r => r.page.morePending) hpage
    have hsame : nextFlag (v :: rest ++ [.bool true]) = nextFlag (v :: rest ++ [.bool false]) := by
      cases v <;> rfl
    rw [hflag, hflag] at hsame
    cases hsame
  · intro h flag
    rw [hpull, skim_plain h]
    rfl

section Scene

/-- A cursor into decoded objects. -/
def objectUnpacker : StreamUnpacker (List WireValue) where
  feed b := (MsgPackLibraries.ofFormat.unpacker b).map ([·])
  isUInt s := match s with
    | .int n _ :: _ => 0 ≤ n
    | _ => false
  isArray s := match s with
    | .array _ :: _ => true
    | _ => false
  isBool s := match s with
    | .bool _ :: _ => true
    | _ => false
  unpackArraySize s := match s with
    | .array vs :: rest => (vs.length, vs ++ rest)
    | _ => (0, s)
  unpackBool s := match s with
    | .bool b :: rest => (b, rest)
    | _ => (false, s)
  deserializeUInt s := match s with
    | .int n wide :: rest => if 0 ≤ n then (some n.toNat, rest) else (none, .int n wide :: rest)
    | _ => (none, s)
  deserializeBin s := match s with
    | .bin b :: rest => (some b, rest)
    | _ => (none, s)

theorem objectUnpacker_lawful : objectUnpacker.Lawful Eq where
  isUInt := by
    rintro _ v rest rfl h
    cases v <;> first | exact ⟨_, _, rfl⟩ | cases h
  isArray := by
    rintro _ v rest rfl
    cases v <;> simp [objectUnpacker]
  isBool := by
    rintro _ v rest rfl
    cases v <;> simp [objectUnpacker]
  unpackArraySize := by
    rintro _ vs rest rfl
    exact ⟨rfl, rfl⟩
  unpackBool := by
    rintro _ b rest rfl
    rfl
  deserializeBin := by
    rintro _ b rest rfl
    exact ⟨rfl, rfl⟩
  deserializeBin_fails := by
    rintro _ v rest rfl hv
    cases v <;> first | exact ⟨rfl, rfl⟩ | exact absurd rfl (hv _)

/-- The bytes of `[elements, flag]`. -/
def answer (elements : List MessagePack.Value) (flag : Bool) : Bytes :=
  MessagePack.encode (.array [.array elements, .bool flag])

theorem answers_objectUnpacker {elements : List MessagePack.Value} {flag : Bool}
    (h : (MessagePack.Value.array [.array elements, .bool flag]).Fits) :
    Answers objectUnpacker Eq (answer elements flag) (WireValue.allOfFormat elements) flag where
  ne_nil := by
    have hheader : ∀ n, MessagePack.arrayHeader n ≠ [] := fun n => by
      unfold MessagePack.arrayHeader
      split_ifs <;> exact List.cons_ne_nil _ _
    rw [answer, MessagePack.encode]
    exact List.append_ne_nil_of_left_ne_nil (hheader _) _
  feed := by
    have hfeed : ∀ b, objectUnpacker.feed b =
      ((MessagePack.decodeAll b).map WireValue.ofFormat).map ([·]) := fun b => rfl
    have hwire : WireValue.ofFormat (.array [.array elements, .bool flag]) =
        .array [.array (WireValue.allOfFormat elements), .bool flag] := by
      rw [WireValue.ofFormat, WireValue.allOfFormat, WireValue.ofFormat, WireValue.allOfFormat,
        WireValue.ofFormat, WireValue.allOfFormat]
    rw [hfeed, answer, MessagePack.decodeAll_encode h, Option.map_some, hwire, Option.map_some]
    exact ⟨_, rfl, rfl⟩

/-- Nothing, and one pair. -/
def mixedElements : List MessagePack.Value := [.array [], .array [.bin [1], .bin [2]]]

theorem pull_isolates_iff_mixed :
    pull objectUnpacker (.ok (answer mixedElements false)) =
        .ok { page := { items := [⟨[1], [2]⟩], morePending := false }, ok := true } ∧
      pull objectUnpacker (.ok (answer mixedElements true)) =
        .ok { page := { items := [⟨[1], [2]⟩], morePending := true }, ok := true } := by
  have hplain : ∀ e ∈ WireValue.allOfFormat mixedElements, Plain e := by
    rintro e he
    rcases List.mem_pair.mp he with rfl | rfl <;> trivial
  have h := (pull_isolates_iff objectUnpacker_lawful (WireValue.allOfFormat mixedElements)
    fun flag => answers_objectUnpacker (by revert flag; decide)).mpr hplain
  exact ⟨h false, h true⟩

/-- A `nil` before a pair. -/
def nilElements : List MessagePack.Value := [.nil, .array [.bin [1], .bin [2]]]

/-- The pair after the `nil` is not returned. -/
theorem nil_hides_pair :
    Answers objectUnpacker Eq (answer nilElements false) (WireValue.allOfFormat nilElements) false ∧
      pull objectUnpacker (.ok (answer nilElements false)) ≠
        .ok (isolated (WireValue.allOfFormat nilElements) false) := by
  have hanswers : Answers objectUnpacker Eq (answer nilElements false)
      (WireValue.allOfFormat nilElements) false := answers_objectUnpacker (by decide)
  obtain ⟨s, hfeed, hs⟩ := hanswers.feed
  refine ⟨hanswers, fun h => ?_⟩
  have hpage := decodePage_eq objectUnpacker_lawful hanswers.ne_nil hfeed hs
  have hitems := congrArg (fun r => r.page.items) (hpage.symm.trans (Except.ok.inj h))
  cases hitems

end Scene

end Dacar.Cpp

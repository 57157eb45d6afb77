import Dacar.Cpp.PullPage

/-!
# The whole cursor

The tests and reads that the other decoders of the C++ port make on the cursor, beside those of
a pull.  A map counts as one object until its header is read, and then its keys and values are
the next objects.
-/

namespace Dacar.Cpp

structure Cursor (σ : Type) extends StreamUnpacker σ where
  isInt : σ → Bool
  isStr : σ → Bool
  isBin : σ → Bool
  isNil : σ → Bool
  isMap : σ → Bool
  unpackUInt : σ → ℕ × σ
  unpackInt : σ → ℤ × σ
  unpackNil : σ → σ
  unpackMapSize : σ → ℕ × σ
  /-- Into an `int32_t`. -/
  deserializeInt : σ → Option ℤ × σ
  deserializeBool : σ → Option Bool × σ
  deserializeStr : σ → Option String × σ

/-- The keys and values of a map, as they follow its header. -/
def flatFields (fields : List (WireValue × WireValue)) : List WireValue :=
  fields.flatMap fun f => [f.1, f.2]

/-- Nothing is said of numbers that do not fit where they are read to. -/
structure Cursor.Lawful {σ : Type} (u : Cursor σ) (At : σ → List WireValue → Prop) : Prop
    extends u.toStreamUnpacker.Lawful At where
  uint : ∀ s n wide rest, At s (.int n wide :: rest) → 0 ≤ n → n ≤ maxHlc →
    u.isUInt s = true ∧ (u.unpackUInt s).1 = n.toNat ∧ At (u.unpackUInt s).2 rest ∧
      (u.deserializeUInt s).1 = some n.toNat ∧ At (u.deserializeUInt s).2 rest
  isStr : ∀ s v rest, At s (v :: rest) → (u.isStr s = true ↔ ∃ t, v = .str t)
  isBin : ∀ s v rest, At s (v :: rest) → (u.isBin s = true ↔ ∃ b, v = .bin b)
  isNil : ∀ s v rest, At s (v :: rest) → (u.isNil s = true ↔ v = .nil)
  isMap : ∀ s v rest, At s (v :: rest) → (u.isMap s = true ↔ ∃ fields, v = .map fields)
  isInt : ∀ s v rest, At s (v :: rest) → u.isInt s = true → ∃ n wide, v = .int n wide
  unpackBool_next : ∀ s b rest, At s (.bool b :: rest) → At (u.unpackBool s).2 rest
  unpackNil : ∀ s rest, At s (.nil :: rest) → At (u.unpackNil s) rest
  unpackMapSize : ∀ s fields rest, At s (.map fields :: rest) →
    (u.unpackMapSize s).1 = fields.length ∧ At (u.unpackMapSize s).2 (flatFields fields ++ rest)
  deserializeInt : ∀ s n wide rest, At s (.int n wide :: rest) → -2 ^ 31 ≤ n → n < 2 ^ 31 →
    (u.deserializeInt s).1 = some n ∧ At (u.deserializeInt s).2 rest
  deserializeInt_bin : ∀ s b rest, At s (.bin b :: rest) → (u.deserializeInt s).1 = none
  deserializeBool : ∀ s b rest, At s (.bool b :: rest) →
    (u.deserializeBool s).1 = some b ∧ At (u.deserializeBool s).2 rest
  deserializeBool_fails : ∀ s v rest, At s (v :: rest) → (∀ b, v ≠ .bool b) →
    (u.deserializeBool s).1 = none
  deserializeStr : ∀ s t rest, At s (.str t :: rest) →
    (u.deserializeStr s).1 = some t ∧ At (u.deserializeStr s).2 rest
  deserializeStr_fails : ∀ s v rest, At s (v :: rest) → (∀ t, v ≠ .str t) →
    (u.deserializeStr s).1 = none ∧ At (u.deserializeStr s).2 (v :: rest)

section Scene

/-- A cursor into decoded objects, with all its reads. -/
def objectReader : Cursor (List WireValue) where
  toStreamUnpacker := objectUnpacker
  isInt s := match s with
    | .int _ _ :: _ => true
    | _ => false
  isStr s := match s with
    | .str _ :: _ => true
    | _ => false
  isBin s := match s with
    | .bin _ :: _ => true
    | _ => false
  isNil s := match s with
    | .nil :: _ => true
    | _ => false
  isMap s := match s with
    | .map _ :: _ => true
    | _ => false
  unpackUInt s := match s with
    | .int n _ :: rest => (n.toNat, rest)
    | _ => (0, s)
  unpackInt s := match s with
    | .int n _ :: rest => (n, rest)
    | _ => (0, s)
  unpackNil s := match s with
    | .nil :: rest => rest
    | _ => s
  unpackMapSize s := match s with
    | .map fields :: rest => (fields.length, flatFields fields ++ rest)
    | _ => (0, s)
  deserializeInt s := match s with
    | .int n _ :: rest => (some n, rest)
    | _ => (none, s)
  deserializeBool s := match s with
    | .bool b :: rest => (some b, rest)
    | _ => (none, s)
  deserializeStr s := match s with
    | .str t :: rest => (some t, rest)
    | _ => (none, s)

theorem objectReader_lawful : objectReader.Lawful Eq where
  toLawful := objectUnpacker_lawful
  uint := by
    rintro _ n wide rest rfl hn -
    simp [objectReader, objectUnpacker, hn]
  isStr := by
    rintro _ v rest rfl
    cases v <;> simp [objectReader]
  isBin := by
    rintro _ v rest rfl
    cases v <;> simp [objectReader]
  isNil := by
    rintro _ v rest rfl
    cases v <;> simp [objectReader]
  isMap := by
    rintro _ v rest rfl
    cases v <;> simp [objectReader]
  isInt := by
    rintro _ v rest rfl h
    cases v <;> first | exact ⟨_, _, rfl⟩ | cases h
  unpackBool_next := by
    rintro _ b rest rfl
    rfl
  unpackNil := by
    rintro _ rest rfl
    rfl
  unpackMapSize := by
    rintro _ fields rest rfl
    exact ⟨rfl, rfl⟩
  deserializeInt := by
    rintro _ n wide rest rfl - -
    exact ⟨rfl, rfl⟩
  deserializeInt_bin := by
    rintro _ b rest rfl
    rfl
  deserializeBool := by
    rintro _ b rest rfl
    exact ⟨rfl, rfl⟩
  deserializeBool_fails := by
    rintro _ v rest rfl hv
    cases v <;> first | rfl | exact absurd rfl (hv _)
  deserializeStr := by
    rintro _ t rest rfl
    exact ⟨rfl, rfl⟩
  deserializeStr_fails := by
    rintro _ v rest rfl hv
    cases v <;> first | exact ⟨rfl, rfl⟩ | exact absurd rfl (hv _)

end Scene

end Dacar.Cpp

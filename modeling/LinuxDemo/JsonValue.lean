/-
LinuxDemo/JsonValue.lean

The JSON values.

An array and an object are both a `std::map`, from indices and from names; here
each is the list of its entries in the order of the keys.  An array may have
indices without an entry, which read as null.  A string may be the NULL that
`Value(stringValue)` leaves.  The `double`s of a value are of a type `ρ`.

Comments and offsets are left out: the values are those without comments.  Of the
functions that are modelled the styled writers write the comments of a value, and the
readers set them if they collect comments.
-/
import LinuxDemo.JsonTool
import LinuxDemo.Lib.OrdMap
import Mathlib.Data.List.Lex

namespace LinuxDemo.Json

/-- `char` as an unsigned byte, the order of `memcmp`. -/
instance byteOrder : LinearOrder UInt8 where
  le_refl := UInt8.le_refl
  le_trans _ _ _ := UInt8.le_trans
  lt_iff_le_not_ge a b := by
    rw [UInt8.lt_iff_toNat_lt, UInt8.le_iff_toNat_le, UInt8.le_iff_toNat_le]
    exact Nat.lt_iff_le_and_not_ge
  le_antisymm _ _ := UInt8.le_antisymm
  le_total := UInt8.le_total
  toDecidableLE := inferInstance

/-- What `throwRuntimeError` and `throwLogicError` throw. -/
inductive Exception where
  | runtimeError (msg : List UInt8)
  | logicError (msg : List UInt8)
deriving DecidableEq

inductive Value (ρ : Type*) where
  | nullValue
  | intValue (int_ : Int64)
  | uintValue (uint_ : UInt64)
  | realValue (real_ : ρ)
  | stringValue (string_ : Option (List UInt8))
  | booleanValue (bool_ : Bool)
  | arrayValue (map_ : List (ℕ × Value ρ))
  | objectValue (map_ : List (List UInt8 × Value ρ))

namespace Value

variable {ρ : Type*}

/-- Induction on values: for a container, on the values of its entries. -/
@[elab_as_elim, induction_eliminator]
theorem ind {P : Value ρ → Prop} (nullValue : P .nullValue) (intValue : ∀ n, P (.intValue n))
    (uintValue : ∀ n, P (.uintValue n)) (realValue : ∀ r, P (.realValue r))
    (stringValue : ∀ s, P (.stringValue s)) (booleanValue : ∀ b, P (.booleanValue b))
    (arrayValue : ∀ m, (∀ e ∈ m, P e.2) → P (.arrayValue m))
    (objectValue : ∀ m, (∀ e ∈ m, P e.2) → P (.objectValue m)) (v : Value ρ) : P v :=
  @Value.rec ρ P (fun m => ∀ e ∈ m, P e.2) (fun m => ∀ e ∈ m, P e.2) (fun e => P e.2)
    (fun e => P e.2)
    nullValue intValue uintValue realValue stringValue booleanValue arrayValue objectValue
    (fun _ h => absurd h List.not_mem_nil)
    (fun _ _ he hm => List.forall_mem_cons.mpr ⟨he, hm⟩)
    (fun _ h => absurd h List.not_mem_nil)
    (fun _ _ he hm => List.forall_mem_cons.mpr ⟨he, hm⟩)
    (fun _ _ hv => hv) (fun _ _ hv => hv) v

mutual

/-- `P` of a value, and of everything in it. -/
def Everywhere (P : Value ρ → Prop) : Value ρ → Prop
  | .arrayValue m => P (.arrayValue m) ∧ EveryElem P m
  | .objectValue m => P (.objectValue m) ∧ EveryMember P m
  | .nullValue => P .nullValue
  | .intValue n => P (.intValue n)
  | .uintValue n => P (.uintValue n)
  | .realValue r => P (.realValue r)
  | .stringValue s => P (.stringValue s)
  | .booleanValue b => P (.booleanValue b)

def EveryElem (P : Value ρ → Prop) : List (ℕ × Value ρ) → Prop
  | [] => True
  | (_, v) :: m => Everywhere P v ∧ EveryElem P m

def EveryMember (P : Value ρ → Prop) : List (List UInt8 × Value ρ) → Prop
  | [] => True
  | (_, v) :: m => Everywhere P v ∧ EveryMember P m

end

theorem everyElem_iff {P : Value ρ → Prop} {m : List (ℕ × Value ρ)} :
    EveryElem P m ↔ ∀ e ∈ m, Everywhere P e.2 := by
  induction m with
  | nil => simp [EveryElem]
  | cons e m ih => simp [EveryElem, ih]

theorem everyMember_iff {P : Value ρ → Prop} {m : List (List UInt8 × Value ρ)} :
    EveryMember P m ↔ ∀ e ∈ m, Everywhere P e.2 := by
  induction m with
  | nil => simp [EveryMember]
  | cons e m ih => simp [EveryMember, ih]

@[simp] theorem everywhere_arrayValue {P : Value ρ → Prop} {m : List (ℕ × Value ρ)} :
    Everywhere P (.arrayValue m) ↔ P (.arrayValue m) ∧ ∀ e ∈ m, Everywhere P e.2 := by
  rw [Everywhere, everyElem_iff]

@[simp] theorem everywhere_objectValue {P : Value ρ → Prop} {m : List (List UInt8 × Value ρ)} :
    Everywhere P (.objectValue m) ↔ P (.objectValue m) ∧ ∀ e ∈ m, Everywhere P e.2 := by
  rw [Everywhere, everyMember_iff]

/-! ### Queries -/

def isArray : Value ρ → Bool
  | .arrayValue _ => true
  | _ => false

def isObject : Value ρ → Bool
  | .objectValue _ => true
  | _ => false

/-- The size of an array is its highest index + 1, as an `unsigned int`. -/
def size : Value ρ → ℕ
  | .arrayValue m => m.getLast?.elim 0 fun e => (e.1 + 1) % 2 ^ 32
  | .objectValue m => m.length % 2 ^ 32
  | _ => 0

/-- `operator[](ArrayIndex) const` on the map of an array. -/
def elem (m : List (ℕ × Value ρ)) (index : ℕ) : Value ρ := (OrdMap.find m index).getD .nullValue

/-- `Value(const std::string &)`, with the checks of `duplicateAndPrefixStringValue`. -/
def ofString (value : List UInt8) : Except Exception (Value ρ) :=
  let length := value.length % 2 ^ 32
  if length ≤ 2 ^ 31 - 1 - 4 - 1 then .ok (.stringValue (some (value.take length)))
  else .error <| .logicError <| ascii <|
    "in Json::Value::duplicateAndPrefixStringValue(): length too big for prefixing"

def asString (D : Doubles ρ) : Value ρ → Except Exception (List UInt8)
  | .nullValue => .ok []
  | .stringValue string_ => .ok (string_.getD [])
  | .booleanValue bool_ => .ok (valueToStringBool bool_)
  | .intValue int_ => .ok (valueToStringInt int_)
  | .uintValue uint_ => .ok (valueToStringUInt uint_)
  | .realValue real_ => .ok (valueToStringDouble D real_)
  | _ => .error (.logicError (ascii "Type is not convertible to string"))

/-- What holds of every value, of itself: the entries of a container are in the
order of their keys, and a string is as long as the class allows. -/
def Local : Value ρ → Prop
  | .arrayValue m => OrdMap.Sorted m
  | .objectValue m => OrdMap.Sorted m
  | .stringValue (some s) => s.length < 2 ^ 31 - 5
  | _ => True

/-- A value as the class keeps it. -/
def WF (v : Value ρ) : Prop := Everywhere Local v

theorem ofString_eq {s : List UInt8} (h : s.length < 2 ^ 31 - 5) :
    (ofString s : Except Exception (Value ρ)) = .ok (.stringValue (some s)) := by
  have hmod : s.length % 2 ^ 32 = s.length := Nat.mod_eq_of_lt (by omega)
  rw [ofString]
  simp only [hmod]
  rw [if_pos (by omega), List.take_length]

end Value

end LinuxDemo.Json

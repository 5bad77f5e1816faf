/-
LinuxDemo/JsonOrder.lean

The order of values.

`operator<` compares types first, then contents; a container is compared by its
size, then entry by entry as `std::map` does, name before value.  So it is the
order of the lists that values flatten to (`code`): `sep_code` is the induction,
and it is a total order, with `operator==` as its equality, because the order of
lists is one (`compare_total`).

A NaN is neither less than, nor equal to, nor greater than anything, and the
difference of two sizes is an `int`; `Comparable` leaves both out.
-/
import LinuxDemo.JsonValue
import LinuxDemo.Lib.LexCode
import Mathlib.Data.Sum.Order

namespace LinuxDemo.Json

open LexCode

/-- `<` and `==` of a `double`. -/
structure Comparisons (ρ : Type*) where
  lt : ρ → ρ → Bool
  eq : ρ → ρ → Bool

/-- `<` and `==` are those of the numbers. -/
structure Comparisons.Orders {ρ L : Type*} [LT L] (C : Comparisons ρ) (IsNumber : ρ → Prop)
    (num : ρ → L) : Prop where
  lt_iff : ∀ x y, IsNumber x → IsNumber y → (C.lt x y = true ↔ num x < num y)
  eq_iff : ∀ x y, IsNumber x → IsNumber y → (C.eq x y = true ↔ num x = num y)

/-- The first `n` bytes. -/
def memcmp : ℕ → List UInt8 → List UInt8 → ℤ
  | n + 1, a :: this, b :: other => if a = b then memcmp n this other else (a.toNat : ℤ) - b.toNat
  | _, _, _ => 0

/-- `CZString::operator<` of two strings, and what `Value::operator<` does with strings. -/
def bytesLess (this other : List UInt8) : Bool :=
  let comp := memcmp (min this.length other.length) this other
  if comp < 0 then true
  else if comp > 0 then false
  else this.length < other.length

/-- `CZString::operator==` of two strings. -/
def bytesEqual (this other : List UInt8) : Bool :=
  if this.length ≠ other.length then false else memcmp this.length this other = 0

def stringLess : Option (List UInt8) → Option (List UInt8) → Bool
  | none, other => other.isSome
  | some _, none => false
  | some this, some other => bytesLess this other

def stringEqual : Option (List UInt8) → Option (List UInt8) → Bool
  | none, other => other.isNone
  | some _, none => false
  | some this, some other => bytesEqual this other

namespace Value

variable {ρ : Type*} (C : Comparisons ρ)

/-- The number of the type. -/
def type_ : Value ρ → ℤ
  | .nullValue => 0
  | .intValue _ => 1
  | .uintValue _ => 2
  | .realValue _ => 3
  | .stringValue _ => 4
  | .booleanValue _ => 5
  | .arrayValue _ => 6
  | .objectValue _ => 7

mutual

/-- `operator<` -/
def lt : Value ρ → Value ρ → Bool
  | .nullValue, .nullValue => false
  | .intValue int_, .intValue int_' => int_ < int_'
  | .uintValue uint_, .uintValue uint_' => uint_ < uint_'
  | .realValue real_, .realValue real_' => C.lt real_ real_'
  | .booleanValue bool_, .booleanValue bool_' => !bool_ && bool_'
  | .stringValue string_, .stringValue string_' => stringLess string_ string_'
  | .arrayValue m, .arrayValue m' =>
      let delta := int32 ((m.length : ℤ) - m'.length)
      if delta ≠ 0 then delta < 0 else mapLess (fun a b : ℕ => a < b) m m'
  | .objectValue m, .objectValue m' =>
      let delta := int32 ((m.length : ℤ) - m'.length)
      if delta ≠ 0 then delta < 0 else mapLess bytesLess m m'
  | v, other => v.type_ - other.type_ < 0
termination_by v other => sizeOf v + sizeOf other

/-- `operator<` of `std::map`: the first entry that differs decides. -/
def mapLess {κ : Type} [SizeOf κ] (less : κ → κ → Bool) :
    List (κ × Value ρ) → List (κ × Value ρ) → Bool
  | _, [] => false
  | [], _ :: _ => true
  | (k, v) :: m, (k', v') :: m' =>
      if less k k' || (!less k' k && lt v v') then true
      else if less k' k || (!less k k' && lt v' v) then false
      else mapLess less m m'
termination_by m m' => sizeOf m + sizeOf m'

end

mutual

/-- `operator==` -/
def eq : Value ρ → Value ρ → Bool
  | .nullValue, .nullValue => true
  | .intValue int_, .intValue int_' => int_ = int_'
  | .uintValue uint_, .uintValue uint_' => uint_ = uint_'
  | .realValue real_, .realValue real_' => C.eq real_ real_'
  | .booleanValue bool_, .booleanValue bool_' => bool_ = bool_'
  | .stringValue string_, .stringValue string_' => stringEqual string_ string_'
  | .arrayValue m, .arrayValue m' =>
      m.length = m'.length && mapEqual (fun a b : ℕ => a = b) m m'
  | .objectValue m, .objectValue m' => m.length = m'.length && mapEqual bytesEqual m m'
  | _, _ => false
termination_by v other => sizeOf v + sizeOf other

/-- `std::equal` on the entries. -/
def mapEqual {κ : Type} [SizeOf κ] (equal : κ → κ → Bool) :
    List (κ × Value ρ) → List (κ × Value ρ) → Bool
  | (k, v) :: m, (k', v') :: m' => equal k k' && eq v v' && mapEqual equal m m'
  | _, _ => true
termination_by m m' => sizeOf m + sizeOf m'

end

def compare (v other : Value ρ) : ℤ :=
  if v.lt C other then -1 else if other.lt C v then 1 else 0

end Value

/-! ### Bytes -/

/-- Bytes in the order of lists. -/
theorem bytesLess_iff (s t : List UInt8) : bytesLess s t = true ↔ s < t := by
  induction s generalizing t with
  | nil => cases t <;> simp [bytesLess, memcmp]
  | cons a s ih =>
    cases t with
    | nil => simp [bytesLess, memcmp]
    | cons b t =>
      rw [List.cons_lt_cons_iff, ← ih, bytesLess, bytesLess, List.length_cons, List.length_cons,
        Nat.add_min_add_right, memcmp]
      by_cases hab : a = b
      · simp [hab]
      · have hne : a.toNat ≠ b.toNat := fun h => hab (UInt8.toNat.inj h)
        have hlt : a < b ↔ a.toNat < b.toNat := UInt8.lt_iff_toNat_lt
        simp only [hab, if_false, false_and, or_false, hlt]
        split
        · simp; omega
        · split
          · simp; omega
          · omega

theorem bytesEqual_iff (s t : List UInt8) : bytesEqual s t = true ↔ s = t := by
  rw [bytesEqual]
  by_cases hlen : s.length = t.length
  · rw [if_neg (not_not.mpr hlen), decide_eq_true_iff]
    induction s generalizing t with
    | nil => exact ⟨fun _ => (List.length_eq_zero_iff.mp hlen.symm).symm, fun _ => rfl⟩
    | cons a s ih =>
      cases t with
      | nil => cases hlen
      | cons b t =>
        rw [List.length_cons, memcmp, List.cons_eq_cons]
        by_cases hab : a = b
        · rw [if_pos hab, ih t (Nat.succ.inj hlen), and_iff_right hab]
        · have hne : a.toNat ≠ b.toNat := fun h => hab (UInt8.toNat.inj h)
          rw [if_neg hab]
          exact ⟨fun h => by omega, fun h => absurd h.1 hab⟩
  · rw [if_pos hlen]
    exact ⟨nofun, fun h => absurd (congrArg List.length h) hlen⟩

/-! ### Codes -/

/-- Numbers, strings and the numbers that `double`s stand for. -/
abbrev Atom (L : Type*) := ℤ ⊕ₗ (List UInt8 ⊕ₗ L)

namespace Value

variable {ρ L : Type*}

def atom (n : ℤ) : Atom L := toLex (.inl n)

def textAtom (s : List UInt8) : Atom L := toLex (.inr (toLex (.inl s)))

def realAtom (x : L) : Atom L := toLex (.inr (toLex (.inr x)))

mutual

/-- What the value flattens to, behind its type. -/
def payload (num : ρ → L) : Value ρ → List (Atom L)
  | .nullValue => []
  | .intValue int_ => [atom int_.toInt]
  | .uintValue uint_ => [atom uint_.toNat]
  | .realValue real_ => [realAtom (num real_)]
  | .stringValue string_ => string_.elim [atom 0] fun s => [atom 1, textAtom s]
  | .booleanValue bool_ => [atom bool_.toInt]
  | .arrayValue m => atom m.length :: payloadElems num m
  | .objectValue m => atom m.length :: payloadMembers num m

def payloadElems (num : ρ → L) : List (ℕ × Value ρ) → List (Atom L)
  | [] => []
  | (index, v) :: m => atom index :: (atom v.type_ :: payload num v ++ payloadElems num m)

def payloadMembers (num : ρ → L) : List (List UInt8 × Value ρ) → List (Atom L)
  | [] => []
  | (name, v) :: m => textAtom name :: (atom v.type_ :: payload num v ++ payloadMembers num m)

end

/-- What the value flattens to. -/
def code (num : ρ → L) (v : Value ρ) : List (Atom L) := atom v.type_ :: v.payload num

theorem atom_eq {a b : ℤ} : (atom a : Atom L) = atom b ↔ a = b :=
  toLex.injective.eq_iff.trans Sum.inl_injective.eq_iff

theorem textAtom_eq {s t : List UInt8} : (textAtom s : Atom L) = textAtom t ↔ s = t :=
  (toLex.injective.eq_iff.trans Sum.inr_injective.eq_iff).trans
    (toLex.injective.eq_iff.trans Sum.inl_injective.eq_iff)

theorem realAtom_eq {x y : L} : realAtom x = realAtom y ↔ x = y :=
  (toLex.injective.eq_iff.trans Sum.inr_injective.eq_iff).trans
    (toLex.injective.eq_iff.trans Sum.inr_injective.eq_iff)

theorem payloadElems_eq (num : ρ → L) (m : List (ℕ × Value ρ)) :
    payloadElems num m = m.flatMap fun e => atom (e.1 : ℤ) :: e.2.code num := by
  induction m with
  | nil => rfl
  | cons e m ih => rw [payloadElems, ih]; rfl

theorem payloadMembers_eq (num : ρ → L) (m : List (List UInt8 × Value ρ)) :
    payloadMembers num m = m.flatMap fun e => textAtom e.1 :: e.2.code num := by
  induction m with
  | nil => rfl
  | cons e m ih => rw [payloadMembers, ih]; rfl

section

variable [LinearOrder L] {C : Comparisons ρ} {num : ρ → L}

theorem atom_lt {a b : ℤ} : (atom a : Atom L) < atom b ↔ a < b := Sum.Lex.inl_lt_inl_iff

theorem textAtom_lt {s t : List UInt8} : (textAtom s : Atom L) < textAtom t ↔ s < t :=
  Sum.Lex.inr_lt_inr_iff.trans Sum.Lex.inl_lt_inl_iff

theorem realAtom_lt {x y : L} : realAtom x < realAtom y ↔ x < y :=
  Sum.Lex.inr_lt_inr_iff.trans Sum.Lex.inr_lt_inr_iff

variable (C num) in
/-- The codes of two values tell what the operators say. -/
def Told (v other : Value ρ) : Prop :=
  Sep (v.code num) (other.code num) (v.lt C other = true) (v.eq C other = true)

/-- The codes of two maps of one size tell what the operators say, if those of their values do. -/
theorem sep_map {κ : Type} [SizeOf κ] {less equal : κ → κ → Bool} (key : κ → Atom L)
    (hless : ∀ k k', less k k' = true ↔ key k < key k')
    (hequal : ∀ k k', equal k k' = true ↔ key k = key k') {m m' : List (κ × Value ρ)}
    (hlen : m.length = m'.length)
    (htold : ∀ e ∈ m, ∀ e' ∈ m', Told C num e.2 e'.2 ∧ Told C num e'.2 e.2) :
    Sep (m.flatMap fun e => key e.1 :: e.2.code num) (m'.flatMap fun e => key e.1 :: e.2.code num)
      (mapLess C less m m' = true) (mapEqual C equal m m' = true) := by
  induction m generalizing m' with
  | nil =>
    obtain rfl := List.length_eq_zero_iff.mp hlen.symm
    exact sep_nil.congr (by simp [mapLess]) (by simp [mapEqual])
  | cons e m ih =>
    obtain - | ⟨e', m'⟩ := m'
    · cases hlen
    · obtain ⟨k, v⟩ := e
      obtain ⟨k', v'⟩ := e'
      obtain ⟨hvalue, hvalue'⟩ := htold _ List.mem_cons_self _ List.mem_cons_self
      have hrest := ih (Nat.succ.inj hlen) fun e he e' he' =>
        htold e (List.mem_cons_of_mem _ he) e' (List.mem_cons_of_mem _ he')
      rw [List.flatMap_cons, List.flatMap_cons]
      refine ((Sep.cons fun _ => hvalue).append fun _ => hrest).congr ?_ ?_
      · have hlt := hvalue.lt_iff
        have hlt' := hvalue'.lt_iff
        have heq := hvalue.eq_iff
        simp only [mapLess, Bool.or_eq_true, Bool.and_eq_true, Bool.not_eq_true', hless,
          ← Bool.not_eq_true, ← hlt, ← hlt', ← heq]
        -- the first that differs decides: the name, the value, or the entries behind
        rcases lt_trichotomy (key k) (key k') with hk | hk | hk
        · simp [hk]
        · rcases lt_trichotomy (v.code num) (v'.code num) with hv | hv | hv
          · simp [hk, hv]
          · simp [hk, hv]
          · simp [hk, hv, hv.not_gt, hv.ne']
        · simp [hk, hk.not_gt, hk.ne']
      · rw [mapEqual, Bool.and_eq_true, Bool.and_eq_true, hequal]

/-- Values of one type are told apart by their payloads. -/
theorem told_of_type {v other : Value ρ} (htype : v.type_ = other.type_)
    (h : Sep (v.payload num) (other.payload num) (v.lt C other = true) (v.eq C other = true)) :
    Told C num v other :=
  (Sep.cons fun _ => h).congr (by simp [htype]) (by simp [htype])

/-- Values of two types are told apart by these. -/
theorem told_of_types {v other : Value ρ} (htype : v.type_ ≠ other.type_) :
    Told C num v other := by
  have hlt : v.lt C other = decide (v.type_ - other.type_ < 0) := by
    rw [lt.eq_def]
    split <;> first | rfl | exact absurd rfl htype
  have heq : v.eq C other = false := by
    rw [eq.eq_def]
    split <;> first | rfl | exact absurd rfl htype
  have hatom : (atom v.type_ : Atom L) ≠ atom other.type_ := fun h => htype (atom_eq.mp h)
  refine (@Sep.cons _ _ (v.payload num) (other.payload num) True True _ _
    fun h => absurd h hatom).congr ?_ ?_
  · rw [hlt, decide_eq_true_iff, atom_lt]
    simp only [hatom, false_and, or_false]
    omega
  · simp [hatom, heq]

/-- A delta of sizes, as an `int`. -/
theorem int32_delta {n n' : ℕ} (hn : n < 2 ^ 31) (hn' : n' < 2 ^ 31) :
    int32 ((n : ℤ) - n') = (n : ℤ) - n' := int32_eq (by omega) (by omega)

/-- The size first, then the entries. -/
theorem told_size {x y : List (Atom L)} {n n' : ℕ} (hn : n < 2 ^ 31) (hn' : n' < 2 ^ 31)
    {less equal : Bool} (h : n = n' → Sep x y (less = true) (equal = true)) :
    Sep (atom (n : ℤ) :: x) (atom (n' : ℤ) :: y)
      ((if int32 ((n : ℤ) - n') ≠ 0 then decide (int32 ((n : ℤ) - n') < 0) else less) = true)
      ((decide (n = n') && equal) = true) := by
  have hatom : (atom (n : ℤ) : Atom L) = atom n' ↔ n = n' := atom_eq.trans Nat.cast_inj
  rw [int32_delta hn hn']
  refine (Sep.cons fun heq => h (hatom.mp heq)).congr ?_ ?_
  · rw [atom_lt, hatom]
    by_cases hsize : n = n'
    · simp [hsize]
    · rw [if_pos (by omega), decide_eq_true_iff]
      simp only [hsize, false_and, or_false]
      omega
  · simp [hatom]

/-- What the operators can compare: numbers, and containers whose sizes differ by an `int`. -/
def Comparable (IsNumber : ρ → Prop) : Value ρ → Prop
  | .realValue real_ => IsNumber real_
  | .arrayValue m => m.length < 2 ^ 31
  | .objectValue m => m.length < 2 ^ 31
  | _ => True

variable {IsNumber : ρ → Prop}

theorem told_stringValue (s s' : Option (List UInt8)) :
    Told C num (.stringValue s) (.stringValue s') := by
  refine told_of_type rfl ?_
  cases s with
  | none =>
    cases s' with
    | none => exact (sep_atom _ _).congr (by simp [lt, stringLess]) (by simp [eq, stringEqual])
    | some s' =>
      refine (@Sep.cons _ _ [] [textAtom s'] True True (atom 0) (atom 1)
        fun h => absurd (atom_eq.mp h) (by decide)).congr ?_ ?_
      · simp [lt, stringLess, atom_lt]
      · simp [eq, stringEqual, atom_eq]
  | some s =>
    cases s' with
    | none =>
      refine (@Sep.cons _ _ [textAtom s] [] True True (atom 1) (atom 0)
        fun h => absurd (atom_eq.mp h) (by decide)).congr ?_ ?_
      · simp [lt, stringLess, atom_lt, atom_eq]
      · simp [eq, stringEqual, atom_eq]
    | some s' =>
      refine (Sep.cons fun _ => sep_atom _ _).congr ?_ ?_
      · simp [lt, stringLess, textAtom_lt, bytesLess_iff]
      · simp [eq, stringEqual, textAtom_eq, bytesEqual_iff]

theorem told_arrayValue {m m' : List (ℕ × Value ρ)} (hm : m.length < 2 ^ 31)
    (hm' : m'.length < 2 ^ 31)
    (htold : ∀ e ∈ m, ∀ e' ∈ m', Told C num e.2 e'.2 ∧ Told C num e'.2 e.2) :
    Told C num (.arrayValue m) (.arrayValue m') := by
  refine told_of_type rfl ?_
  rw [payload, payload, payloadElems_eq, payloadElems_eq, lt, eq]
  refine told_size hm hm' fun hlen => sep_map (fun index : ℕ => atom (index : ℤ)) ?_ ?_ hlen htold
  · intro k k'
    rw [decide_eq_true_iff, atom_lt, Nat.cast_lt]
  · intro k k'
    rw [decide_eq_true_iff, atom_eq, Nat.cast_inj]

theorem told_objectValue {m m' : List (List UInt8 × Value ρ)} (hm : m.length < 2 ^ 31)
    (hm' : m'.length < 2 ^ 31)
    (htold : ∀ e ∈ m, ∀ e' ∈ m', Told C num e.2 e'.2 ∧ Told C num e'.2 e.2) :
    Told C num (.objectValue m) (.objectValue m') := by
  refine told_of_type rfl ?_
  rw [payload, payload, payloadMembers_eq, payloadMembers_eq, lt, eq]
  refine told_size hm hm' fun hlen => sep_map textAtom ?_ ?_ hlen htold
  · intro k k'
    rw [bytesLess_iff, textAtom_lt]
  · intro k k'
    rw [bytesEqual_iff, textAtom_eq]

/-- The code of a value tells its order. -/
theorem told (hC : C.Orders IsNumber num) {v other : Value ρ}
    (hv : v.Everywhere (Comparable IsNumber)) (hother : other.Everywhere (Comparable IsNumber)) :
    Told C num v other ∧ Told C num other v := by
  induction v generalizing other with
  | nullValue =>
    cases other with
    | nullValue =>
      have h : Told C num .nullValue .nullValue :=
        told_of_type rfl (sep_nil.congr (by simp [lt]) (by simp [eq]))
      exact ⟨h, h⟩
    | _ => exact ⟨told_of_types (by simp [type_]), told_of_types (by simp [type_])⟩
  | intValue n =>
    cases other with
    | intValue n' =>
      have h (a b : Int64) : Told C num (.intValue a) (.intValue b) :=
        told_of_type rfl ((sep_atom _ _).congr (by simp [lt, atom_lt, Int64.lt_iff_toInt_lt])
          (by simp [eq, atom_eq, Int64.toInt_inj]))
      exact ⟨h n n', h n' n⟩
    | _ => exact ⟨told_of_types (by simp [type_]), told_of_types (by simp [type_])⟩
  | uintValue n =>
    cases other with
    | uintValue n' =>
      have h (a b : UInt64) : Told C num (.uintValue a) (.uintValue b) :=
        told_of_type rfl ((sep_atom _ _).congr (by simp [lt, atom_lt, UInt64.lt_iff_toNat_lt])
          (by simp [eq, atom_eq, UInt64.toNat_inj]))
      exact ⟨h n n', h n' n⟩
    | _ => exact ⟨told_of_types (by simp [type_]), told_of_types (by simp [type_])⟩
  | realValue x =>
    cases other with
    | realValue x' =>
      have h {a b : ρ} (ha : IsNumber a) (hb : IsNumber b) :
          Told C num (.realValue a) (.realValue b) :=
        told_of_type rfl ((sep_atom _ _).congr (by simp [lt, realAtom_lt, hC.lt_iff a b ha hb])
          (by simp [eq, realAtom_eq, hC.eq_iff a b ha hb]))
      exact ⟨h hv hother, h hother hv⟩
    | _ => exact ⟨told_of_types (by simp [type_]), told_of_types (by simp [type_])⟩
  | stringValue s =>
    cases other with
    | stringValue s' => exact ⟨told_stringValue s s', told_stringValue s' s⟩
    | _ => exact ⟨told_of_types (by simp [type_]), told_of_types (by simp [type_])⟩
  | booleanValue b =>
    cases other with
    | booleanValue b' =>
      have h (a b : Bool) : Told C num (.booleanValue a) (.booleanValue b) :=
        told_of_type rfl ((sep_atom _ _).congr (by cases a <;> cases b <;> simp [lt, atom_lt])
          (by cases a <;> cases b <;> simp [eq, atom_eq]))
      exact ⟨h b b', h b' b⟩
    | _ => exact ⟨told_of_types (by simp [type_]), told_of_types (by simp [type_])⟩
  | arrayValue m ih =>
    cases other with
    | arrayValue m' =>
      obtain ⟨hm, hv⟩ := everywhere_arrayValue.mp hv
      obtain ⟨hm', hother⟩ := everywhere_arrayValue.mp hother
      have htold := fun e he e' he' => ih e he (hv e he) (hother e' he')
      exact ⟨told_arrayValue hm hm' htold,
        told_arrayValue hm' hm fun e' he' e he => (htold e he e' he').symm⟩
    | _ => exact ⟨told_of_types (by simp [type_]), told_of_types (by simp [type_])⟩
  | objectValue m ih =>
    cases other with
    | objectValue m' =>
      obtain ⟨hm, hv⟩ := everywhere_objectValue.mp hv
      obtain ⟨hm', hother⟩ := everywhere_objectValue.mp hother
      have htold := fun e he e' he' => ih e he (hv e he) (hother e' he')
      exact ⟨told_objectValue hm hm' htold,
        told_objectValue hm' hm fun e' he' e he => (htold e he e' he').symm⟩
    | _ => exact ⟨told_of_types (by simp [type_]), told_of_types (by simp [type_])⟩

/-- **`operator<` is a total order, and `operator==` is its equality**, on values without a NaN. -/
theorem compare_total (hC : C.Orders IsNumber num) {a b c : Value ρ}
    (ha : a.Everywhere (Comparable IsNumber)) (hb : b.Everywhere (Comparable IsNumber))
    (hc : c.Everywhere (Comparable IsNumber)) :
    b.compare C a = -a.compare C b ∧ (a.compare C b = 0 ↔ a.eq C b = true) ∧
      (a.compare C b ≤ 0 → b.compare C c ≤ 0 → a.compare C c ≤ 0) := by
  have hcompare {x y : Value ρ} (hx : x.Everywhere (Comparable IsNumber))
      (hy : y.Everywhere (Comparable IsNumber)) :
      x.compare C y = if x.code num < y.code num then -1
        else if y.code num < x.code num then 1 else 0 := by
    obtain ⟨htold, htold'⟩ := told hC hx hy
    simp only [compare, ← htold.lt_iff, ← htold'.lt_iff]
  have heq := (told hC ha hb).1.eq_iff
  rw [hcompare ha hb, hcompare hb ha, hcompare hb hc, hcompare ha hc, ← heq]
  refine ⟨?_, ?_, ?_⟩
  · rcases lt_trichotomy (a.code num) (b.code num) with h | h | h
    · simp [h, h.not_gt]
    · simp [h]
    · simp [h, h.not_gt]
  · rcases lt_trichotomy (a.code num) (b.code num) with h | h | h
    · simp [h, h.ne]
    · simp [h]
    · simp [h, h.not_gt, h.ne']
  · intro hab hbc
    have hle {x y : List (Atom L)}
        (h : (if x < y then (-1 : ℤ) else if y < x then 1 else 0) ≤ 0) : x ≤ y := by
      apply le_of_not_gt
      intro hlt
      rw [if_neg hlt.not_gt, if_pos hlt] at h
      omega
    have hac := (hle hab).trans (hle hbc)
    rw [if_neg hac.not_gt]
    split <;> decide

theorem compare_total_arrays :
    let C : Comparisons ℤ := ⟨fun x y => x < y, fun x y => x = y⟩
    let a : Value ℤ := .arrayValue [(0, .realValue 1), (3, .nullValue)]
    let b : Value ℤ := .arrayValue [(0, .realValue 2), (1, .booleanValue true)]
    let c : Value ℤ := .objectValue []
    b.compare C a = -a.compare C b ∧ (a.compare C b = 0 ↔ a.eq C b = true) ∧
      (a.compare C b ≤ 0 → b.compare C c ≤ 0 → a.compare C c ≤ 0) := by
  intro C a b c
  have hC : C.Orders (fun _ => True) id :=
    ⟨fun _ _ _ _ => decide_eq_true_iff, fun _ _ _ _ => decide_eq_true_iff⟩
  apply compare_total hC
  · simp [a, Everywhere, EveryElem, Comparable]
  · simp [b, Everywhere, EveryElem, Comparable]
  · simp [c, Everywhere, EveryMember, Comparable]

end

end Value

end LinuxDemo.Json

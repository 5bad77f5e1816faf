/-
LinuxDemo/JsonArray.lean

Arrays, and what is done to them.

An array keeps its entries in a map and takes its size from the highest index, so
it stands for a list in which null is at the indices that are left out.  Over a
run of operations it is the list that a reader of the interface has in mind as
long as no hole is where the size is read off, and no index is the largest
(`ArrayOp.Plain`).  A step that is not of this kind goes wrong: the array becomes
another one, or `resize` fails its own assertion (`array_run`).
-/
import LinuxDemo.JsonValue
import LinuxDemo.Lib.Sparse
import LinuxDemo.Lib.Runs

namespace LinuxDemo.Json

open Sparse

/-- Why a call does not return: an exception, or an assertion. -/
inductive Halt where
  | thrown (e : Exception)
  | aborted
deriving DecidableEq

/-- `JSON_ASSERT_MESSAGE` fails. -/
def logicError {α : Type*} (message : String) : Except Halt α :=
  .error (.thrown (.logicError (ascii message)))

namespace Value

variable {ρ : Type*}

/-- The map of an array; null becomes one. -/
def arrayMap (message : String) : Value ρ → Except Halt (List (ℕ × Value ρ))
  | .nullValue => .ok []
  | .arrayValue m => .ok m
  | _ => logicError message

/-- `operator[](ArrayIndex)`, which inserts a null if there is nothing, with an assignment to the
reference it returns. -/
def assign (v : Value ρ) (index : ℕ) (value : Value ρ) : Except Halt (Value ρ) :=
  (v.arrayMap "in Json::Value::operator[](ArrayIndex): requires arrayValue").map fun m =>
    .arrayValue (OrdMap.set index value (OrdMap.slot .nullValue index m))

def append (v value : Value ρ) : Except Halt (Value ρ) := v.assign v.size value

def clear : Value ρ → Except Halt (Value ρ)
  | .nullValue => .ok .nullValue
  | .arrayValue _ => .ok (.arrayValue [])
  | .objectValue _ => .ok (.objectValue [])
  | _ => logicError "in Json::Value::clear(): requires complex value"

/-- The loop of `resize`, with `n` indices left. -/
def eraseLoop : ℕ → ℕ → List (ℕ × Value ρ) → List (ℕ × Value ρ)
  | 0, _, m => m
  | n + 1, index, m => eraseLoop n (index + 1) (OrdMap.erase index m)

def resize (v : Value ρ) (newSize : ℕ) : Except Halt (Value ρ) :=
  (v.arrayMap "in Json::Value::resize(): requires arrayValue").bind fun m =>
    let oldSize := (arrayValue m).size
    if newSize = 0 then clear (.arrayValue m)
    else if newSize > oldSize then .ok (.arrayValue (OrdMap.slot .nullValue (newSize - 1) m))
    else
      let m := eraseLoop (oldSize - newSize) newSize m
      -- the assertion at the end
      if (arrayValue m).size = newSize then .ok (.arrayValue m) else .error .aborted

/-- The loop of `removeIndex`, with `n` rounds left. -/
def shiftLoop : ℕ → ℕ → List (ℕ × Value ρ) → List (ℕ × Value ρ)
  | 0, _, m => m
  | n + 1, i, m =>
      let m := OrdMap.slot .nullValue (i + 1) m
      shiftLoop n (i + 1) (OrdMap.set i (elem m (i + 1)) m)

/-- What was removed, if it returns true, and the value after. -/
def removeIndex (v : Value ρ) (index : ℕ) : Option (Value ρ) × Value ρ :=
  match v with
  | .arrayValue m =>
      match OrdMap.find m index with
      | none => (none, v)
      | some removed =>
          -- an `ArrayIndex` wraps
          let last := ((arrayValue m).size + (2 ^ 32 - 1)) % 2 ^ 32
          (some removed, .arrayValue (OrdMap.erase last (shiftLoop (last - index) index m)))
  | _ => (none, v)

end Value

/-- What the interface offers. -/
inductive ArrayOp (ρ : Type*) where
  | assign (index : UInt32) (value : Value ρ)
  | append (value : Value ρ)
  | resize (newSize : UInt32)
  | removeIndex (index : UInt32)
  | clear

namespace ArrayOp

variable {ρ : Type*}

def apply (v : Value ρ) : ArrayOp ρ → Except Halt (Value ρ)
  | .assign index value => v.assign index.toNat value
  | .append value => v.append value
  | .resize newSize => v.resize newSize.toNat
  | .removeIndex index => .ok (v.removeIndex index.toNat).2
  | .clear => v.clear

/-- What the operation is for. -/
def onList (l : List (Value ρ)) : ArrayOp ρ → List (Value ρ)
  | .assign index value => (pad .nullValue (index.toNat + 1) l).set index.toNat value
  | .append value => l ++ [value]
  | .resize newSize => pad .nullValue newSize.toNat (l.take newSize.toNat)
  | .removeIndex index => l.eraseIdx index.toNat
  | .clear => []

end ArrayOp

namespace Value

variable {ρ : Type*}

/-- The map of an array, and of null. -/
def elements : Value ρ → List (ℕ × Value ρ)
  | .arrayValue m => m
  | _ => []

/-- The list that an array stands for. -/
def list (v : Value ρ) : List (Value ρ) := (List.range v.size).map (elem v.elements)

/-- An array, or null, with its entries in order and none at the largest index. -/
structure IsList (v : Value ρ) : Prop where
  type : v = .nullValue ∨ v.isArray = true
  sorted : OrdMap.Sorted v.elements
  index : high v.elements ≤ 2 ^ 32 - 1

theorem IsList.elements_eq {v : Value ρ} (h : v.IsList) :
    v = .nullValue ∧ v.elements = [] ∨ v = .arrayValue v.elements := by
  rcases h.type with rfl | harray
  · exact .inl ⟨rfl, rfl⟩
  · cases v with
    | arrayValue m => exact .inr rfl
    | _ => cases harray

theorem size_arrayValue (m : List (ℕ × Value ρ)) : (arrayValue m).size = high m % 2 ^ 32 := by
  rw [size, high]
  cases m.getLast? <;> rfl

theorem IsList.size_eq {v : Value ρ} (h : v.IsList) : v.size = high v.elements := by
  have hindex := h.index
  rcases h.elements_eq with ⟨rfl, -⟩ | harray
  · rfl
  · rw [harray, size_arrayValue]
    exact Nat.mod_eq_of_lt (by omega)

theorem IsList.list_eq {v : Value ρ} (h : v.IsList) : v.list = dense .nullValue v.elements := by
  rw [list, h.size_eq]
  rfl

theorem isList_arrayValue {m : List (ℕ × Value ρ)} (hm : OrdMap.Sorted m)
    (hindex : high m ≤ 2 ^ 32 - 1) : (arrayValue m).IsList := ⟨.inr rfl, hm, hindex⟩

theorem IsList.arrayMap {v : Value ρ} (h : v.IsList) (message : String) :
    v.arrayMap message = .ok v.elements := by
  rcases h.elements_eq with ⟨rfl, -⟩ | harray
  · rfl
  · rw [harray]
    rfl

/-! ### Loops -/

theorem eraseLoop_eq (m : List (ℕ × Value ρ)) (hm : OrdMap.Sorted m) {i n : ℕ}
    (h : high m ≤ i + n) : eraseLoop n i m = below i m := by
  induction n generalizing i m with
  | zero =>
    refine OrdMap.Sorted.ext hm (sorted_below hm i) fun k => ?_
    rw [eraseLoop, find_below]
    split
    · rfl
    · exact find_of_high_le hm (by omega)
  | succ n ih =>
    have herase := hm.erase i
    have hhigh : high (OrdMap.erase i m) ≤ i + 1 + n := by
      by_contra hlt
      have hlast := find_last herase (by omega)
      rw [OrdMap.find_erase, find_of_high_le hm (by omega), ite_self] at hlast
      cases hlast
    rw [eraseLoop, ih _ herase hhigh]
    refine OrdMap.Sorted.ext (sorted_below herase _) (sorted_below hm _) fun k => ?_
    rw [find_below, find_below, OrdMap.find_erase]
    by_cases hk : k = i
    · rw [if_pos (by omega), if_pos hk, if_neg (by omega)]
    · by_cases hlt : k < i
      · rw [if_pos (by omega), if_neg hk, if_pos hlt]
      · rw [if_neg (by omega), if_neg hlt]

theorem sorted_shiftLoop {m : List (ℕ × Value ρ)} (hm : OrdMap.Sorted m) (n i : ℕ) :
    OrdMap.Sorted (shiftLoop n i m) := by
  induction n generalizing i m with
  | zero => exact hm
  | succ n ih => exact ih ((hm.slot .nullValue _).set _ _) _

/-- Each entry takes the place of the one before. -/
theorem find_shiftLoop (m : List (ℕ × Value ρ)) (n i k : ℕ) :
    OrdMap.find (shiftLoop n i m) k =
      if i ≤ k ∧ k < i + n then some (elem m (k + 1))
      else if k = i + n ∧ n ≠ 0 then some (elem m k)
      else OrdMap.find m k := by
  induction n generalizing i m with
  | zero =>
    rw [shiftLoop, if_neg (by omega), if_neg (by omega)]
  | succ n ih =>
    have helem (k : ℕ) (hk : k ≠ i) :
        elem (OrdMap.set i (elem (OrdMap.slot .nullValue (i + 1) m) (i + 1)) (OrdMap.slot .nullValue (i + 1) m)) k = elem m k := by
      rw [elem, OrdMap.find_set_ne _ _ hk, OrdMap.find_slot]
      split
      · rename_i h
        rw [h, Option.getD_some, elem]
      · rfl
    rw [shiftLoop, ih]
    by_cases hi : k = i
    · have hslot : elem (OrdMap.slot .nullValue (i + 1) m) (i + 1) = elem m (i + 1) := by
        rw [elem, OrdMap.find_slot, if_pos rfl, Option.getD_some, elem]
      rw [if_neg (by omega), if_neg (by omega), if_pos (by omega), hi, OrdMap.find_set_self, hslot]
    · by_cases hin : i + 1 ≤ k ∧ k < i + 1 + n
      · rw [if_pos hin, if_pos (by omega), helem _ (by omega)]
      · rw [if_neg hin, if_neg (show ¬ (i ≤ k ∧ k < i + (n + 1)) by omega)]
        by_cases hend : k = i + 1 + n
        · rw [if_pos (show k = i + (n + 1) ∧ n + 1 ≠ 0 by omega)]
          by_cases hn : n = 0
          · rw [if_neg (by omega), OrdMap.find_set_ne _ _ hi, OrdMap.find_slot, if_pos (by omega),
              show k = i + 1 by omega, elem]
          · rw [if_pos ⟨hend, hn⟩, helem _ hi]
        · rw [if_neg (by omega), if_neg (by omega), OrdMap.find_set_ne _ _ hi, OrdMap.find_slot,
            if_neg (by omega)]

/-! ### Operations -/

theorem IsList.assign {v : Value ρ} (h : v.IsList) (index : ℕ) (value : Value ρ) :
    v.assign index value = .ok (.arrayValue (OrdMap.set index value v.elements)) := by
  rw [Value.assign, h.arrayMap, Except.map, OrdMap.set_slot]

/-- What `resize` does, and when its assertion holds. -/
theorem IsList.resize {v : Value ρ} (h : v.IsList) (n : ℕ) :
    v.resize n =
      if v.size < n then .ok (.arrayValue (OrdMap.set (n - 1) .nullValue v.elements))
      else if n = 0 ∨ (OrdMap.find v.elements (n - 1)).isSome = true then
        .ok (.arrayValue (below n v.elements))
      else .error .aborted := by
  have hsize : (arrayValue v.elements).size = v.size := by
    rw [(isList_arrayValue h.sorted h.index).size_eq, h.size_eq]
    rfl
  rw [Value.resize, h.arrayMap]
  show (if n = 0 then _ else _) = _
  rw [hsize]
  by_cases hzero : n = 0
  · rw [if_pos hzero, if_neg (by omega), if_pos (.inl hzero), hzero]
    have hnil : below 0 v.elements = [] := by simp [below]
    rw [hnil]
    rfl
  · rw [if_neg hzero]
    by_cases hlt : v.size < n
    · rw [if_pos hlt, if_pos hlt, h.sorted.slot_eq_set,
        find_of_high_le h.sorted (by rw [← h.size_eq]; omega)]
      rfl
    · have hloop := eraseLoop_eq v.elements h.sorted (i := n) (n := v.size - n)
        (by rw [h.size_eq]; omega)
      have hsorted := sorted_below h.sorted n
      have hhigh : high (below n v.elements) ≤ n := high_le_of_find hsorted fun i hi => by
        rw [find_below, if_neg (by omega)]
      have hcheck : (arrayValue (below n v.elements)).size = n ↔
          n = 0 ∨ (OrdMap.find v.elements (n - 1)).isSome = true := by
        have hbound := h.index
        rw [← h.size_eq] at hbound
        rw [(isList_arrayValue hsorted (by omega)).size_eq]
        exact high_below_iff h.sorted n
      rw [if_neg hlt, if_neg hlt, hloop]
      simp only [hcheck]

/-- What `removeIndex` leaves of an array that has the entry. -/
theorem IsList.removeIndex {v : Value ρ} (h : v.IsList) {i : ℕ} {x : Value ρ}
    (hx : OrdMap.find v.elements i = some x) :
    ∃ m, (v.removeIndex i).2 = .arrayValue m ∧ OrdMap.Sorted m ∧
      ∀ k, OrdMap.find m k =
        if k < i then OrdMap.find v.elements k
        else if k + 1 < v.size then some (elem v.elements (k + 1)) else none := by
  have hlt : i < v.size := by
    by_contra hle
    rw [find_of_high_le h.sorted (by rw [← h.size_eq]; omega)] at hx
    cases hx
  rcases h.elements_eq with ⟨-, hnil⟩ | harray
  · rw [hnil] at hx
    cases hx
  · have hsize : (arrayValue v.elements).size = v.size := by rw [← harray]
    have hbound := h.index
    rw [← h.size_eq] at hbound
    have hlast : (v.size + (2 ^ 32 - 1)) % 2 ^ 32 = v.size - 1 := by omega
    have hremove : (v.removeIndex i).2 = .arrayValue
        (OrdMap.erase (v.size - 1) (shiftLoop (v.size - 1 - i) i v.elements)) := by
      rw [harray, Value.removeIndex]
      show (match OrdMap.find v.elements i with | none => _ | some removed => _ : _ × _).2 = _
      rw [hx, hsize]
      show arrayValue (OrdMap.erase ((v.size + (2 ^ 32 - 1)) % 2 ^ 32) _) = _
      rw [hlast]
      rfl
    have hsorted := sorted_shiftLoop h.sorted (v.size - 1 - i) i
    refine ⟨_, hremove, hsorted.erase _, fun k => ?_⟩
    rw [OrdMap.find_erase, find_shiftLoop]
    by_cases hk : k < i
    · rw [if_neg (by omega), if_neg (by omega), if_neg (by omega), if_pos hk]
    · rw [if_neg hk]
      by_cases hk' : k + 1 < v.size
      · rw [if_neg (by omega), if_pos (by omega), if_pos hk']
      · rw [if_neg hk']
        by_cases hend : k = v.size - 1
        · rw [if_pos hend]
        · rw [if_neg hend, if_neg (by omega), if_neg (by omega),
            find_of_high_le h.sorted (by rw [← h.size_eq]; omega)]

end Value

namespace ArrayOp

variable {ρ : Type*}

/-- The operation does not use the largest index, does not shorten the array onto a hole, and
does not remove a hole from the inside of it. -/
def Plain (v : Value ρ) : ArrayOp ρ → Prop
  | .assign index _ => index.toNat < 2 ^ 32 - 1
  | .append _ => v.size < 2 ^ 32 - 1
  | .resize newSize =>
      newSize = 0 ∨ v.size < newSize.toNat ∨
        (OrdMap.find v.elements (newSize.toNat - 1)).isSome = true
  | .removeIndex index =>
      v.size ≤ index.toNat ∨ (OrdMap.find v.elements index.toNat).isSome = true ∧
        (index.toNat + 1 < v.size ∨ index = 0 ∨
          (OrdMap.find v.elements (index.toNat - 1)).isSome = true)
  | .clear => True

end ArrayOp

namespace Value

variable {ρ : Type*} {v : Value ρ}

theorem list_arrayValue {m : List (ℕ × Value ρ)} (hm : OrdMap.Sorted m)
    (hindex : high m ≤ 2 ^ 32 - 1) : (arrayValue m).list = dense .nullValue m :=
  (isList_arrayValue hm hindex).list_eq

theorem IsList.length_list (h : v.IsList) : v.list.length = v.size := by
  rw [h.list_eq, length_dense, h.size_eq]

/-- An entry is set, and the list is padded up to it; at the largest index the array is one of
no entries. -/
theorem IsList.set_spec (h : v.IsList) {k : ℕ} (x : Value ρ) (hk : k < 2 ^ 32) :
    if k < 2 ^ 32 - 1 then
      (arrayValue (OrdMap.set k x v.elements)).IsList ∧
        (arrayValue (OrdMap.set k x v.elements)).list =
          (pad .nullValue (k + 1) v.list).set k x
    else (arrayValue (OrdMap.set k x v.elements)).list = [] := by
  have hbound := h.index
  have hhigh := high_set h.sorted k x
  have hsorted := h.sorted.set k x
  split
  · have hindex : high (OrdMap.set k x v.elements) ≤ 2 ^ 32 - 1 := by omega
    refine ⟨isList_arrayValue hsorted hindex, ?_⟩
    rw [list_arrayValue hsorted hindex, dense_set h.sorted, h.list_eq]
  · have hsize : (arrayValue (OrdMap.set k x v.elements)).size = 0 := by
      rw [size_arrayValue, hhigh, show max (k + 1) (high v.elements) = 2 ^ 32 by omega, Nat.mod_self]
    rw [list, hsize]
    rfl

/-- A value is assigned as in the list, except at the largest index. -/
theorem IsList.assign_spec (h : v.IsList) {index : ℕ} (hindex : index < 2 ^ 32) (value : Value ρ) :
    ∃ v', v.assign index value = .ok v' ∧
      if index < 2 ^ 32 - 1 then
        v'.IsList ∧ v'.list = (pad .nullValue (index + 1) v.list).set index value
      else v'.list = [] :=
  ⟨_, h.assign index value, h.set_spec value hindex⟩

theorem IsList.resize_plain (h : v.IsList) {n : ℕ} (hn : n < 2 ^ 32)
    (hplain : n = 0 ∨ v.size < n ∨ (OrdMap.find v.elements (n - 1)).isSome = true) :
    ∃ v', v.resize n = .ok v' ∧ v'.IsList ∧
      v'.list = pad .nullValue n (v.list.take n) := by
  have hlength := h.length_list
  rw [h.resize]
  by_cases hlt : v.size < n
  · have hset := h.set_spec (k := n - 1) .nullValue (by omega)
    rw [if_pos (by omega)] at hset
    refine ⟨_, if_pos hlt, hset.1, ?_⟩
    rw [hset.2, List.take_of_length_le (by omega)]
    obtain ⟨n, rfl⟩ : ∃ k, n = k + 1 := ⟨n - 1, by omega⟩
    rw [Nat.add_sub_cancel, set_pad (by omega), pad_succ (by omega)]
  · have hcheck : n = 0 ∨ (OrdMap.find v.elements (n - 1)).isSome = true :=
      hplain.imp_right fun h => h.resolve_left hlt
    have hbound := h.index
    have hsize := h.size_eq
    have hsorted := sorted_below h.sorted n
    have hindex : high (below n v.elements) ≤ 2 ^ 32 - 1 := by
      rw [(high_below_iff h.sorted n).mpr hcheck]
      omega
    refine ⟨_, (if_neg hlt).trans (if_pos hcheck), isList_arrayValue hsorted hindex, ?_⟩
    rw [list_arrayValue hsorted hindex, (dense_below_iff h.sorted (by omega)).mpr hcheck, h.list_eq,
      pad_of_le]
    rw [List.length_take, length_dense]
    omega

theorem IsList.removeIndex_spec (h : v.IsList) (i : ℕ) :
    (v.removeIndex i).2.IsList ∧
      ((v.removeIndex i).2.list = v.list.eraseIdx i ↔
        v.size ≤ i ∨ (OrdMap.find v.elements i).isSome = true ∧
          (i + 1 < v.size ∨ i = 0 ∨ (OrdMap.find v.elements (i - 1)).isSome = true)) := by
  have hlength := h.length_list
  cases hx : OrdMap.find v.elements i with
  | none =>
    have hsame : (v.removeIndex i).2 = v := by
      rcases h.elements_eq with ⟨rfl, -⟩ | harray
      · rfl
      · rw [harray] at hx ⊢
        show (match OrdMap.find v.elements i with | none => _ | some removed => _ : _ × _).2 = _
        rw [show OrdMap.find v.elements i = none from hx]
    rw [hsame]
    refine ⟨h, ?_⟩
    constructor
    · intro heq
      by_contra hlt
      have hlength' := congrArg List.length heq
      rw [List.length_eraseIdx_of_lt (by omega)] at hlength'
      omega
    · rintro (hle | ⟨hsome, -⟩)
      · rw [List.eraseIdx_of_length_le (by omega)]
      · cases hsome
  | some x =>
    obtain ⟨m, hremove, hm, hfind⟩ := h.removeIndex hx
    have hbound := h.index
    have hindex : high m ≤ 2 ^ 32 - 1 := high_le_of_find hm fun k hk => by
      rw [hfind, h.size_eq]
      split
      · exact find_of_high_le h.sorted (by omega)
      · rw [if_neg (by omega)]
    have hlt : i < high v.elements := by
      by_contra hle
      rw [find_of_high_le h.sorted (by omega)] at hx
      cases hx
    rw [hremove, list_arrayValue hm hindex, h.list_eq, h.size_eq,
      dense_closeUp_iff h.sorted hm hlt fun k => by rw [hfind, h.size_eq]; rfl]
    refine ⟨isList_arrayValue hm hindex, ?_⟩
    rw [or_iff_right (not_le.mpr hlt)]
    simp

end Value

/-! ### Runs -/

namespace ArrayOp

variable {ρ : Type*} {v : Value ρ}

/-- The array after the operation, if it returns. -/
def step (v : Value ρ) (op : ArrayOp ρ) : Option (Value ρ) := (op.apply v).toOption

theorem step_plain (h : v.IsList) {op : ArrayOp ρ} (hop : op.Plain v) :
    ∃ v', step v op = some v' ∧ v'.IsList ∧ v'.list = op.onList v.list := by
  cases op with
  | assign index value =>
    have hlt : index.toNat < 2 ^ 32 - 1 := hop
    obtain ⟨v', hv', hspec⟩ := h.assign_spec index.toNat_lt value
    rw [if_pos hlt] at hspec
    exact ⟨v', congrArg Except.toOption hv', hspec⟩
  | append value =>
    have hlt : v.size < 2 ^ 32 - 1 := hop
    obtain ⟨v', hv', hspec⟩ := h.assign_spec (show v.size < 2 ^ 32 by omega) value
    rw [if_pos hlt, set_pad h.length_list.le, pad_of_le h.length_list.ge] at hspec
    exact ⟨v', congrArg Except.toOption hv', hspec⟩
  | resize newSize =>
    have hzero : newSize = 0 → newSize.toNat = 0 := fun h => by rw [h]; rfl
    obtain ⟨v', hv', hspec⟩ := h.resize_plain newSize.toNat_lt (Or.imp_left hzero hop)
    exact ⟨v', congrArg Except.toOption hv', hspec⟩
  | removeIndex index =>
    have hspec := h.removeIndex_spec index.toNat
    have hzero : index = 0 → index.toNat = 0 := fun h => by rw [h]; rfl
    refine ⟨_, rfl, hspec.1, hspec.2.mpr ?_⟩
    exact Or.imp_right (And.imp_right (Or.imp_right (Or.imp_left hzero))) hop
  | clear =>
    rcases h.elements_eq with ⟨rfl, -⟩ | harray
    · exact ⟨_, rfl, h, rfl⟩
    · rw [harray]
      exact ⟨_, rfl, Value.isList_arrayValue List.Pairwise.nil (Nat.zero_le _), rfl⟩

theorem step_not_plain (h : v.IsList) {op : ArrayOp ρ} (hop : ¬ op.Plain v) {v' : Value ρ}
    (hv' : step v op = some v') : v'.list ≠ op.onList v.list := by
  have hlength := h.length_list
  have hbound := h.index
  rw [← h.size_eq] at hbound
  cases op with
  | assign index value =>
    have hlast : ¬ index.toNat < 2 ^ 32 - 1 := hop
    obtain ⟨w, hw, hspec⟩ := h.assign_spec index.toNat_lt value
    rw [if_neg hlast] at hspec
    obtain rfl : w = v' := Option.some.inj ((congrArg Except.toOption hw).symm.trans hv')
    intro heq
    have hlen : w.list.length = (onList v.list (.assign index value)).length := by rw [heq]
    rw [hspec, onList, List.length_set, length_pad, List.length_nil] at hlen
    omega
  | append value =>
    have hlast : ¬ v.size < 2 ^ 32 - 1 := hop
    obtain ⟨w, hw, hspec⟩ := h.assign_spec (show v.size < 2 ^ 32 by omega) value
    rw [if_neg hlast] at hspec
    obtain rfl : w = v' := Option.some.inj ((congrArg Except.toOption hw).symm.trans hv')
    rw [hspec, onList]
    simp
  | resize newSize =>
    -- the assertion fails
    have hne : ¬ (newSize = 0 ∨ v.size < newSize.toNat ∨
        (OrdMap.find v.elements (newSize.toNat - 1)).isSome = true) := hop
    have hzero : newSize.toNat = 0 → newSize = 0 := fun h => UInt32.toNat_inj.mp h
    have hresize := h.resize newSize.toNat
    rw [if_neg fun h => hne (.inr (.inl h)),
      if_neg fun h => hne (h.imp hzero .inr)] at hresize
    rw [step, apply, hresize] at hv'
    cases hv'
  | removeIndex index =>
    have hspec := h.removeIndex_spec index.toNat
    have hzero : index.toNat = 0 → index = 0 := fun h => UInt32.toNat_inj.mp h
    obtain rfl : (v.removeIndex index.toNat).2 = v' := Option.some.inj hv'
    intro heq
    apply hop
    exact Or.imp_right (And.imp_right (Or.imp_right (Or.imp_left hzero))) (hspec.2.mp heq)
  | clear => exact absurd trivial hop

end ArrayOp

/-- **An array is the list of its entries, as long as every operation is plain.**  All that is
done to it up to each point is what it does to the list exactly if no operation uses the largest
index, shortens the array onto a hole, or removes a hole. -/
theorem Value.array_run {ρ : Type*} {v : Value ρ} (h : v.IsList) (ops : List (ArrayOp ρ)) :
    (∀ before, before <+: ops →
      ∃ w, run ArrayOp.step v before = some w ∧ w.list = before.foldl ArrayOp.onList v.list) ↔
    ∀ before op, before ++ [op] <+: ops →
      ∀ w, run ArrayOp.step v before = some w → op.Plain w :=
  run_refines_iff (fun _ _ hI hop => ArrayOp.step_plain hI hop)
    (fun _ _ _ hI hop hw => ArrayOp.step_not_plain hI hop hw) h ops

/-- `resize` fails its assertion where the array would end in a hole. -/
theorem Value.array_run_resize :
    let ops : List (ArrayOp ℤ) := [.assign 4 (.booleanValue true), .resize 3]
    ¬ ∀ before, before <+: ops → ∃ w, run ArrayOp.step (.nullValue : Value ℤ) before = some w ∧
      w.list = before.foldl ArrayOp.onList (Value.list (.nullValue : Value ℤ)) := by
  intro ops hall
  have hnull : Value.IsList (.nullValue : Value ℤ) := ⟨.inl rfl, .nil, Nat.zero_le _⟩
  have hplain := (array_run hnull ops).mp hall [.assign 4 (.booleanValue true)] (.resize 3)
    (List.prefix_refl _) (.arrayValue [(4, .booleanValue true)]) rfl
  have hresize : (3 : UInt32) = 0 ∨ 5 < 3 ∨ false = true := hplain
  exact absurd hresize (by decide)

end LinuxDemo.Json

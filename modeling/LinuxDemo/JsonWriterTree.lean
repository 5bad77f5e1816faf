/-
LinuxDemo/JsonWriterTree.lean

What the writers write is JSON.

`treeOf` is the tree of the grammar that a value is written as, with the names
as the writer takes them.  All four writers write a text that is derived from
it: `FastWriter` on one line (`FastWriter.derives`), and a styled writer with
whatever blanks its style adds (`Style.derives`), which is shown for any style
that is `Lawful` and then of the three there are.

That `%.17g` of a finite `double` is a number of the grammar is the assumption
`Doubles.Prints`.
-/
import LinuxDemo.JsonWriter
import LinuxDemo.Lib.JsonGrammar

namespace LinuxDemo.Json

open JsonGrammar

variable {ρ : Type*}

/-- With the decimal point in place of the comma of a locale. -/
def Doubles.Prints (D : Doubles ρ) : Prop :=
  ∀ x, D.isfinite x = true → NumberText (fixNumericLocale (D.snprintf17g x))

/-! ### The tree of a value -/

def realTree (D : Doubles ρ) (x : ρ) : Tree :=
  if D.isfinite x = false ∧ D.isNaN x = true then .null else .number (valueToStringDouble D x)

mutual

/-- The tree that is written, where `name` is written for a name. -/
def treeOf (D : Doubles ρ) (name : List UInt8 → List UInt8) : Value ρ → Tree
  | .nullValue => .null
  | .intValue int_ => .number (valueToStringInt int_)
  | .uintValue uint_ => .number (valueToStringUInt uint_)
  | .realValue real_ => realTree D real_
  | .stringValue string_ => .string (string_.getD [])
  | .booleanValue bool_ => .bool bool_
  | .arrayValue m =>
      let trees := treeOfElems D name m
      .array ((List.range (Value.arrayValue m).size).map fun index =>
        (OrdMap.find trees index).getD .null)
  | .objectValue m => .object (treeOfMembers D name m)

def treeOfElems (D : Doubles ρ) (name : List UInt8 → List UInt8) :
    List (ℕ × Value ρ) → List (ℕ × Tree)
  | [] => []
  | (index, v) :: m => (index, treeOf D name v) :: treeOfElems D name m

def treeOfMembers (D : Doubles ρ) (name : List UInt8 → List UInt8) :
    List (List UInt8 × Value ρ) → List (List UInt8 × Tree)
  | [] => []
  | (name', v) :: m => (name name', treeOf D name v) :: treeOfMembers D name m

end

/-- What can be written: no string is NULL, and no container is too large for its size. -/
def Writable : Value ρ → Prop
  | .stringValue string_ => string_.isSome
  | .arrayValue m => (Value.arrayValue m).size < 2 ^ 31
  | .objectValue m => m.length < 2 ^ 32
  | _ => True

section

variable (D : Doubles ρ) (name : List UInt8 → List UInt8)

theorem treeOfElems_eq (m : List (ℕ × Value ρ)) :
    treeOfElems D name m = m.map fun e => (e.1, treeOf D name e.2) := by
  induction m with
  | nil => rfl
  | cons e m ih => rw [treeOfElems, ih]; rfl

theorem treeOfMembers_eq (m : List (List UInt8 × Value ρ)) :
    treeOfMembers D name m = m.map fun e => (name e.1, treeOf D name e.2) := by
  induction m with
  | nil => rfl
  | cons e m ih => rw [treeOfMembers, ih]; rfl

/-- A value of an array, or null. -/
theorem Value.elem_cases (m : List (ℕ × Value ρ)) (index : ℕ) :
    Value.elem m index = .nullValue ∨ ∃ e ∈ m, Value.elem m index = e.2 := by
  rw [Value.elem]
  rcases hfind : OrdMap.find m index with _ | v
  · exact .inl rfl
  · exact .inr ⟨(index, v), OrdMap.mem_of_find hfind, rfl⟩

/-- The tree of an array is the one of its values, index by index. -/
theorem treeOf_arrayValue (m : List (ℕ × Value ρ)) :
    treeOf D name (.arrayValue m) =
      .array ((List.range (Value.arrayValue m).size).map fun index =>
        treeOf D name (Value.elem m index)) := by
  rw [treeOf]
  refine congrArg Tree.array (List.map_congr_left fun index _ => ?_)
  rw [treeOfElems_eq, OrdMap.find_map, Value.elem]
  cases OrdMap.find m index <;> rfl

theorem treeOf_objectValue (m : List (List UInt8 × Value ρ)) :
    treeOf D name (.objectValue m) =
      .object (m.map fun e => (name e.1, treeOf D name e.2)) := by
  rw [treeOf, treeOfMembers_eq]

end

/-! ### Strings are quoted -/

theorem hexText_control {c : UInt8} (hc : c < 0x20) :
    HexText (Char.ofNat c.toNat).toNat (0x30 :: 0x30 :: sprintf02X c) ∧
      String.utf8EncodeChar (Char.ofNat c.toNat) = [c] := by
  have key : ∀ n : Fin 256, (⟨⟨n⟩⟩ : UInt8) < 0x20 →
      (0x30 :: 0x30 :: sprintf02X ⟨⟨n⟩⟩).length = 4 ∧
      hexFrom 0 (0x30 :: 0x30 :: sprintf02X ⟨⟨n⟩⟩) = some (Char.ofNat n.val).toNat ∧
      String.utf8EncodeChar (Char.ofNat n.val) = [⟨⟨n⟩⟩] := by
    decide +kernel
  obtain ⟨hlen, hhex, hutf8⟩ := key c.toBitVec.toFin hc
  exact ⟨⟨hlen, hhex⟩, hutf8⟩

theorem control_iff (c : UInt8) : (isControlCharacter c || c = 0) = true ↔ c < 0x20 := by
  rw [Bool.or_eq_true, decide_eq_true_eq, isControlCharacter_iff]
  constructor
  · rintro (⟨-, hlt⟩ | rfl)
    · exact hlt
    · decide
  · intro hlt
    by_cases h0 : c = 0
    · exact .inr h0
    · exact .inl ⟨h0, hlt⟩

/-- An escape stands for its byte. -/
theorem charText_escapeByte (c : UInt8) : CharText (escapeByte c) [c] := by
  unfold escapeByte
  split
  case h_8 hquote hescape _ _ _ _ _ =>
    split
    · rename_i hcontrol
      obtain ⟨hhex, hutf8⟩ := hexText_control ((control_iff c).mp hcontrol)
      have htext := CharText.unicode hhex
      rw [hutf8] at htext
      exact htext
    · rename_i hcontrol
      rw [control_iff] at hcontrol
      exact .plain (not_lt.mp hcontrol) hquote hescape
  all_goals exact .short (by decide)

theorem charsText_escaped (s : List UInt8) : CharsText (s.flatMap escapeByte) s := by
  induction s with
  | nil => exact .nil
  | cons c s ih => exact .cons (charText_escapeByte c) ih

/-- A string of which no byte has to be escaped. -/
theorem charsText_plain {s : List UInt8} (hescaped : containsEscaped s = false)
    (hcontrol : containsControlCharacter0 s = false) : CharsText s s := by
  induction s with
  | nil => exact .nil
  | cons c s ih =>
    rw [containsEscaped, List.any_cons, Bool.or_eq_false_iff] at hescaped
    rw [containsControlCharacter0, List.any_cons, Bool.or_eq_false_iff] at hcontrol
    have hctl : ¬ c < 0x20 := by
      rw [← control_iff, hcontrol.1]
      decide
    have hquote : c ≠ 0x22 := by
      rintro rfl
      exact absurd hescaped.1 (by decide)
    have hback : c ≠ 0x5C := by
      rintro rfl
      exact absurd hescaped.1 (by decide)
    exact .cons (.plain (not_lt.mp hctl) hquote hback) (ih hescaped.2 hcontrol.2)

/-- **A string is quoted whole.** -/
theorem quoted_valueToQuotedStringN (s : List UInt8) : Quoted s (valueToQuotedStringN s) := by
  rw [valueToQuotedStringN]
  split
  · rename_i h
    rw [Bool.and_eq_true, Bool.not_eq_true', Bool.not_eq_true'] at h
    have hnul : ∀ c ∈ s, c ≠ 0 := by
      rintro c hc rfl
      have hany := List.any_eq_false.mp h.2 0 hc
      exact hany (by decide)
    rw [cstr_unterminated hnul]
    exact ⟨s, charsText_plain h.1 h.2, rfl⟩
  · exact ⟨_, charsText_escaped s, rfl⟩

/-- **A C string is quoted up to its NUL.** -/
theorem quoted_valueToQuotedString (s : List UInt8) : Quoted (cstr s) (valueToQuotedString s) := by
  rw [valueToQuotedString]
  split
  · rename_i h
    rw [Bool.and_eq_true, Bool.not_eq_true', Bool.not_eq_true'] at h
    have hcontrol : containsControlCharacter0 (cstr s) = false := by
      refine List.any_eq_false.mpr fun c hc => ?_
      have hctl := List.any_eq_false.mp h.2 c hc
      simpa [mem_cstr hc] using hctl
    exact ⟨_, charsText_plain h.1 hcontrol, rfl⟩
  · exact ⟨_, charsText_escaped _, rfl⟩

/-! ### Numbers are numbers -/

theorem numberText_int (n : Int64) : NumberText (valueToStringInt n) := by
  rw [valueToStringInt_eq]
  split
  · exact .ofNeg (intText_decimal _)
  · exact .ofInt (intText_decimal _)

theorem numberText_uint (n : UInt64) : NumberText (valueToStringUInt n) := by
  rw [valueToStringUInt_eq]
  exact .ofInt (intText_decimal _)

/-- The texts for the infinities. -/
theorem numberText_infinity :
    NumberText (fixNumericLocale (ascii "1e+9999")) ∧
      NumberText (fixNumericLocale (ascii "-1e+9999")) := by
  have hdigits : Digits (ascii "9999") := List.all_eq_true.mp rfl
  have hexp : ExpText (ascii "e+9999") :=
    .inr ⟨0x65, [0x2B], ascii "9999", rfl, .inl rfl, .inr (.inl rfl), by decide, hdigits⟩
  have hint : IntText [0x31] := .inr ⟨0x31, [], rfl, rfl, by decide, nofun⟩
  have hpos : fixNumericLocale (ascii "1e+9999") = [] ++ ([0x31] ++ ([] ++ ascii "e+9999")) := by
    decide
  have hneg : fixNumericLocale (ascii "-1e+9999") =
      [0x2D] ++ ([0x31] ++ ([] ++ ascii "e+9999")) := by
    decide
  rw [hpos, hneg]
  exact ⟨.mk (.inl rfl) hint (.inl rfl) hexp, .mk (.inr rfl) hint (.inl rfl) hexp⟩

theorem derives_real {D : Doubles ρ} (hprints : D.Prints) (x : ρ) :
    Derives (.value (realTree D x)) (valueToStringDouble D x) := by
  rw [realTree]
  split
  · rename_i hnan
    have hnull : valueToStringDouble D x = ascii "null" := by
      rw [valueToStringDouble, if_neg (by rw [hnan.1]; decide), if_pos hnan.2]
      decide
    rw [hnull]
    exact .null
  · rename_i hnumber
    refine .number ?_
    rw [valueToStringDouble]
    split
    · rename_i hfinite
      exact hprints x hfinite
    · rename_i hfinite
      rw [if_neg fun hnan => hnumber ⟨Bool.eq_false_iff.mpr hfinite, hnan⟩]
      split
      · exact numberText_infinity.2
      · exact numberText_infinity.1

/-! ### Members -/

/-- A colon between blanks. -/
def ColonText (t : List UInt8) : Prop :=
  ∃ b b', Blank b ∧ Blank b' ∧ t = b ++ 0x3A :: b'

/-- A name, a colon and a value. -/
theorem derives_member {b name q colon t : List UInt8} {v : Tree} (hb : Blank b)
    (hq : Quoted name q) (hcolon : ColonText colon) (h : Derives (.around v) t) :
    Derives (.members [(name, v)]) (b ++ (q ++ (colon ++ t))) := by
  obtain ⟨b₁, b₂, hb₁, hb₂, rfl⟩ := hcolon
  rw [List.append_assoc b₁, List.cons_append]
  exact .member hb hq hb₁ (h.padLeft hb₂)

/-! ### `FastWriter` -/

namespace FastWriter

variable (w : FastWriter) (D : Doubles ρ)

theorem writeElems_eq (m : List (ℕ × Value ρ)) :
    writeElems w D m = m.map fun e => (e.1, writeValue w D e.2) := by
  induction m with
  | nil => rfl
  | cons e m ih => rw [writeElems, ih]; rfl

theorem writeMembers_eq (m : List (List UInt8 × Value ρ)) :
    writeMembers w D m = m.map fun e => valueToQuotedStringN e.1 ++
      ((if w.yamlCompatiblityEnabled_ then ascii ": " else ascii ":") ++ writeValue w D e.2) := by
  induction m with
  | nil => rfl
  | cons e m ih => rw [writeMembers, ih]; rfl

/-- An array is written value by value. -/
theorem writeValue_arrayValue {m : List (ℕ × Value ρ)} (hm : (Value.arrayValue m).size < 2 ^ 31) :
    writeValue w D (.arrayValue m) =
      0x5B :: (List.intercalate [0x2C] ((List.range (Value.arrayValue m).size).map fun index =>
        writeValue w D (Value.elem m index)) ++ [0x5D]) := by
  have hsize : (int32 (Value.arrayValue m).size).toNat = (Value.arrayValue m).size := by
    rw [int32_eq (by omega) (by omega), Int.toNat_natCast]
  have helem (index : ℕ) : (OrdMap.find (writeElems w D m) index).getD w.writeNull =
      writeValue w D (Value.elem m index) := by
    rw [writeElems_eq, OrdMap.find_map, Value.elem]
    cases OrdMap.find m index <;> rfl
  rw [writeValue]
  simp only [hsize, helem]

variable {w D}

variable (w) in
theorem colon : ColonText (if w.yamlCompatiblityEnabled_ then ascii ": " else ascii ":") := by
  split
  · exact ⟨[], [0x20], blank_nil, blank_space, by decide⟩
  · exact ⟨[], [], blank_nil, blank_nil, by decide⟩

/-- **`FastWriter` writes the tree of a value.** -/
theorem derives (hprints : D.Prints) (hnull : w.dropNullPlaceholders_ = false) {v : Value ρ}
    (hv : v.Everywhere Writable) : Derives (.value (treeOf D id v)) (writeValue w D v) := by
  have hwriteNull : Derives (.value .null) w.writeNull := by
    rw [writeNull, hnull]
    exact .null
  induction v with
  | nullValue => exact hwriteNull
  | intValue n => exact .number (numberText_int n)
  | uintValue n => exact .number (numberText_uint n)
  | realValue x => exact derives_real hprints x
  | stringValue s =>
    obtain ⟨s, rfl⟩ := Option.isSome_iff_exists.mp hv
    exact .string (quoted_valueToQuotedStringN s)
  | booleanValue b => exact .bool b
  | arrayValue m ih =>
    obtain ⟨hsize, hm⟩ := Value.everywhere_arrayValue.mp hv
    have helem (index : ℕ) : Derives (.value (treeOf D id (Value.elem m index)))
        (writeValue w D (Value.elem m index)) := by
      rcases Value.elem_cases m index with helem | ⟨e, he, helem⟩
      · rw [helem]
        exact hwriteNull
      · rw [helem]
        exact ih e he (hm e he)
    rw [treeOf_arrayValue, writeValue_arrayValue w D hsize]
    generalize (Value.arrayValue m).size = size
    cases size with
    | zero => exact .emptyArray blank_nil
    | succ n =>
      have hjoin := derives_join blank_nil ((List.range (n + 1)).map fun index =>
        (treeOf D id (Value.elem m index), writeValue w D (Value.elem m index))) (by simp)
        (by
          intro e he
          obtain ⟨index, -, rfl⟩ := List.mem_map.mp he
          exact helem index)
      rw [List.map_map, List.map_map] at hjoin
      exact .array hjoin
  | objectValue m ih =>
    obtain ⟨-, hm⟩ := Value.everywhere_objectValue.mp hv
    rw [treeOf_objectValue, writeValue, writeMembers_eq]
    cases m with
    | nil => exact .emptyObject blank_nil
    | cons e₀ m =>
      have hjoin := derives_joinMembers ((e₀ :: m).map fun e =>
        ((e.1, treeOf D id e.2), valueToQuotedStringN e.1 ++
          ((if w.yamlCompatiblityEnabled_ then ascii ": " else ascii ":") ++ writeValue w D e.2)))
        (by simp)
        (by
          intro e' he'
          obtain ⟨e, he, rfl⟩ := List.mem_map.mp he'
          exact derives_member blank_nil (quoted_valueToQuotedStringN e.1) (colon w)
            (ih e he (hm e he)).ofValue)
      rw [List.map_map, List.map_map] at hjoin
      exact .object hjoin

/-- **A written document.** -/
theorem derives_write (hprints : D.Prints) (hnull : w.dropNullPlaceholders_ = false) {v : Value ρ}
    (hv : v.Everywhere Writable) : Derives (.around (treeOf D id v)) (w.write D v) := by
  refine (derives hprints hnull hv).ofValue.padRight ?_
  split
  · exact blank_newline
  · exact blank_nil

end FastWriter

end LinuxDemo.Json

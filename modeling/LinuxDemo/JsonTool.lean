/-
LinuxDemo/JsonTool.lean

The tools that the JSON reader and the JSON writers share, and the texts of
numbers.

`uintToString` fills its buffer from the end.  The part of the buffer that is
filled is the list `current`, so that a byte stored in front of it is a cons.
-/
import LinuxDemo.Lib.CStr
import LinuxDemo.Lib.CInt
import LinuxDemo.Lib.Decimal
import Mathlib.Data.Char

namespace LinuxDemo.Json

/-- A code point in UTF-8. -/
def codePointToUTF8 (cp : UInt32) : List UInt8 :=
  if cp ≤ 0x7F then [cp.toUInt8]
  else if cp ≤ 0x7FF then
    [(cp >>> 6 &&& 0x1F ||| 0xC0).toUInt8, (cp &&& 0x3F ||| 0x80).toUInt8]
  else if cp ≤ 0xFFFF then
    [(cp >>> 12 &&& 0xF ||| 0xE0).toUInt8, (cp >>> 6 &&& 0x3F ||| 0x80).toUInt8,
      (cp &&& 0x3F ||| 0x80).toUInt8]
  else if cp ≤ 0x10FFFF then
    [(cp >>> 18 &&& 0x7 ||| 0xF0).toUInt8, (cp >>> 12 &&& 0x3F ||| 0x80).toUInt8,
      (cp >>> 6 &&& 0x3F ||| 0x80).toUInt8, (cp &&& 0x3F ||| 0x80).toUInt8]
  else []

/-- The comparisons are those of a `char` with a sign. -/
def isControlCharacter (ch : UInt8) : Bool := 0 < ch.toInt8 && ch.toInt8 ≤ 0x1F

/-- At most `n` rounds of the loop. -/
def uintToStringLoop : ℕ → UInt64 → List UInt8 → List UInt8
  | 0, _, current => current
  | n + 1, value, current =>
      let current := ((value % 10).toUInt8 + 0x30) :: current
      if value / 10 ≠ 0 then uintToStringLoop n (value / 10) current else current

/-- No value has more than 20 digits. -/
def uintToString (value : UInt64) (current : List UInt8) : List UInt8 :=
  uintToStringLoop 20 value (0 :: current)

/-- Every `,` becomes a `.`. -/
def fixNumericLocale (buffer : List UInt8) : List UInt8 :=
  buffer.map fun c => if c = 0x2C then 0x2E else c

/-- `valueToString` of a `LargestUInt`: the string that begins in the buffer. -/
def valueToStringUInt (value : UInt64) : List UInt8 := cstr (uintToString value [])

/-- `valueToString` of a `LargestInt`. -/
def valueToStringInt (value : Int64) : List UInt8 :=
  let current := uintToString (if value < 0 then -value else value).toUInt64 []
  cstr (if value < 0 then 0x2D :: current else current)

/-- What the C library does with a `double`: its tests, the text that `snprintf`
leaves for `%.17g`, and what `sscanf` or a stream reads back from a text. -/
structure Doubles (ρ : Type*) where
  isfinite : ρ → Bool
  isNaN : ρ → Bool
  isNegative : ρ → Bool
  snprintf17g : ρ → List UInt8
  sscanf : List UInt8 → Option ρ

/-- The C library with 0.5 as the only `double`. -/
def Doubles.half : Doubles Unit := ⟨fun _ => true, fun _ => false, fun _ => false, fun _ => ascii "0.5",
  fun _ => some ()⟩

/-- `valueToString` of a `double`. -/
def valueToStringDouble {ρ : Type*} (D : Doubles ρ) (value : ρ) : List UInt8 :=
  fixNumericLocale <|
    if D.isfinite value then D.snprintf17g value
    else if D.isNaN value then ascii "null"
    else if D.isNegative value then ascii "-1e+9999"
    else ascii "1e+9999"

def valueToStringBool (value : Bool) : List UInt8 := if value then ascii "true" else ascii "false"

/-! ### What they do -/

/-- The control characters, without their NUL. -/
theorem isControlCharacter_iff (ch : UInt8) : isControlCharacter ch ↔ ch ≠ 0 ∧ ch < 0x20 := by
  have key : ∀ n : Fin 256, isControlCharacter ⟨⟨n⟩⟩ ↔ (⟨⟨n⟩⟩ : UInt8) ≠ 0 ∧ (⟨⟨n⟩⟩ : UInt8) < 0x20 := by
    decide +kernel
  exact key ch.toBitVec.toFin

/-- The digit of one round. -/
theorem round_digit (value : UInt64) :
    (value % 10).toUInt8 + 0x30 = decDigit (value.toNat % 10) := by
  have h10 : (10 : UInt64).toNat = 10 := rfl
  have h48 : (0x30 : UInt8).toNat = 48 := rfl
  apply UInt8.toNat.inj
  rw [toNat_decDigit (Nat.mod_lt _ (by decide)), UInt8.toNat_add, UInt64.toNat_toUInt8,
    UInt64.toNat_mod, h10, h48]
  omega

theorem round_rest (value : UInt64) : (value / 10).toNat = value.toNat / 10 := by
  rw [UInt64.toNat_div]
  rfl

/-- The loop writes the value in decimal. -/
theorem uintToStringLoop_eq {n : ℕ} {value : UInt64} (hn : n ≠ 0) (h : value.toNat < 10 ^ n)
    (current : List UInt8) :
    uintToStringLoop n value current = decimal value.toNat ++ current := by
  induction n generalizing value current with
  | zero => exact absurd rfl hn
  | succ n ih =>
    rw [uintToStringLoop]
    simp only [round_digit]
    by_cases hlt : value.toNat < 10
    · have hzero : value / 10 = 0 := by
        apply UInt64.toNat.inj
        rw [round_rest, UInt64.toNat_zero]
        omega
      rw [if_neg (not_not.mpr hzero), decimal_of_lt hlt, Nat.mod_eq_of_lt hlt]
      rfl
    · have hne : value / 10 ≠ 0 := by
        intro hzero
        have hrest := round_rest value
        rw [hzero, UInt64.toNat_zero] at hrest
        omega
      have hn' : n ≠ 0 := by
        rintro rfl
        exact hlt h
      have hlt' : (value / 10).toNat < 10 ^ n := by
        rw [round_rest]
        exact Nat.div_lt_of_lt_mul (by rwa [Nat.pow_succ'] at h)
      rw [if_pos hne, ih hn' hlt', round_rest, decimal_of_le (Nat.le_of_not_lt hlt),
        List.append_assoc]
      rfl

theorem uintToString_eq (value : UInt64) (current : List UInt8) :
    uintToString value current = decimal value.toNat ++ 0 :: current := by
  have hlt := value.toNat_lt
  exact uintToStringLoop_eq (by decide) (by omega) _

theorem ne_zero_of_mem_decimal {n : ℕ} {c : UInt8} (hc : c ∈ decimal n) : c ≠ 0 := by
  rintro rfl
  have hdigit := isDecDigit_of_mem_decimal hc
  exact absurd hdigit (by decide)

theorem valueToStringUInt_eq (value : UInt64) : valueToStringUInt value = decimal value.toNat := by
  rw [valueToStringUInt, uintToString_eq]
  exact cstr_terminated _ fun c hc => ne_zero_of_mem_decimal hc

/-- The signed value of 64 bits. -/
theorem toInt_eq_bmod (value : Int64) : value.toInt = (value.toUInt64.toNat : ℤ).bmod (2 ^ 64) :=
  BitVec.toInt_eq_toNat_bmod _

/-- The magnitude, also of the least value, whose negation wraps. -/
theorem toNat_abs (value : Int64) :
    (if value < 0 then -value else value).toUInt64.toNat = value.toInt.natAbs := by
  have hint := toInt_eq_bmod value
  have hlt := value.toUInt64.toNat_lt
  rw [Int.bmod_def] at hint
  split
  · rename_i hneg
    have hneg' : value.toInt < 0 := Int64.lt_iff_toInt_lt.mp hneg
    have hsize : UInt64.size = 2 ^ 64 := rfl
    rw [Int64.toUInt64_neg, UInt64.toNat_neg, hsize]
    omega
  · rename_i hpos
    have hpos' : ¬ value.toInt < 0 := fun h => hpos (Int64.lt_iff_toInt_lt.mpr h)
    omega

/-- **A signed value in decimal.** -/
theorem valueToStringInt_eq (value : Int64) :
    valueToStringInt value =
      if value < 0 then 0x2D :: decimal value.toInt.natAbs else decimal value.toInt.natAbs := by
  simp only [valueToStringInt, uintToString_eq, toNat_abs]
  split
  · exact cstr_terminated (s := 0x2D :: decimal value.toInt.natAbs) _ fun c hc => by
      rcases List.mem_cons.mp hc with rfl | hc
      · decide
      · exact ne_zero_of_mem_decimal hc
  · exact cstr_terminated _ fun c hc => ne_zero_of_mem_decimal hc

/-- `char buffer[3 * sizeof(LargestUInt) + 1]` is never left: at most 20 digits,
a sign and the NUL. -/
theorem uintToString_length (value : UInt64) : (uintToString value []).length + 1 ≤ 25 := by
  have hlt := value.toNat_lt
  have := decimal_length (n := value.toNat) (k := 20) (by decide) (by omega)
  rw [uintToString_eq, List.length_append, List.length_singleton]
  omega

end LinuxDemo.Json

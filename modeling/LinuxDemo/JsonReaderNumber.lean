/-
LinuxDemo/JsonReaderNumber.lean

The numbers that the reader takes for integers.

The loop of `decodeNumber` finds out before each digit whether the value would
be more than the largest integer, from a tenth of that and the last digit.  It
is exact (`decodeNumberLoop_eq`): a text of digits is an integer if its value
is in the range, and is left to `double` if it is not (`decodeInteger_eq`).
-/
import LinuxDemo.JsonReader
import Mathlib.Data.UInt

namespace LinuxDemo.Json

variable {ρ : Type*}

/-- What a text of digits, with or without a minus, is as a value, if it is in
the range of the integers. -/
def integerValue (text : List UInt8) : Option (Value ρ) :=
  if text.headD 0 = 0x2D then
    if text.tail.all isDecDigit ∧ valueFrom 0 text.tail ≤ 2 ^ 63 then
      some (.intValue (Int64.ofInt (-valueFrom 0 text.tail)))
    else none
  else if text.all isDecDigit ∧ valueFrom 0 text < 2 ^ 64 then
    if valueFrom 0 text ≤ 2147483647 then some (.intValue (Int64.ofNat (valueFrom 0 text)))
    else some (.uintValue (UInt64.ofNat (valueFrom 0 text)))
  else none

/-- The value of a digit. -/
theorem toNat_digit {c : UInt8} (hc : isDecDigit c) : (c - 0x30).toUInt64.toNat = c.toNat - 48 := by
  obtain ⟨hlow, hhigh⟩ := isDecDigit_iff.mp hc
  have h48 : (0x30 : UInt8).toNat = 48 := rfl
  have hle : (0x30 : UInt8) ≤ c := UInt8.le_iff_toNat_le.mpr (by rw [h48]; exact hlow)
  rw [UInt8.toNat_toUInt64, UInt8.toNat_sub_of_le _ _ hle, h48]

theorem valueFrom_lt_of_digit {c : UInt8} (hc : isDecDigit c) : c.toNat - 48 < 10 := by
  obtain ⟨hlow, hhigh⟩ := isDecDigit_iff.mp hc
  omega

/-- The loop finds exactly the values up to the largest. -/
theorem decodeNumberLoop_eq {m v : UInt64} (hmax : 10 ≤ m.toNat) (hv : v.toNat ≤ m.toNat)
    (t : List UInt8) :
    decodeNumberLoop m (m / 10) v t =
      if t.all isDecDigit ∧ valueFrom v.toNat t ≤ m.toNat then
        some (UInt64.ofNat (valueFrom v.toNat t))
      else none := by
  induction t generalizing v with
  | nil =>
    rw [decodeNumberLoop, if_pos ⟨rfl, hv⟩]
    exact congrArg some UInt64.ofNat_toNat.symm
  | cons c t ih =>
    have h10 : (10 : UInt64).toNat = 10 := rfl
    have hdiv : (m / 10).toNat = m.toNat / 10 := by rw [UInt64.toNat_div, h10]
    have hmod : (m % 10).toNat = m.toNat % 10 := by rw [UInt64.toNat_mod, h10]
    rw [decodeNumberLoop]
    split
    · rename_i hc
      rw [if_neg fun h => hc (List.all_eq_true.mp h.1 c List.mem_cons_self)]
    · rename_i hc
      have hc := not_not.mp hc
      have hdigit := toNat_digit hc
      have hlt := valueFrom_lt_of_digit hc
      have hmono := le_valueFrom (v.toNat * 10 + (c.toNat - 48)) t
      simp only [UInt64.le_iff_toNat_le, UInt64.lt_iff_toNat_lt, ge_iff_le, gt_iff_lt, hdiv, hmod,
        hdigit]
      split
      · rename_i hover
        refine (if_neg fun h => ?_).symm
        have hle := h.2
        rw [valueFrom_cons] at hle
        obtain ⟨hge, hgt | hmore | hlast⟩ := hover
        · omega
        · obtain ⟨d, t, rfl⟩ := List.exists_cons_of_ne_nil hmore
          have hmono := le_valueFrom ((v.toNat * 10 + (c.toNat - 48)) * 10 + (d.toNat - 48)) t
          rw [valueFrom_cons] at hle
          omega
        · omega
      · rename_i hover
        have hsum : v.toNat * 10 + (c.toNat - 48) ≤ m.toNat := by
          by_contra hgt
          refine hover ⟨by omega, ?_⟩
          by_cases hlast : m.toNat / 10 < v.toNat
          · exact .inl hlast
          · exact .inr (.inr (by omega))
        have hnext : (v * 10 + (c - 0x30).toUInt64).toNat = v.toNat * 10 + (c.toNat - 48) := by
          have hbound := m.toNat_lt
          rw [UInt64.toNat_add, UInt64.toNat_mul, h10, hdigit]
          omega
        rw [ih (by rw [hnext]; exact hsum), hnext, valueFrom_cons]
        simp only [List.all_cons, hc, Bool.true_and]

/-- A text of digits is an integer exactly if it is in the range. -/
theorem decodeInteger_eq (text : List UInt8) :
    (decodeInteger text : Option (Value ρ)) = integerValue text := by
  have hneg (n : ℕ) : -(UInt64.ofNat n).toInt64 = Int64.ofInt (-n) := by
    rw [UInt64.toInt64_ofNat', Int64.ofInt_neg, Int64.ofInt_eq_ofNat]
  rw [decodeInteger, integerValue]
  by_cases hminus : text.headD 0 = 0x2D
  · have hmax : (-Int64.minValue).toUInt64 = 9223372036854775808 := rfl
    have hloop := decodeNumberLoop_eq (m := 9223372036854775808) (v := 0) (by decide) (by decide)
      text.tail
    have hbound : (9223372036854775808 : UInt64).toNat = 2 ^ 63 := rfl
    simp only [hminus, if_true, hmax, hloop, UInt64.toNat_zero, hbound]
    split
    · rw [Option.map_some, hneg]
    · rfl
  · have hloop := decodeNumberLoop_eq (m := -1) (v := 0) (by decide) (by decide) text
    have hbound (n : ℕ) : n ≤ (-1 : UInt64).toNat ↔ n < 2 ^ 64 := by
      rw [show (-1 : UInt64).toNat = 2 ^ 64 - 1 from rfl]
      omega
    simp only [hminus, if_false, hloop, UInt64.toNat_zero, hbound]
    split
    · rename_i hdigits
      have hvalue : UInt64.ofNat (valueFrom 0 text) ≤ 2147483647 ↔ valueFrom 0 text ≤ 2147483647 := by
        rw [UInt64.le_iff_toNat_le, UInt64.toNat_ofNat', Nat.mod_eq_of_lt hdigits.2]
        exact Iff.rfl
      rw [Option.map_some]
      simp only [hvalue]
      split <;> rfl
    · rfl

/-! ### Integers -/

/-- An integer in decimal. -/
def decimalInt (z : ℤ) : List UInt8 := if z < 0 then 0x2D :: decimal z.natAbs else decimal z.natAbs

theorem decimal_digits (n : ℕ) : (decimal n).all isDecDigit = true :=
  List.all_eq_true.mpr fun _ hc => isDecDigit_of_mem_decimal hc

theorem decimal_headD (n : ℕ) : (decimal n).headD 0 ≠ 0x2D := by
  obtain ⟨d, ds, hd⟩ := List.exists_cons_of_ne_nil (decimal_ne_nil n)
  have hdigit := decimal_digits n
  rw [hd] at hdigit ⊢
  rw [List.headD_cons]
  rintro rfl
  exact absurd (List.all_eq_true.mp hdigit _ List.mem_cons_self) (by decide)

/-- A text without a sign. -/
theorem integerValue_decimal {n : ℕ} (hn : n < 2 ^ 64) :
    (integerValue (decimal n) : Option (Value ρ)) =
      if n ≤ 2147483647 then some (.intValue (Int64.ofNat n))
      else some (.uintValue (UInt64.ofNat n)) := by
  rw [integerValue, if_neg (decimal_headD n), valueFrom_decimal,
    if_pos ⟨decimal_digits n, hn⟩]

theorem integerValue_neg {n : ℕ} (hn : n ≤ 2 ^ 63) :
    (integerValue (0x2D :: decimal n) : Option (Value ρ)) =
      some (.intValue (Int64.ofInt (-n))) := by
  rw [integerValue, List.headD_cons, List.tail_cons, if_pos rfl, valueFrom_decimal,
    if_pos ⟨decimal_digits n, hn⟩]

end LinuxDemo.Json

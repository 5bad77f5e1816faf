/-
LinuxDemo/Lib/Decimal.lean

Numbers in decimal, as ASCII text.

`decimal n` is the text of `n` without leading zeros, and `valueFrom v t` what a
reader of the digits `t` has after them if it had `v` before.
-/
import Mathlib.Data.Nat.Digits.Defs
import Mathlib.Tactic.IntervalCases

namespace LinuxDemo

/-- The digit `0` to `9`. -/
def decDigit (d : ℕ) : UInt8 := UInt8.ofNat (48 + d)

def isDecDigit (c : UInt8) : Bool := 48 ≤ c ∧ c ≤ 57

/-- `n` in decimal. -/
def decimal (n : ℕ) : List UInt8 :=
  if n = 0 then [decDigit 0] else ((Nat.digits 10 n).map decDigit).reverse

/-- A digit more is ten times as much, and the digit. -/
def valueFrom (v : ℕ) (t : List UInt8) : ℕ := t.foldl (fun v c => v * 10 + (c.toNat - 48)) v

theorem isDecDigit_iff {c : UInt8} : isDecDigit c ↔ 48 ≤ c.toNat ∧ c.toNat ≤ 57 := by
  simp only [isDecDigit, decide_eq_true_eq]
  exact Iff.rfl

theorem toNat_decDigit {d : ℕ} (hd : d < 10) : (decDigit d).toNat = 48 + d := by
  rw [decDigit, UInt8.toNat_ofNat']
  omega

theorem isDecDigit_decDigit {d : ℕ} (hd : d < 10) : isDecDigit (decDigit d) := by
  rw [isDecDigit_iff, toNat_decDigit hd]
  omega

theorem decDigit_ne_zero {d : ℕ} (hd : d < 10) (h0 : d ≠ 0) : decDigit d ≠ 48 := by
  intro heq
  have hval := toNat_decDigit hd
  rw [heq] at hval
  have h48 : (48 : UInt8).toNat = 48 := rfl
  omega

theorem decimal_of_lt {n : ℕ} (h : n < 10) : decimal n = [decDigit n] := by
  rw [decimal]
  split
  · rename_i h0
    rw [h0]
  · rename_i h0
    rw [Nat.digits_of_lt 10 n h0 h]
    rfl

/-- The last digit. -/
theorem decimal_of_le {n : ℕ} (h : 10 ≤ n) :
    decimal n = decimal (n / 10) ++ [decDigit (n % 10)] := by
  have hdiv : n / 10 ≠ 0 := by omega
  rw [decimal, decimal, if_neg (by omega), if_neg hdiv, Nat.digits_def' (by decide) (by omega),
    List.map_cons, List.reverse_cons]

theorem decimal_ne_nil (n : ℕ) : decimal n ≠ [] := by
  by_cases h : n < 10
  · simp [decimal_of_lt h]
  · simp [decimal_of_le (Nat.le_of_not_lt h)]

theorem isDecDigit_of_mem_decimal {n : ℕ} {c : UInt8} (hc : c ∈ decimal n) : isDecDigit c := by
  induction n using Nat.strong_induction_on with
  | _ n ih =>
    by_cases h : n < 10
    · rw [decimal_of_lt h, List.mem_singleton] at hc
      exact hc ▸ isDecDigit_decDigit h
    · rw [decimal_of_le (Nat.le_of_not_lt h), List.mem_append, List.mem_singleton] at hc
      rcases hc with hc | rfl
      · exact ih (n / 10) (by omega) hc
      · exact isDecDigit_decDigit (Nat.mod_lt n (by decide))

/-- Only zero has a leading zero. -/
theorem decimal_head {n : ℕ} (h : n ≠ 0) : (decimal n).head? ≠ some 48 := by
  induction n using Nat.strong_induction_on with
  | _ n ih =>
    by_cases hlt : n < 10
    · rw [decimal_of_lt hlt, List.head?_singleton, ne_eq, Option.some.injEq]
      exact decDigit_ne_zero hlt h
    · have hhead := ih (n / 10) (by omega) (by omega)
      rw [decimal_of_le (Nat.le_of_not_lt hlt), List.head?_append]
      rcases hd : (decimal (n / 10)).head? with _ | c
      · exact absurd (List.head?_eq_none_iff.mp hd) (decimal_ne_nil _)
      · rwa [hd] at hhead

theorem decimal_length {n k : ℕ} (hk : k ≠ 0) (h : n < 10 ^ k) : (decimal n).length ≤ k := by
  induction k generalizing n with
  | zero => exact absurd rfl hk
  | succ k ih =>
    by_cases hlt : n < 10
    · rw [decimal_of_lt hlt]
      exact Nat.succ_le_succ (Nat.zero_le k)
    · have hdiv : n / 10 < 10 ^ k := Nat.div_lt_of_lt_mul (by rwa [Nat.pow_succ'] at h)
      have hk' : k ≠ 0 := by
        rintro rfl
        exact hlt h
      rw [decimal_of_le (Nat.le_of_not_lt hlt), List.length_append]
      exact Nat.succ_le_succ (ih hk' hdiv)

theorem valueFrom_cons (v : ℕ) (c : UInt8) (t : List UInt8) :
    valueFrom v (c :: t) = valueFrom (v * 10 + (c.toNat - 48)) t := by
  rw [valueFrom, List.foldl_cons, valueFrom]

theorem valueFrom_append (v : ℕ) (t t' : List UInt8) :
    valueFrom v (t ++ t') = valueFrom (valueFrom v t) t' := List.foldl_append

/-- More digits never make a value less. -/
theorem le_valueFrom (v : ℕ) (t : List UInt8) : v ≤ valueFrom v t := by
  induction t generalizing v with
  | nil => exact Nat.le_refl v
  | cons c t ih =>
    have := ih (v * 10 + (c.toNat - 48))
    rw [valueFrom_cons]
    omega

/-- **The text of `n` has the value `n`.** -/
theorem valueFrom_decimal (n : ℕ) : valueFrom 0 (decimal n) = n := by
  induction n using Nat.strong_induction_on with
  | _ n ih =>
    have last (v d : ℕ) (hd : d < 10) : valueFrom v [decDigit d] = v * 10 + d := by
      rw [valueFrom_cons, toNat_decDigit hd]
      show v * 10 + (48 + d - 48) = v * 10 + d
      omega
    by_cases h : n < 10
    · rw [decimal_of_lt h, last 0 n h]
      omega
    · rw [decimal_of_le (Nat.le_of_not_lt h), valueFrom_append, ih (n / 10) (by omega),
        last _ _ (Nat.mod_lt n (by decide))]
      omega

theorem decimal_injective : Function.Injective decimal := fun n m h => by
  rw [← valueFrom_decimal n, h, valueFrom_decimal]

end LinuxDemo

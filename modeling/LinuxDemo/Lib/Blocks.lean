/-
LinuxDemo/Lib/Blocks.lean

Block absorption: a compression function `f` over blocks of `n` elements, fed
from a stream that arrives in pieces of any length.

`absorb f n s xs` feeds the complete blocks of `xs` to `f`, left to right, and
returns the chaining state with the elements that did not fill a block.  The
main fact is that the pieces do not matter:

    absorb f n s (xs ++ ys)
      = absorb f n (absorb f n s xs).1 ((absorb f n s xs).2 ++ ys).

The recursion is on the number of blocks, so that `absorb` computes.  The
block size is positive throughout.
-/
import Mathlib.Data.Nat.Init
import Mathlib.Data.List.Basic

namespace LinuxDemo

variable {σ α : Type*}

/-- Feed `k` blocks of `n` elements to `f` and keep what is left. -/
def absorbN (f : σ → List α → σ) (n : ℕ) : ℕ → σ → List α → σ × List α
  | 0, s, xs => (s, xs)
  | k + 1, s, xs => absorbN f n k (f s (xs.take n)) (xs.drop n)

/-- Feed every complete block of `xs` to `f`. -/
def absorb (f : σ → List α → σ) (n : ℕ) (s : σ) (xs : List α) : σ × List α :=
  absorbN f n (xs.length / n) s xs

variable {f : σ → List α → σ} {n : ℕ}

/-- A stream shorter than a block is kept whole. -/
theorem absorb_short (s : σ) {xs : List α} (h : xs.length < n) :
    absorb f n s xs = (s, xs) := by
  simp [absorb, Nat.div_eq_of_lt h, absorbN]

/-- One complete block can be split off the front. -/
theorem absorb_step (hn : 0 < n) (s : σ) {xs : List α} (h : n ≤ xs.length) :
    absorb f n s xs = absorb f n (f s (xs.take n)) (xs.drop n) := by
  have hdiv : xs.length / n = (xs.length - n) / n + 1 := Nat.div_eq_sub_div hn h
  simp only [absorb, hdiv, absorbN, List.length_drop]

/-- **Pieces do not matter**: absorbing a stream is absorbing its first piece
and then what that piece left over, followed by the second. -/
theorem absorb_append (hn : 0 < n) (s : σ) (xs ys : List α) :
    absorb f n s (xs ++ ys)
      = absorb f n (absorb f n s xs).1 ((absorb f n s xs).2 ++ ys) := by
  induction hk : xs.length using Nat.strong_induction_on generalizing s xs with
  | _ k ih =>
    by_cases h : n ≤ xs.length
    · have happ : n ≤ (xs ++ ys).length := by
        rw [List.length_append]; omega
      have hlt : (xs.drop n).length < k := by
        rw [List.length_drop]; omega
      rw [absorb_step hn s happ, List.take_append_of_le_length h,
        List.drop_append_of_le_length h, absorb_step hn s h]
      exact ih _ hlt _ _ rfl
    · rw [absorb_short s (by omega : xs.length < n)]

/-- The elements kept back do not fill a block. -/
theorem absorb_rest_length (hn : 0 < n) (s : σ) (xs : List α) :
    (absorb f n s xs).2.length = xs.length % n := by
  induction hk : xs.length using Nat.strong_induction_on generalizing s xs with
  | _ k ih =>
    by_cases h : n ≤ xs.length
    · have hlen : (xs.drop n).length = k - n := by rw [List.length_drop, hk]
      rw [absorb_step hn s h, ih (k - n) (by omega) _ _ hlen,
        ← Nat.mod_eq_sub_mod (by omega)]
    · rw [absorb_short s (by omega : xs.length < n), ← hk,
        Nat.mod_eq_of_lt (by omega)]

/-- Exactly one block is one call of `f`, with nothing kept back. -/
theorem absorb_block (hn : 0 < n) (s : σ) {xs : List α} (h : xs.length = n) :
    absorb f n s xs = (f s xs, []) := by
  have hle : xs.length ≤ n := Nat.le_of_eq h
  rw [absorb_step hn s (Nat.le_of_eq h.symm), List.take_of_length_le hle,
    List.drop_eq_nil_of_le hle, absorb_short _ (by simpa using hn)]

/-- A full block in front of a stream is one call of `f`. -/
theorem absorb_block_append (hn : 0 < n) (s : σ) {xs : List α} (ys : List α)
    (h : xs.length = n) :
    absorb f n s (xs ++ ys) = absorb f n (f s xs) ys := by
  rw [absorb_append hn, absorb_block hn s h, List.nil_append]

end LinuxDemo

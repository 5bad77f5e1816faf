/-
LinuxDemo/Lib/Marks.lean

Where a position is among marks.

The marks on the natural numbers are given by a predicate.  A position `i` has a
number of marks up to it, and a last one (`marks`, `lastMark`; 0 if there is
none).  Both change at a mark only (`marks_of_mark`, `marks_of_not`), and going on
from `i` the number of marks grows unless the last one is the same
(`marks_lt_or_lastMark_eq`), so the number and the distance tell where it is.
-/
import Mathlib.Data.Nat.Count
import Mathlib.Data.Nat.Find

namespace LinuxDemo.Marks

variable (P : ℕ → Prop) [DecidablePred P]

/-- The number of marks up to `i`. -/
def marks (i : ℕ) : ℕ := Nat.count P (i + 1)

/-- The last mark up to `i`. -/
def lastMark (i : ℕ) : ℕ := Nat.findGreatest P i

variable {P} {i j : ℕ}

theorem marks_of_mark (h : P (i + 1)) : marks P (i + 1) = marks P i + 1 := by
  rw [marks, marks, Nat.count_succ, if_pos h]

theorem marks_of_not (h : ¬ P (i + 1)) : marks P (i + 1) = marks P i := by
  rw [marks, marks, Nat.count_succ, if_neg h, Nat.add_zero]

theorem lastMark_of_mark (h : P (i + 1)) : lastMark P (i + 1) = i + 1 := Nat.findGreatest_eq h

theorem lastMark_of_not (h : ¬ P (i + 1)) : lastMark P (i + 1) = lastMark P i :=
  Nat.findGreatest_of_not h

theorem lastMark_le (i : ℕ) : lastMark P i ≤ i := Nat.findGreatest_le i

theorem marks_le (h0 : ¬ P 0) (i : ℕ) : marks P i ≤ i := by
  induction i with
  | zero =>
    rw [marks, Nat.count_one, if_neg h0]
  | succ i ih =>
    rw [marks, Nat.count_succ]
    split
    · exact Nat.succ_le_succ ih
    · exact Nat.le_succ_of_le ih

theorem marks_mono (h : i ≤ j) : marks P i ≤ marks P j :=
  Nat.count_monotone P (Nat.succ_le_succ h)

/-- **Further on** there are more marks, or the last one is the same. -/
theorem marks_lt_or_lastMark_eq (h : i ≤ j) :
    marks P i < marks P j ∨ marks P i = marks P j ∧ lastMark P i = lastMark P j := by
  induction j, h using Nat.le_induction with
  | base => exact .inr ⟨rfl, rfl⟩
  | succ j hij ih =>
    by_cases hmark : P (j + 1)
    · apply Or.inl
      rw [marks_of_mark hmark]
      exact Nat.lt_succ_of_le (marks_mono hij)
    · rw [marks_of_not hmark, lastMark_of_not hmark]
      exact ih

end LinuxDemo.Marks

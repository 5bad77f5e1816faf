/-
LinuxDemo/Lib/Compact.lean

Filtering a block in place with two indices: the read index `i` runs over the
block, and what is not skipped is written at the index `j` behind it.

The invariant is that nothing at or after `i` has been written yet (`j ≤ i`),
so what is still to be read is what the block held at the start.  The result
is a list filter in the first `j` places; what follows them is left over.
-/
import Mathlib.Data.List.Basic

namespace LinuxDemo

variable {α : Type*} [Inhabited α]

/-- The loop with `n` rounds to go: the block and the final `j`. -/
def compact (skip : α → Bool) : ℕ → ℕ → ℕ → List α → List α × ℕ
  | 0, _, j, buf => (buf, j)
  | n + 1, i, j, buf =>
      let c := buf.getD i default
      if skip c then compact skip n (i + 1) j buf
      else compact skip n (i + 1) (j + 1) (buf.set j c)

/-- What is not skipped. -/
def unskipped (skip : α → Bool) (bs : List α) : List α := bs.filter fun c => !skip c

omit [Inhabited α] in
theorem unskipped_cons_of_skip {skip : α → Bool} {c : α} (bs : List α) (h : skip c) :
    unskipped skip (c :: bs) = unskipped skip bs := by
  simp [unskipped, h]

omit [Inhabited α] in
theorem unskipped_cons_of_not {skip : α → Bool} {c : α} (bs : List α) (h : ¬ skip c) :
    unskipped skip (c :: bs) = c :: unskipped skip bs := by
  simp [unskipped, h]

/-- **The loop filters.**  From `i` on it appends what is not skipped to the
first `j` places. -/
theorem compact_spec (skip : α → Bool) (n i j : ℕ) (buf : List α) (hj : j ≤ i)
    (hn : i + n = buf.length) :
    (compact skip n i j buf).2 = j + (unskipped skip (buf.drop i)).length ∧
      (compact skip n i j buf).1.take (j + (unskipped skip (buf.drop i)).length) =
        buf.take j ++ unskipped skip (buf.drop i) ∧
      (compact skip n i j buf).1.length = buf.length := by
  induction n generalizing i j buf with
  | zero =>
    have hnil : unskipped skip (buf.drop i) = [] := by
      rw [List.drop_eq_nil_of_le (by omega)]
      rfl
    rw [hnil, List.append_nil]
    exact ⟨rfl, rfl, rfl⟩
  | succ n ih =>
    have hi : i < buf.length := by omega
    have hget : buf.getD i default = buf[i] := by
      rw [List.getD_eq_getElem?_getD, List.getElem?_eq_getElem hi, Option.getD_some]
    rw [List.drop_eq_getElem_cons hi, compact, hget]
    by_cases hskip : skip buf[i]
    · simp only [hskip, if_true, unskipped_cons_of_skip]
      exact ih (i + 1) j buf (by omega) (by omega)
    · -- the write at `j` does not touch what is still to be read
      have hrest : (buf.set j buf[i]).drop (i + 1) = buf.drop (i + 1) :=
        List.drop_set_of_lt (by omega)
      have hfirst : (buf.set j buf[i]).take (j + 1) = buf.take j ++ [buf[i]] := by
        rw [List.take_add_one, List.take_set_of_le (Nat.le_refl j),
          List.getElem?_set_self (by omega)]
        rfl
      obtain ⟨hlast, htake, hlen⟩ := ih (i + 1) (j + 1) (buf.set j buf[i]) (by omega)
        (by rw [List.length_set]; omega)
      have hcount : j + (unskipped skip (buf.drop (i + 1))).length.succ =
          j + 1 + (unskipped skip (buf.drop (i + 1))).length := by omega
      rw [hrest] at hlast
      rw [hrest, hfirst] at htake
      rw [List.length_set] at hlen
      rw [if_neg hskip, unskipped_cons_of_not _ hskip, List.length_cons]
      refine ⟨hlast.trans hcount.symm, ?_, hlen⟩
      rw [← Nat.succ_eq_add_one, hcount, htake, List.append_assoc]
      rfl

/-! ### What the loop reads and writes -/

/-- An access to one place of the block. -/
inductive Access where
  | read (i : ℕ)
  | write (j : ℕ)
  deriving DecidableEq

def Access.index : Access → ℕ
  | .read i => i
  | .write j => j

/-- The second access reads what the first one wrote. -/
def Access.Overwrites : Access → Access → Prop
  | .write j, .read i => i = j
  | _, _ => False

/-- No place is read after it was written. -/
def ReadsFirst (log : List Access) : Prop := log.Pairwise fun a b => ¬ a.Overwrites b

/-- The loop together with its accesses, in their order. -/
def compactLog (skip : α → Bool) : ℕ → ℕ → ℕ → List α → (List α × ℕ) × List Access
  | 0, _, j, buf => ((buf, j), [])
  | n + 1, i, j, buf =>
      let c := buf.getD i default
      if skip c then
        let (r, log) := compactLog skip n (i + 1) j buf
        (r, .read i :: log)
      else
        let (r, log) := compactLog skip n (i + 1) (j + 1) (buf.set j c)
        (r, .read i :: .write j :: log)

/-- The log does not change what the loop does. -/
theorem compactLog_fst (skip : α → Bool) (n i j : ℕ) (buf : List α) :
    (compactLog skip n i j buf).1 = compact skip n i j buf := by
  induction n generalizing i j buf with
  | zero => rfl
  | succ n ih =>
    simp only [compactLog, compact]
    split
    · exact ih (i + 1) j buf
    · exact ih (i + 1) (j + 1) _

/-- From `i` on the loop reads at `i` and behind it, and stays before its end. -/
theorem compactLog_index (skip : α → Bool) (n i j : ℕ) (buf : List α) (hj : j ≤ i) :
    ∀ a ∈ (compactLog skip n i j buf).2, a.index < i + n ∧ ∀ p, a = .read p → i ≤ p := by
  induction n generalizing i j buf with
  | zero => exact fun a ha => absurd ha List.not_mem_nil
  | succ n ih =>
    have hread : ∀ p, Access.read i = .read p → i ≤ p := by
      intro p hp
      cases hp
      exact Nat.le_refl i
    -- what the later rounds do
    have hlater : ∀ j buf, j ≤ i + 1 → ∀ a ∈ (compactLog skip n (i + 1) j buf).2,
        a.index < i + (n + 1) ∧ ∀ p, a = .read p → i ≤ p := by
      intro j buf hj a ha
      obtain ⟨hlt, hfrom⟩ := ih (i + 1) j buf hj a ha
      refine ⟨by omega, ?_⟩
      intro p hp
      exact Nat.le_of_succ_le (hfrom p hp)
    intro a ha
    simp only [compactLog] at ha
    split at ha
    · rcases List.mem_cons.mp ha with rfl | ha
      · exact ⟨by rw [Access.index]; omega, hread⟩
      · exact hlater _ _ (by omega) a ha
    · rcases List.mem_cons.mp ha with rfl | ha
      · exact ⟨by rw [Access.index]; omega, hread⟩
      · rcases List.mem_cons.mp ha with rfl | ha
        · exact ⟨by rw [Access.index]; omega, nofun⟩
        · exact hlater _ _ (by omega) a ha

/-- **No place is read after it was written**: the writes are behind the reads. -/
theorem compactLog_readsFirst (skip : α → Bool) (n i j : ℕ) (buf : List α) (hj : j ≤ i) :
    ReadsFirst (compactLog skip n i j buf).2 := by
  induction n generalizing i j buf with
  | zero => exact List.Pairwise.nil
  | succ n ih =>
    simp only [compactLog]
    split
    · exact List.pairwise_cons.mpr ⟨fun a _ h => h, ih (i + 1) j buf (by omega)⟩
    · refine List.pairwise_cons.mpr ⟨fun a _ h => h, ?_⟩
      refine List.pairwise_cons.mpr ⟨?_, ih (i + 1) (j + 1) _ (by omega)⟩
      -- the reads that follow are behind `i`
      rintro a ha hover
      cases a with
      | read p =>
        have hpj : p = j := hover
        have hp := (compactLog_index skip n (i + 1) (j + 1) _ (by omega) _ ha).2 p rfl
        omega
      | write p => exact hover

end LinuxDemo

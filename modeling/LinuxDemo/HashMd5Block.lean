/-
LinuxDemo/HashMd5Block.lean

`md5_block` processes a block as RFC 1321 does.

The code rewrites the auxiliary functions (`F` and `G` with one operation
less) and adds the terms of a step in another order; `macroR_eq` says that each
macro is nevertheless the `op` of its round.  A round of the code is then the
same sixteen assignments as the fold of the reference, register order included,
and `md5Block_64` is the block.
-/
import LinuxDemo.HashMd5

namespace LinuxDemo

open Rfc1321 (rotl op round process)

/-! ### Auxiliary functions and macros -/

theorem F_eq (b c d : UInt32) : F b c d = Rfc1321.F b c d := by
  rw [← UInt32.toBitVec_inj]
  apply BitVec.eq_of_getLsbD_eq
  intro i hi
  simp only [F, Rfc1321.F, UInt32.toBitVec_xor, UInt32.toBitVec_and, UInt32.toBitVec_or,
    UInt32.toBitVec_not, BitVec.getLsbD_xor, BitVec.getLsbD_and, BitVec.getLsbD_or,
    BitVec.getLsbD_not, hi, decide_true]
  grind

theorem G_eq (b c d : UInt32) : G b c d = Rfc1321.G b c d := by
  rw [← UInt32.toBitVec_inj]
  apply BitVec.eq_of_getLsbD_eq
  intro i hi
  simp only [G, Rfc1321.G, UInt32.toBitVec_xor, UInt32.toBitVec_and, UInt32.toBitVec_or,
    UInt32.toBitVec_not, BitVec.getLsbD_xor, BitVec.getLsbD_and, BitVec.getLsbD_or,
    BitVec.getLsbD_not, hi, decide_true]
  grind

theorem H_eq (b c d : UInt32) : H b c d = Rfc1321.H b c d := rfl

theorem I_eq (b c d : UInt32) : I b c d = Rfc1321.I b c d := by
  rw [I, Rfc1321.I, UInt32.xor_comm, UInt32.or_comm]

/-- `ROTATE` is the circular shift for the shift amounts of the rounds. -/
theorem ROTATE_eq (a : UInt32) {n : UInt32} (h0 : 0 < n.toNat) (h : n.toNat < 32) :
    ROTATE a n = rotl a n.toNat := by
  have hn : n.toBitVec.toNat = n.toNat := rfl
  have hl : (n.toBitVec % 32#32).toNat = n.toNat := by
    rw [BitVec.toNat_umod, hn]
    exact Nat.mod_eq_of_lt h
  have hr : ((32#32 - n.toBitVec) % 32#32).toNat = 32 - n.toNat := by
    rw [BitVec.toNat_umod, BitVec.toNat_sub, hn]
    show (2 ^ 32 - n.toNat + 32) % 2 ^ 32 % 32 = 32 - n.toNat
    omega
  have hmask : a &&& 0xffffffff = a := by
    rw [← UInt32.toBitVec_inj]
    exact BitVec.and_allOnes
  rw [← UInt32.toBitVec_inj, ROTATE, hmask, rotl, BitVec.rotateLeft_def, Nat.mod_eq_of_lt h,
    UInt32.toBitVec_or, UInt32.toBitVec_shiftLeft, UInt32.toBitVec_shiftRight,
    UInt32.toBitVec_sub]
  -- the shifts of `UInt32` are modulo 32
  show a.toBitVec <<< (n.toBitVec % 32#32).toNat |||
    a.toBitVec >>> ((32#32 - n.toBitVec) % 32#32).toNat = _
  rw [hl, hr]

/-- A macro over a code function is the step over the reference function it
equals: the terms are added in another order, and rotated by the same amount. -/
theorem macroR_eq {f g : UInt32 → UInt32 → UInt32 → UInt32} (hfg : ∀ b c d, f b c d = g b c d)
    (k n t : UInt32) (h0 : 0 < n.toNat) (h : n.toNat < 32) :
    macroR f k n t = op g k n.toNat t := by
  funext a b c d
  have hsum : a + (k + t + f b c d) = a + g b c d + k + t := by
    rw [hfg, UInt32.add_comm (k + t), ← UInt32.add_assoc, ← UInt32.add_assoc]
  show ROTATE (a + (k + t + f b c d)) n + b = b + rotl (a + g b c d + k + t) n.toNat
  rw [hsum, ROTATE_eq _ h0 h, UInt32.add_comm]

/-! ### The rounds

With each macro read as its `op`, the sixteen statements of a round are the
sixteen assignments that the reference folds over. -/

theorem md5Round0_eq (X : ℕ → UInt32) (r : Regs) : md5Round0 X r = Rfc1321.round1 X r := by
  simp (disch := decide) only [md5Round0, R0, macroR_eq F_eq]
  rfl

theorem md5Round1_eq (X : ℕ → UInt32) (r : Regs) : md5Round1 X r = Rfc1321.round2 X r := by
  simp (disch := decide) only [md5Round1, R1, macroR_eq G_eq]
  rfl

theorem md5Round2_eq (X : ℕ → UInt32) (r : Regs) : md5Round2 X r = Rfc1321.round3 X r := by
  simp (disch := decide) only [md5Round2, R2, macroR_eq H_eq]
  rfl

theorem md5Round3_eq (X : ℕ → UInt32) (r : Regs) : md5Round3 X r = Rfc1321.round4 X r := by
  simp (disch := decide) only [md5Round3, R3, macroR_eq I_eq]
  rfl

/-! ### One block -/

/-- **`md5_block` on 64 bytes is the processing of one block** of RFC 1321. -/
theorem md5Block_64 (c : Md5Ctx) (X : ℕ → UInt32) :
    md5Block c X 64 = { c with regs := process c.regs X } := by
  rw [md5Block, if_neg (by decide), md5Block, if_pos (by decide)]
  simp only [md5Round0_eq, md5Round1_eq, md5Round2_eq, md5Round3_eq]
  rfl

end LinuxDemo

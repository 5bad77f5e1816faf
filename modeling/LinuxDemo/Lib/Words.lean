/-
LinuxDemo/Lib/Words.lean

Byte strings as sequences of 32-bit words, low-order byte first.

`leWord` reads up to four bytes (missing bytes are zero), `leBytes` writes a
word, and `wordAt bs k` is the word at bytes `4k .. 4k+3` of `bs`.  The two
directions are inverse on whole words (`leWord_leBytes`).
-/
import Mathlib.Data.List.Basic
import Mathlib.Algebra.Order.Ring.Int

namespace LinuxDemo

/-- The word whose bytes, low-order first, are the first four of `bs`. -/
def leWord (bs : List UInt8) : UInt32 :=
  (bs.getD 0 0).toUInt32 ||| (bs.getD 1 0).toUInt32 <<< 8 |||
    (bs.getD 2 0).toUInt32 <<< 16 ||| (bs.getD 3 0).toUInt32 <<< 24

/-- The four bytes of a word, low-order first. -/
def leBytes (w : UInt32) : List UInt8 :=
  [w.toUInt8, (w >>> 8).toUInt8, (w >>> 16).toUInt8, (w >>> 24).toUInt8]

/-- The `k`-th word of a byte string. -/
def wordAt (bs : List UInt8) (k : ℕ) : UInt32 := leWord ((bs.drop (4 * k)).take 4)

@[simp] theorem leBytes_length (w : UInt32) : (leBytes w).length = 4 := rfl

/-- The four bytes of a 32-bit vector, shifted back to their places. -/
theorem bytes_or (x : BitVec 32) :
    (x.setWidth 8).setWidth 32 ||| ((x >>> 8).setWidth 8).setWidth 32 <<< 8 |||
      ((x >>> 16).setWidth 8).setWidth 32 <<< 16 |||
      ((x >>> 24).setWidth 8).setWidth 32 <<< 24 = x := by
  apply BitVec.eq_of_getLsbD_eq
  intro i hi
  simp only [BitVec.getLsbD_or, BitVec.getLsbD_shiftLeft, BitVec.getLsbD_setWidth,
    BitVec.getLsbD_ushiftRight, hi, decide_true, Bool.true_and]
  grind

/-- Reading back the bytes of a word gives the word. -/
theorem leWord_leBytes (w : UInt32) : leWord (leBytes w) = w :=
  UInt32.toBitVec_inj.mp (bytes_or w.toBitVec)

/-- The bytes of a word that is a single byte. -/
theorem leBytes_of_lt {n : ℕ} (h : n < 2 ^ 8) :
    leBytes (UInt32.ofNat n) = [UInt8.ofNat n, 0, 0, 0] := by
  have hn : (UInt32.ofNat n).toNat = n := UInt32.toNat_ofNat_of_lt' (Nat.lt_trans h (by decide))
  have hshift : ∀ k : UInt32, 8 ≤ k.toNat % 32 → (UInt32.ofNat n >>> k).toUInt8 = 0 := by
    intro k hk
    apply UInt8.toNat.inj
    have hle : 2 ^ 8 ≤ 2 ^ (k.toNat % 32) := Nat.pow_le_pow_right (by decide) hk
    rw [UInt32.toNat_toUInt8, UInt32.toNat_shiftRight, hn, Nat.shiftRight_eq_div_pow,
      Nat.div_eq_of_lt (by omega)]
    rfl
  have hlow : (UInt32.ofNat n).toUInt8 = UInt8.ofNat n := by
    apply UInt8.toNat.inj
    rw [UInt32.toNat_toUInt8, hn, UInt8.toNat_ofNat']
  rw [leBytes, hlow, hshift 8 (by decide), hshift 16 (by decide), hshift 24 (by decide)]

/-- A word inside the first of two byte strings. -/
theorem wordAt_append_left {xs : List UInt8} (ys : List UInt8) {k : ℕ}
    (h : 4 * k + 4 ≤ xs.length) : wordAt (xs ++ ys) k = wordAt xs k := by
  rw [wordAt, wordAt, List.drop_append_of_le_length (by omega),
    List.take_append_of_le_length (by rw [List.length_drop]; omega)]

end LinuxDemo

/-
LinuxDemo/Lib/CInt.lean

The conversions of C between integer types of 32 bits.  A value is kept as a
mathematical integer; `int32` and `uint32` give the representative that the
conversion to `int` and to `unsigned int` leaves.  A `char` is the byte in its
memory.
-/
import Mathlib.Algebra.Order.Ring.Int

namespace LinuxDemo

/-- `(int)x`: two's complement, 32 bits. -/
def int32 (x : ℤ) : ℤ := x.bmod (2 ^ 32)

/-- `(unsigned)x`, 32 bits. -/
def uint32 (x : ℤ) : ℤ := x % 2 ^ 32

/-- A value in the range of `int` is unchanged. -/
theorem int32_eq {x : ℤ} (hlo : -2 ^ 31 ≤ x) (hhi : x < 2 ^ 31) : int32 x = x := by
  unfold int32
  exact Int.bmod_eq_of_le (by simpa using hlo) (by simpa using hhi)

/-- From 2^31 on the conversion to `int` is negative. -/
theorem int32_neg {x : ℤ} (hlo : 2 ^ 31 ≤ x) (hhi : x < 2 ^ 32) : int32 x < 0 := by
  unfold int32
  rw [Int.bmod_def]
  omega

/-- Once around. -/
theorem int32_wrap {x : ℤ} (hlo : 2 ^ 31 ≤ x) (hhi : x < 2 ^ 31 + 2 ^ 32) :
    int32 x = x - 2 ^ 32 := by
  unfold int32
  rw [Int.bmod_def]
  omega

theorem le_int32 (x : ℤ) : -2 ^ 31 ≤ int32 x := by
  have hle : -((2 ^ 32 : ℕ) / 2 : ℤ) ≤ int32 x := Int.le_bmod (by decide)
  omega

theorem int32_lt (x : ℤ) : int32 x < 2 ^ 31 := by
  have hlt : int32 x < ((2 ^ 32 : ℕ) + 1) / 2 := Int.bmod_lt (by decide)
  omega

/-- The conversion to `int` never adds to a value that is not negative. -/
theorem int32_le {x : ℤ} (h : 0 ≤ x) : int32 x ≤ x := by
  unfold int32
  rw [Int.bmod_def]
  split <;> omega

/-- `c & 0xff` of a `char` with a sign. -/
def charByte (c : UInt8) : UInt8 := UInt8.ofNat (c.toInt8.toInt % 2 ^ 8).toNat

/-- The sign is gone. -/
theorem charByte_eq (c : UInt8) : charByte c = c := by
  have hmod : c.toInt8.toInt % 2 ^ 8 = (c.toNat : ℤ) := by
    have hbmod : c.toInt8.toInt = (c.toNat : ℤ).bmod (2 ^ 8) := BitVec.toInt_eq_toNat_bmod _
    have hlt := c.toNat_lt
    rw [hbmod, Int.bmod_def]
    omega
  rw [charByte, hmod, Int.toNat_natCast, UInt8.ofNat_toNat]

end LinuxDemo

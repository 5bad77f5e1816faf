/-
LinuxDemo/Rfc1321.lean

The MD5 message digest as RFC 1321 defines it: padding (3.1, 3.2), the buffer
(3.3), the four rounds over each 16-word block (3.4) and the output (3.5).
This is the reference that the code of `hashmd5.cpp` is compared with; nothing
here is taken from that file.

The text writes a step of a round as `[ABCD k s i]`, for the assignment

    a = b + ((a + F(b,c,d) + X[k] + T[i]) <<< s)

with the registers in the order named.  `op` is the right-hand side and
`Regs.assign` the assignment; a round is a fold over its sixteen steps, whose
register order, word index and shift follow the tables of 3.4.
-/
import LinuxDemo.Lib.Blocks
import LinuxDemo.Lib.Words

namespace LinuxDemo

/-- The four-word buffer `A, B, C, D`. -/
structure Regs where
  A : UInt32
  B : UInt32
  C : UInt32
  D : UInt32
deriving DecidableEq, Repr

/-- Right-hand side of an assignment, from the registers in the order named. -/
abbrev Rhs := UInt32 → UInt32 → UInt32 → UInt32 → UInt32

def Regs.abcd (m : Rhs) (r : Regs) : Regs := { r with A := m r.A r.B r.C r.D }
def Regs.dabc (m : Rhs) (r : Regs) : Regs := { r with D := m r.D r.A r.B r.C }
def Regs.cdab (m : Rhs) (r : Regs) : Regs := { r with C := m r.C r.D r.A r.B }
def Regs.bcda (m : Rhs) (r : Regs) : Regs := { r with B := m r.B r.C r.D r.A }

/-- The register orders of a round in turn: `ABCD`, `DABC`, `CDAB`, `BCDA`. -/
def Regs.assign : ℕ → Rhs → Regs → Regs
  | 0 => Regs.abcd
  | 1 => Regs.dabc
  | 2 => Regs.cdab
  | _ => Regs.bcda

instance : Add Regs := ⟨fun r s => ⟨r.A + s.A, r.B + s.B, r.C + s.C, r.D + s.D⟩⟩

namespace Rfc1321

/-! ### Section 3.4: the auxiliary functions and the table -/

/-- `X <<< s` of section 2: circular left shift. -/
def rotl (x : UInt32) (s : ℕ) : UInt32 := ⟨x.toBitVec.rotateLeft s⟩

def F (x y z : UInt32) : UInt32 := (x &&& y) ||| (~~~x &&& z)
def G (x y z : UInt32) : UInt32 := (x &&& z) ||| (y &&& ~~~z)
def H (x y z : UInt32) : UInt32 := x ^^^ y ^^^ z
def I (x y z : UInt32) : UInt32 := y ^^^ (x ||| ~~~z)

/-- `T[1 .. 64]`: the integer parts of `4294967296 * abs(sin(i))`. -/
def T : List UInt32 := [
  0xd76aa478, 0xe8c7b756, 0x242070db, 0xc1bdceee,
  0xf57c0faf, 0x4787c62a, 0xa8304613, 0xfd469501,
  0x698098d8, 0x8b44f7af, 0xffff5bb1, 0x895cd7be,
  0x6b901122, 0xfd987193, 0xa679438e, 0x49b40821,
  0xf61e2562, 0xc040b340, 0x265e5a51, 0xe9b6c7aa,
  0xd62f105d, 0x02441453, 0xd8a1e681, 0xe7d3fbc8,
  0x21e1cde6, 0xc33707d6, 0xf4d50d87, 0x455a14ed,
  0xa9e3e905, 0xfcefa3f8, 0x676f02d9, 0x8d2a4c8a,
  0xfffa3942, 0x8771f681, 0x6d9d6122, 0xfde5380c,
  0xa4beea44, 0x4bdecfa9, 0xf6bb4b60, 0xbebfbc70,
  0x289b7ec6, 0xeaa127fa, 0xd4ef3085, 0x04881d05,
  0xd9d4d039, 0xe6db99e5, 0x1fa27cf8, 0xc4ac5665,
  0xf4292244, 0x432aff97, 0xab9423a7, 0xfc93a039,
  0x655b59c3, 0x8f0ccc92, 0xffeff47d, 0x85845dd1,
  0x6fa87e4f, 0xfe2ce6e0, 0xa3014314, 0x4e0811a1,
  0xf7537e82, 0xbd3af235, 0x2ad7d2bb, 0xeb86d391]

/-! ### Section 3.4: the rounds -/

/-- Right-hand side of `[ABCD k s i]`, with `x = X[k]` and `t = T[i]`. -/
def op (f : UInt32 → UInt32 → UInt32 → UInt32) (x : UInt32) (s : ℕ) (t : UInt32) : Rhs :=
  fun a b c d => b + rotl (a + f b c d + x + t) s

/-- The sixteen steps of round `r`: step `j` uses word `k j`, the shift listed
at `j mod 4` and the table entry `T[16 r + j + 1]`. -/
def round (f : UInt32 → UInt32 → UInt32 → UInt32) (k : ℕ → ℕ) (shifts : List ℕ) (r : ℕ)
    (X : ℕ → UInt32) (regs : Regs) : Regs :=
  (List.range 16).foldl (fun regs j =>
    regs.assign (j % 4) (op f (X (k j)) (shifts.getD (j % 4) 0) (T.getD (16 * r + j) 0))) regs

def round1 := round F (fun j => j) [7, 12, 17, 22] 0
def round2 := round G (fun j => (5 * j + 1) % 16) [5, 9, 14, 20] 1
def round3 := round H (fun j => (3 * j + 5) % 16) [4, 11, 16, 23] 2
def round4 := round I (fun j => 7 * j % 16) [6, 10, 15, 21] 3

/-- One 16-word block: the four rounds, then each register is incremented by
the value it had before the block. -/
def process (regs : Regs) (X : ℕ → UInt32) : Regs :=
  round4 X (round3 X (round2 X (round1 X regs))) + regs

/-! ### Sections 3.1 to 3.3 and 3.5 -/

/-- Number of zero bytes that bring the length after the `0x80` byte to 56
modulo 64. -/
def padZeros (n : ℕ) : ℕ := (119 - n % 64) % 64

/-- The message length in bits, as two words, low-order word first; only the
low-order 64 bits are used. -/
def lengthBytes (n : ℕ) : List UInt8 :=
  leBytes (UInt32.ofNat (8 * n)) ++ leBytes (UInt32.ofNat (8 * n / 2 ^ 32))

def padding (n : ℕ) : List UInt8 :=
  0x80 :: (List.replicate (padZeros n) 0 ++ lengthBytes n)

def initial : Regs := ⟨0x67452301, 0xefcdab89, 0x98badcfe, 0x10325476⟩

def output (regs : Regs) : List UInt8 :=
  leBytes regs.A ++ leBytes regs.B ++ leBytes regs.C ++ leBytes regs.D

/-- A block of 64 bytes is processed as its sixteen words. -/
def processBytes (regs : Regs) (block : List UInt8) : Regs := process regs (wordAt block)

/-- The MD5 digest of a byte string. -/
def md5 (msg : List UInt8) : List UInt8 :=
  output (absorb processBytes 64 initial (msg ++ padding msg.length)).1

/-- The test suite's `MD5 ("abc")`. -/
example : md5 [0x61, 0x62, 0x63] =
    [0x90, 0x01, 0x50, 0x98, 0x3c, 0xd2, 0x4f, 0xb0,
     0xd6, 0x96, 0x3f, 0x7d, 0x28, 0xe1, 0x7f, 0x72] := by
  decide +kernel

end Rfc1321

end LinuxDemo

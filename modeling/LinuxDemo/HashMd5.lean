/-
LinuxDemo/HashMd5.lean

The MD5 code of `lib/hashmd5.cpp` with the macros of `inc/hashmd5.h`, as it is
built when neither `L_ENDIAN` nor `B_ENDIAN` is defined.

Conventions.  A `uint8 *` is the list of the bytes from the pointer on, so
`*(c)++` is head and tail, and a pointer past the end reads zero (the code
never reads there; the streaming theorems do not use it).  `X` and `p` are
read with `rd` and written with `wr`.  The macro parameters that C updates in
place are returned.  `uint32` arithmetic is `UInt32`; the lengths and indices
`len`, `num`, `sw`, `sc`, `ew`, `ec` are natural numbers, with the wrap of
`c->num+len` written out.  The constants with suffix `L` make some sums 64 bits
wide; assigning them to a `uint32` keeps the low 32 bits, which is the sum here.

Fall-through cases of a `switch` are one definition per case, each ending in
the next.
-/
import LinuxDemo.Rfc1321

namespace LinuxDemo

/-! ### inc/hashmd5.h -/

/-- `MD5_CTX`. -/
structure Md5Ctx where
  regs : Regs
  Nl : UInt32
  Nh : UInt32
  data : Vector UInt32 16
  num : ℕ

/-- `p[i]` of the sixteen-word buffer. -/
def rd (p : Vector UInt32 16) (i : ℕ) : UInt32 := p[i]?.getD 0

/-- `p[i]=l` on the sixteen-word buffer. -/
def wr (p : Vector UInt32 16) (i : ℕ) (l : UInt32) : Vector UInt32 16 := p.setIfInBounds i l

/-- `(uint32)(*c)`. -/
def deref (c : List UInt8) : UInt32 := (c.getD 0 0).toUInt32

def c2l (c : List UInt8) : UInt32 × List UInt8 :=
  let l := deref c
  let l := l ||| deref (c.drop 1) <<< 8
  let l := l ||| deref (c.drop 2) <<< 16
  let l := l ||| deref (c.drop 3) <<< 24
  (l, c.drop 4)

def pC2lCase3 (c : List UInt8) (l : UInt32) : UInt32 × List UInt8 :=
  (l ||| deref c <<< 24, c.tail)
def pC2lCase2 (c : List UInt8) (l : UInt32) : UInt32 × List UInt8 :=
  pC2lCase3 c.tail (l ||| deref c <<< 16)
def pC2lCase1 (c : List UInt8) (l : UInt32) : UInt32 × List UInt8 :=
  pC2lCase2 c.tail (l ||| deref c <<< 8)
def pC2lCase0 (c : List UInt8) : UInt32 × List UInt8 :=
  pC2lCase1 c.tail (deref c)

/-- `p_c2l(c,l,n)`: complete the word `l`, which holds `n` bytes. -/
def pC2l (c : List UInt8) (l : UInt32) : ℕ → UInt32 × List UInt8
  | 0 => pC2lCase0 c
  | 1 => pC2lCase1 c l
  | 2 => pC2lCase2 c l
  | 3 => pC2lCase3 c l
  | _ => (l, c)

def pC2lPCase2 (c : List UInt8) (l : UInt32) : UInt32 × List UInt8 :=
  (l ||| deref c <<< 16, c.tail)
def pC2lPCase1 (c : List UInt8) (l : UInt32) (len : ℕ) : UInt32 × List UInt8 :=
  let l := l ||| deref c <<< 8
  if len - 1 = 0 then (l, c.tail) else pC2lPCase2 c.tail l
def pC2lPCase0 (c : List UInt8) (len : ℕ) : UInt32 × List UInt8 :=
  let l := deref c
  if len - 1 = 0 then (l, c.tail) else pC2lPCase1 c.tail l (len - 1)

/-- `p_c2l_p(c,l,sc,len)`: add `len` bytes to the word `l`, which holds `sc`. -/
def pC2lP (c : List UInt8) (l : UInt32) (sc len : ℕ) : UInt32 × List UInt8 :=
  match sc with
  | 0 => pC2lPCase0 c len
  | 1 => pC2lPCase1 c l len
  | 2 => pC2lPCase2 c l
  | _ => (l, c)

/-- `c2l_p(c,l,n)`: a word of the next `n` bytes.  The macro moves `c` on by
`n` and back again, so the pointer is not returned. -/
def c2lP (c : List UInt8) : ℕ → UInt32
  | 3 => deref (c.drop 2) <<< 16 ||| deref (c.drop 1) <<< 8 ||| deref c
  | 2 => (0 : UInt32) ||| deref (c.drop 1) <<< 8 ||| deref c
  | 1 => (0 : UInt32) ||| deref c
  | _ => 0

/-- `l2c(l,c)`: the four bytes stored. -/
def l2c (l : UInt32) : List UInt8 :=
  [(l &&& 0xff).toUInt8, ((l >>> 8) &&& 0xff).toUInt8,
    ((l >>> 16) &&& 0xff).toUInt8, ((l >>> 24) &&& 0xff).toUInt8]

def F (b c d : UInt32) : UInt32 := ((c ^^^ d) &&& b) ^^^ d
def G (b c d : UInt32) : UInt32 := ((b ^^^ c) &&& d) ^^^ c
def H (b c d : UInt32) : UInt32 := b ^^^ c ^^^ d
def I (b c d : UInt32) : UInt32 := (~~~d ||| b) ^^^ c

/-- `ROTATE(a,n)`, in its branch without `WIN32`. -/
def ROTATE (a n : UInt32) : UInt32 := (a <<< n) ||| ((a &&& 0xffffffff) >>> (32 - n))

/-- The common shape of `R0 .. R3`: the value that the macro leaves in `a`. -/
def macroR (f : UInt32 → UInt32 → UInt32 → UInt32) (k s t : UInt32) : Rhs :=
  fun a b c d =>
    let a := a + (k + t + f b c d)
    let a := ROTATE a s
    a + b

def R0 := macroR F
def R1 := macroR G
def R2 := macroR H
def R3 := macroR I

/-! ### md5_block -/

/-- `R0(A,B,C,D,X[ 0], 7,0xd76aa478L)` is written
`.abcd (R0 (X 0) 7 0xd76aa478)`, and so on. -/
def md5Round0 (X : ℕ → UInt32) (r : Regs) : Regs :=
  r |>.abcd (R0 (X 0) 7 0xd76aa478)
    |>.dabc (R0 (X 1) 12 0xe8c7b756)
    |>.cdab (R0 (X 2) 17 0x242070db)
    |>.bcda (R0 (X 3) 22 0xc1bdceee)
    |>.abcd (R0 (X 4) 7 0xf57c0faf)
    |>.dabc (R0 (X 5) 12 0x4787c62a)
    |>.cdab (R0 (X 6) 17 0xa8304613)
    |>.bcda (R0 (X 7) 22 0xfd469501)
    |>.abcd (R0 (X 8) 7 0x698098d8)
    |>.dabc (R0 (X 9) 12 0x8b44f7af)
    |>.cdab (R0 (X 10) 17 0xffff5bb1)
    |>.bcda (R0 (X 11) 22 0x895cd7be)
    |>.abcd (R0 (X 12) 7 0x6b901122)
    |>.dabc (R0 (X 13) 12 0xfd987193)
    |>.cdab (R0 (X 14) 17 0xa679438e)
    |>.bcda (R0 (X 15) 22 0x49b40821)

def md5Round1 (X : ℕ → UInt32) (r : Regs) : Regs :=
  r |>.abcd (R1 (X 1) 5 0xf61e2562)
    |>.dabc (R1 (X 6) 9 0xc040b340)
    |>.cdab (R1 (X 11) 14 0x265e5a51)
    |>.bcda (R1 (X 0) 20 0xe9b6c7aa)
    |>.abcd (R1 (X 5) 5 0xd62f105d)
    |>.dabc (R1 (X 10) 9 0x02441453)
    |>.cdab (R1 (X 15) 14 0xd8a1e681)
    |>.bcda (R1 (X 4) 20 0xe7d3fbc8)
    |>.abcd (R1 (X 9) 5 0x21e1cde6)
    |>.dabc (R1 (X 14) 9 0xc33707d6)
    |>.cdab (R1 (X 3) 14 0xf4d50d87)
    |>.bcda (R1 (X 8) 20 0x455a14ed)
    |>.abcd (R1 (X 13) 5 0xa9e3e905)
    |>.dabc (R1 (X 2) 9 0xfcefa3f8)
    |>.cdab (R1 (X 7) 14 0x676f02d9)
    |>.bcda (R1 (X 12) 20 0x8d2a4c8a)

def md5Round2 (X : ℕ → UInt32) (r : Regs) : Regs :=
  r |>.abcd (R2 (X 5) 4 0xfffa3942)
    |>.dabc (R2 (X 8) 11 0x8771f681)
    |>.cdab (R2 (X 11) 16 0x6d9d6122)
    |>.bcda (R2 (X 14) 23 0xfde5380c)
    |>.abcd (R2 (X 1) 4 0xa4beea44)
    |>.dabc (R2 (X 4) 11 0x4bdecfa9)
    |>.cdab (R2 (X 7) 16 0xf6bb4b60)
    |>.bcda (R2 (X 10) 23 0xbebfbc70)
    |>.abcd (R2 (X 13) 4 0x289b7ec6)
    |>.dabc (R2 (X 0) 11 0xeaa127fa)
    |>.cdab (R2 (X 3) 16 0xd4ef3085)
    |>.bcda (R2 (X 6) 23 0x04881d05)
    |>.abcd (R2 (X 9) 4 0xd9d4d039)
    |>.dabc (R2 (X 12) 11 0xe6db99e5)
    |>.cdab (R2 (X 15) 16 0x1fa27cf8)
    |>.bcda (R2 (X 2) 23 0xc4ac5665)

def md5Round3 (X : ℕ → UInt32) (r : Regs) : Regs :=
  r |>.abcd (R3 (X 0) 6 0xf4292244)
    |>.dabc (R3 (X 7) 10 0x432aff97)
    |>.cdab (R3 (X 14) 15 0xab9423a7)
    |>.bcda (R3 (X 5) 21 0xfc93a039)
    |>.abcd (R3 (X 12) 6 0x655b59c3)
    |>.dabc (R3 (X 3) 10 0x8f0ccc92)
    |>.cdab (R3 (X 10) 15 0xffeff47d)
    |>.bcda (R3 (X 1) 21 0x85845dd1)
    |>.abcd (R3 (X 8) 6 0x6fa87e4f)
    |>.dabc (R3 (X 15) 10 0xfe2ce6e0)
    |>.cdab (R3 (X 6) 15 0xa3014314)
    |>.bcda (R3 (X 13) 21 0x4e0811a1)
    |>.abcd (R3 (X 4) 6 0xf7537e82)
    |>.dabc (R3 (X 11) 10 0xbd3af235)
    |>.cdab (R3 (X 2) 15 0x2ad7d2bb)
    |>.bcda (R3 (X 9) 21 0xeb86d391)

/-- `md5_block(c,X,num)`: one turn of the loop per 64 bytes of `num`. -/
def md5Block (c : Md5Ctx) (X : ℕ → UInt32) (num : ℕ) : Md5Ctx :=
  if num < 64 then c
  else
    let r := md5Round3 X (md5Round2 X (md5Round1 X (md5Round0 X c.regs)))
    md5Block { c with regs := r + c.regs } (fun k => X (k + 16)) (num - 64)
termination_by num

/-! ### MD5_Init, MD5_Update, MD5_Final -/

def md5Init : Md5Ctx :=
  { regs := ⟨0x67452301, 0xefcdab89, 0x98badcfe, 0x10325476⟩
    Nl := 0, Nh := 0, data := Vector.replicate 16 0, num := 0 }

/-- `for (; sw<sw+n; sw++) { c2l(data,l); p[sw]=l; }`, `n` turns from `sw`. -/
def fillWords : ℕ → Vector UInt32 16 → List UInt8 → ℕ → Vector UInt32 16 × List UInt8
  | 0, p, data, _ => (p, data)
  | n + 1, p, data, sw =>
      let (l, data) := c2l data
      fillWords n (wr p sw l) data (sw + 1)

/-- `for (; i<i+n; i++) p[i]=0;`, `n` turns from `i`. -/
def zeroWords : ℕ → Vector UInt32 16 → ℕ → Vector UInt32 16
  | 0, p, _ => p
  | n + 1, p, i => zeroWords n (wr p i 0) (i + 1)

/-- The bit count at the head of `MD5_Update`. -/
def md5Count (c : Md5Ctx) (len : ℕ) : Md5Ctx :=
  let l := c.Nl + UInt32.ofNat len <<< 3
  let Nh := if l < c.Nl then c.Nh + 1 else c.Nh
  { c with Nl := l, Nh := Nh + UInt32.ofNat len >>> 29 }

/-- The end of `MD5_Update`: fewer than 64 bytes go to the buffer. -/
def md5Tail (c : Md5Ctx) (data : List UInt8) (len : ℕ) : Md5Ctx :=
  let c := { c with num := len }
  if len = 0 then c
  else
    let sw := len / 4
    let sc := len % 4
    let (p, data) := fillWords sw c.data data 0
    { c with data := wr p sw (c2lP data sc) }

/-- The block loop of `MD5_Update` and what follows it. -/
def md5Rest (c : Md5Ctx) (data : List UInt8) (len : ℕ) : Md5Ctx :=
  if len < 64 then md5Tail c data len
  else
    let (p, data) := fillWords (4 * (16 / 4)) c.data data 0
    md5Rest (md5Block { c with data := p } (rd p) 64) data (len - 64)
termination_by len

/-- `c->num != 0` and the data fills the block. -/
def md5Complete (c : Md5Ctx) (data : List UInt8) (len : ℕ) : Md5Ctx :=
  let sw := c.num / 4
  let sc := c.num % 4
  let (l, data) := pC2l data (rd c.data sw) sc
  let (p, data) := fillWords (16 - (sw + 1)) (wr c.data sw l) data (sw + 1)
  let len := len - (64 - c.num)
  let c := md5Block { c with data := p } (rd p) 64
  md5Rest { c with num := 0 } data len

/-- `c->num != 0` and the data stays inside the block. -/
def md5Stay (c : Md5Ctx) (data : List UInt8) (len : ℕ) : Md5Ctx :=
  let sw := c.num / 4
  let sc := c.num % 4
  let c := { c with num := (c.num + len) % 2 ^ 32 }
  if (sc + len) % 2 ^ 32 < 4 then
    { c with data := wr c.data sw (pC2lP data (rd c.data sw) sc len).1 }
  else
    let ew := c.num / 4
    let ec := c.num % 4
    let (l, data) := pC2l data (rd c.data sw) sc
    let (p, data) := fillWords (ew - (sw + 1)) (wr c.data sw l) data (sw + 1)
    if ec ≠ 0 then { c with data := wr p (sw + 1 + (ew - (sw + 1))) (c2lP data ec) }
    else { c with data := p }

def md5Update (c : Md5Ctx) (data : List UInt8) (len : ℕ) : Md5Ctx :=
  if len = 0 then c
  else
    let c := md5Count c len
    if c.num ≠ 0 then
      if 64 ≤ (c.num + len) % 2 ^ 32 then md5Complete c data len else md5Stay c data len
    else md5Rest c data len

/-- The last block of `MD5_Final`: zero words from `i` on, the bit count, and
the digest stored at `md`. -/
def md5Finish (c : Md5Ctx) (p : Vector UInt32 16) (i : ℕ) : List UInt8 × Md5Ctx :=
  let p := zeroWords (16 - 2 - i) p i
  let p := wr p (16 - 2) c.Nl
  let p := wr p (16 - 1) c.Nh
  let c := md5Block { c with data := p } (rd p) 64
  (l2c c.regs.A ++ l2c c.regs.B ++ l2c c.regs.C ++ l2c c.regs.D, { c with num := 0 })

/-- `MD5_Final`: the sixteen bytes stored at `md`, and the context left. -/
def md5Final (c : Md5Ctx) : List UInt8 × Md5Ctx :=
  let cp : List UInt8 := [0x80, 0x00, 0x00, 0x00]
  let j := c.num
  let i := j / 4
  let l := (pC2l cp (rd c.data i) (j % 4)).1
  let p := wr c.data i l
  let i := i + 1
  if 56 ≤ c.num then
    let p := zeroWords (16 - i) p i
    md5Finish (md5Block c (rd p) 64) p 0
  else md5Finish c p i

def md5HashBuffer (inBuffer : List UInt8) (length : ℕ) : List UInt8 :=
  (md5Final (md5Update md5Init inBuffer length)).1

end LinuxDemo

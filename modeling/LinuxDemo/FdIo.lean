/-
LinuxDemo/FdIo.lean

The reads and writes on a descriptor: `Serial` of `inc/serial.h`, `ExtFd` of
`inc/ExtFd.h` and `Tcp::send` of `inc/tcp.h`.

What the kernel will answer is a list of outcomes for each system call,
`Kernel`; a function that needs more outcomes than there are has not returned,
and gives `none`.  The kernel also keeps the bytes it has given and taken, and
the indices that `FD_SET` and `FD_ISSET` were used with.  From `FD_SETSIZE` on
these are outside of the set, and what is overwritten there does not show here:
what is proved of the methods is about the descriptors below it, and
`FdSetRange.lean` is about the others.

The methods of the classes are near copies of each other.  `readFd` and
`writeFd` are the common bodies, and each method is one of them with the
values of its class: the test on the descriptor, the limit on repetitions and
the comparison of the count.  A buffer is NULL or the byte at each offset, so
that a write outside of it would show.
-/
import LinuxDemo.Lib.Retry
import LinuxDemo.Lib.CInt
import Mathlib.Logic.Function.Basic

namespace LinuxDemo

/-! ### The kernel -/

def EINTR : ℤ := 4

def EAGAIN : ℤ := 11

/-- `en == EAGAIN || en == EINTR`. -/
def tryAgain (en : ℤ) : Bool := en = EAGAIN ∨ en = EINTR

inductive SelectOutcome where
  | error (en : ℤ)
  | timeout
  /-- Ready, with the value of `FD_ISSET`. -/
  | ready (isset : Bool)
deriving DecidableEq

/-- The outcome of a read of one byte. -/
inductive ReadOutcome where
  | error (en : ℤ)
  | eof
  | byte (ch : UInt8)
deriving DecidableEq

/-- The outcome of a write.  A count leaves the value in `errno` that was there
before. -/
inductive WriteOutcome where
  | error (en : ℤ)
  | count (m : ℕ) (en : ℤ)
deriving DecidableEq

def SelectOutcome.again : SelectOutcome → Bool
  | .error en => tryAgain en
  | _ => false

/-- How often `FD_ISSET` is asked for. -/
def SelectOutcome.tests : SelectOutcome → ℕ
  | .ready _ => 1
  | .error _ | .timeout => 0

def ReadOutcome.again : ReadOutcome → Bool
  | .error en => tryAgain en
  | _ => false

/-- `ret = ::write(..)`, a conversion to `int`. -/
def WriteOutcome.ret : WriteOutcome → ℤ
  | .error _ => -1
  | .count m _ => int32 m

def WriteOutcome.errno : WriteOutcome → ℤ
  | .error en | .count _ en => en

def WriteOutcome.again (o : WriteOutcome) : Bool := o.ret < 0 ∧ tryAgain o.errno

/-- The bytes that the kernel gives. -/
def ReadOutcome.bytes : ReadOutcome → List UInt8
  | .byte ch => [ch]
  | _ => []

/-- The first `n` bytes of a buffer. -/
def firstBytes (buf : ℕ → UInt8) (n : ℕ) : List UInt8 := (List.range n).map buf

/-- The bytes that the kernel takes from the buffer. -/
def WriteOutcome.taken (buf : ℕ → UInt8) : WriteOutcome → List UInt8
  | .error _ => []
  | .count m _ => firstBytes buf m

structure Kernel where
  selects : List SelectOutcome
  reads : List ReadOutcome
  writes : List WriteOutcome
  /-- The indices used with `FD_SET` and `FD_ISSET`. -/
  fdSets : List ℤ
  /-- Bytes read from the descriptor. -/
  consumed : List UInt8
  /-- Bytes written to the descriptor. -/
  handed : List UInt8

namespace Kernel

/-- `FD_SET` and `select`, from the label before them, and `FD_ISSET` if it is asked
for. -/
def select (k : Kernel) (fd : ℤ) : Option (SelectOutcome × Kernel) :=
  (retry SelectOutcome.again none k.selects).map fun r =>
    (r.last, { k with
      selects := r.rest
      fdSets := k.fdSets ++ List.replicate (r.tried.length + 1 + r.last.tests) fd })

/-- `::read(fd, &ch, 1)`, from the label before it. -/
def read (k : Kernel) : Option (ReadOutcome × Kernel) :=
  (retry ReadOutcome.again none k.reads).map fun r =>
    (r.last, { k with reads := r.rest, consumed := k.consumed ++ r.last.bytes })

/-- `::write(fd, buf, size)`, from the label before it. -/
def write (k : Kernel) (tries : Option ℤ) (buf : ℕ → UInt8) : Option (WriteOutcome × Kernel) :=
  (retry WriteOutcome.again tries k.writes).map fun r =>
    (r.last, { k with
      writes := r.rest
      handed := k.handed ++ (r.tried ++ [r.last]).flatMap (WriteOutcome.taken buf) })

end Kernel

/-! ### Reading -/

/-- `_read(_c, _s, _u)`: the result, and the byte stored at `_c` if one is. -/
def readByte (fd _s _u : ℤ) (k : Kernel) : Option (ℤ × Option UInt8 × Kernel) :=
  if _s < 0 ∨ _u < 0 ∨ fd < 0 then some (-1, none, k)
  else
    (k.select fd).bind fun (o, k) =>
      match o with
      | .error _ => some (-3, none, k)
      | .timeout => some (0, none, k)
      | .ready false => some (-6, none, k)
      | .ready true =>
          k.read.bind fun (o, k) =>
            match o with
            | .error _ => some (-4, none, k)
            | .eof => some (-5, none, k)
            | .byte ch => some (1, some ch, k)

/-- The loop of `read` at the index `i`, with `n` more rounds to go. -/
def readLoop (fd _s _u : ℤ) :
    ℕ → ℕ → (ℕ → UInt8) → Kernel → Option (ℤ × (ℕ → UInt8) × Kernel)
  | 0, i, buf, k => some (int32 i, buf, k)
  | n + 1, i, buf, k =>
      -- `_s` is set to zero once a byte has come; `_u` is not
      (readByte fd (if i = 0 then _s else 0) _u k).bind fun (ret, c, k) =>
        let buf := c.elim buf (Function.update buf i)
        if ret = 1 then readLoop fd _s _u n (i + 1) buf k
        else if ret = 0 then some (int32 i, buf, k)
        else some (ret, buf, k)

/-- The arguments of a `read`. -/
structure ReadCall where
  buf : Option (ℕ → UInt8)
  size : UInt32
  s : ℤ
  u : ℤ

/-- The result of a `read`, and the buffer after it. -/
structure ReadResult where
  ret : ℤ
  buf : Option (ℕ → UInt8)

def readFd (fd : ℤ) (c : ReadCall) (k : Kernel) : Option (ReadResult × Kernel) :=
  match c.buf with
  | none => some (⟨-1, none⟩, k)
  | some buf =>
      if c.size ≤ 0 ∨ c.s < 0 ∨ c.u < 0 ∨ fd < 0 then some (⟨-1, some buf⟩, k)
      else
        (readLoop fd c.s c.u c.size.toNat 0 buf k).map fun (ret, buf, k) => (⟨ret, some buf⟩, k)

def Serial.read := readFd

def ExtFd.read := readFd

/-! ### Writing -/

/-- The common body of `Serial::write`, `ExtFd::write`, `Tcp::send` and `Udp::send`. -/
def writeFd (badFd : ℤ → Bool) (tries : Option ℤ) (short : ℤ → UInt32 → Bool) (fd : ℤ)
    (_buf : Option (ℕ → UInt8)) (_size : UInt32) (_s _u : ℤ) (k : Kernel) :
    Option (ℤ × Kernel) :=
  match _buf with
  | none => some (-1, k)
  | some buf =>
      if _size ≤ 0 ∨ _s < 0 ∨ _u < 0 ∨ badFd fd then some (-1, k)
      else
        (k.select fd).bind fun (o, k) =>
          match o with
          | .error _ => some (-2, k)
          | .timeout => some (0, k)
          | .ready false => some (-5, k)
          | .ready true =>
              (k.write tries buf).bind fun (o, k) =>
                if o.ret < 0 then some (-3, k)
                else if short o.ret _size then some (-4, k)
                else some (o.ret, k)

/-- `fd < 0` in the argument checks. -/
def Serial.badFd (fd : ℤ) : Bool := fd < 0

/-- `(unsigned)ret != _size`. -/
def Serial.write :=
  writeFd Serial.badFd none fun ret _size => uint32 ret ≠ (_size.toNat : ℤ)

def ExtFd.badFd (fd : ℤ) : Bool := fd < 0

def ExtFd.write :=
  writeFd ExtFd.badFd none fun ret _size => uint32 ret ≠ (_size.toNat : ℤ)

/-- `fd <= 0` in the argument checks. -/
def Tcp.badFd (fd : ℤ) : Bool := fd ≤ 0

/-- `ret != (int)_size`, and at most `try_count` repetitions. -/
def Tcp.send :=
  writeFd Tcp.badFd (some 5) fun ret _size => ret ≠ int32 _size.toNat

end LinuxDemo

/-
LinuxDemo/NetIo.lean

The other methods that wait on a descriptor: `Tcp::recv` and `Tcp::accept` of
`inc/tcp.h`, `Udp::send` and `Udp::recv` of `inc/udp.h`, and the loop at the end
of `SimpleTask::execTask` of `inc/SimpleTask.h` that empties the wake pipe.

They are written like the methods of `FdIo.lean`, and `NetKernel` adds what the
kernel will answer to `recv`, `recvfrom` and `accept`.  What differs is in the
checks: `Tcp::recv` looks at the descriptor, and `Udp::send`, `Udp::recv` and
`Tcp::accept` do not.
-/
import LinuxDemo.FdObject

namespace LinuxDemo

/-! ### The kernel -/

/-- The outcome of a `recv` or a `recvfrom`: some bytes, and the address they came
from.  They leave the value in `errno` that was there before. -/
inductive InputOutcome where
  | error (en : ℤ)
  | data (bs : List UInt8) (sa : SockAddr) (en : ℤ)
deriving DecidableEq

/-- The outcome of an `accept`. -/
inductive AcceptOutcome where
  | error (en : ℤ)
  | accepted (fd : ℕ)
deriving DecidableEq

namespace InputOutcome

/-- `ret = ::recv(..)`, a conversion to `int`. -/
def ret : InputOutcome → ℤ
  | .error _ => -1
  | .data bs _ _ => int32 bs.length

def errno : InputOutcome → ℤ
  | .error en | .data _ _ en => en

def again (o : InputOutcome) : Bool := o.ret < 0 ∧ tryAgain o.errno

/-- The buffer after it. -/
def stored (buf : ℕ → UInt8) : InputOutcome → ℕ → UInt8
  | .error _ => buf
  | .data bs _ _ => fun i => bs.getD i (buf i)

def sender : InputOutcome → Option SockAddr
  | .error _ => none
  | .data _ sa _ => some sa

end InputOutcome

def AcceptOutcome.again : AcceptOutcome → Bool
  | .error en => tryAgain en
  | .accepted _ => false

structure NetKernel extends Kernel where
  inputs : List InputOutcome
  accepts : List AcceptOutcome

namespace NetKernel

def select (k : NetKernel) (fd : ℤ) : Option (SelectOutcome × NetKernel) :=
  (k.toKernel.select fd).map fun (o, k') => (o, { k with toKernel := k' })

/-- `recv` or `recvfrom`, from the label before it, and the buffer after it. -/
def input (k : NetKernel) (buf : ℕ → UInt8) :
    Option (InputOutcome × (ℕ → UInt8) × NetKernel) :=
  (retry InputOutcome.again none k.inputs).map fun r =>
    (r.last, (r.tried ++ [r.last]).foldl InputOutcome.stored buf, { k with inputs := r.rest })

/-- `::accept(..)`, from the label before it. -/
def accept (k : NetKernel) : Option (AcceptOutcome × NetKernel) :=
  (retry AcceptOutcome.again none k.accepts).map fun r => (r.last, { k with accepts := r.rest })

end NetKernel

/-! ### Receiving -/

/-- The result of a receive, the buffer after it, and the sender if bytes came. -/
structure RecvResult where
  ret : ℤ
  buf : Option (ℕ → UInt8)
  sender : Option SockAddr

/-- The common body of `Tcp::recv` and `Udp::recv`. -/
def recvFd (badFd : ℤ → Bool) (fd : ℤ) (_buf : Option (ℕ → UInt8)) (_size : UInt32) (_s _u : ℤ)
    (k : NetKernel) : Option (RecvResult × NetKernel) :=
  match _buf with
  | none => some (⟨-1, none, none⟩, k)
  | some buf =>
      if _size ≤ 0 ∨ _s < 0 ∨ _u < 0 ∨ badFd fd then some (⟨-1, some buf, none⟩, k)
      else
        (k.select fd).bind fun (o, k) =>
          match o with
          | .error _ => some (⟨-2, some buf, none⟩, k)
          | .timeout => some (⟨0, some buf, none⟩, k)
          | .ready false => some (⟨-5, some buf, none⟩, k)
          | .ready true =>
              (k.input buf).map fun (o, buf, k) =>
                if o.ret < 0 then (⟨-3, some buf, none⟩, k)
                else if o.ret = 0 then (⟨-4, some buf, none⟩, k)
                else (⟨o.ret, some buf, o.sender⟩, k)

/-- `fd <= 0` in the argument checks. -/
def Tcp.recv (fd : ℤ) (_buf : Option (ℕ → UInt8)) (_size : UInt32) (_s _u : ℤ) (k : NetKernel) :
    Option (ReadResult × NetKernel) :=
  (recvFd Tcp.badFd fd _buf _size _s _u k).map fun (r, k) => (⟨r.ret, r.buf⟩, k)

/-- `(int)ntohs(port)`. -/
def ntohs (port : UInt8 × UInt8) : ℤ := 2 ^ 8 * port.1.toNat + port.2.toNat

/-- The result of `Udp::recv`, and what `_buf`, `_ip` and `_port` point to after it. -/
structure UdpRecvResult where
  ret : ℤ
  buf : Option (ℕ → UInt8)
  ip : Option String
  port : Option ℤ

/-- The descriptor is not looked at. -/
def Udp.recv (inet_ntoa : UInt32 → String) (fd : ℤ) (_buf : Option (ℕ → UInt8)) (_size : UInt32)
    (_ip : Option String) (_port : Option ℤ) (_s _u : ℤ) (k : NetKernel) :
    Option (UdpRecvResult × NetKernel) :=
  (recvFd (fun _ => false) fd _buf _size _s _u k).map fun (r, k) =>
    match r.sender with
    | none => (⟨r.ret, r.buf, _ip, _port⟩, k)
    | some sa =>
        (⟨r.ret, r.buf, _ip.map fun _ => inet_ntoa sa.sin_addr,
          _port.map fun _ => ntohs sa.sin_port⟩, k)

/-! ### Accepting -/

/-- Nothing is checked first. -/
def Tcp.accept (fd _s _u : ℤ) (k : NetKernel) : Option (ℤ × NetKernel) :=
  (k.select fd).bind fun (o, k) =>
    match o with
    | .error _ => some (-1, k)
    | .timeout => some (0, k)
    | .ready false => some (-3, k)
    | .ready true =>
        k.accept.map fun (o, k) =>
          match o with
          | .error _ => (-2, k)
          | .accepted ret => (ret, k)

/-! ### Sending -/

/-- The result, and the addresses passed to `sendto`.  The descriptor is not looked
at.  `sa` is what the stack held before. -/
def Udp.send (inet_aton : String → Option UInt32) (fd : ℤ) (_buf : Option (ℕ → UInt8))
    (_size : UInt32) (_ip : Option String) (_port _s _u : ℤ) (sa : SockAddr) (k : Kernel) :
    Option (ℤ × List SockAddr × Kernel) :=
  match _ip with
  | none => some (-1, [], k)
  | some ip =>
      let sa : SockAddr :=
        { sin_family := AF_INET
          sin_port := htons _port
          -- once more for each `select`, with the same outcome
          sin_addr := (inet_aton ip).getD sa.sin_addr }
      (writeFd (fun _ => false) none (fun ret _size => ret ≠ int32 _size.toNat) fd _buf _size _s _u
        k).map fun (ret, k') =>
          -- a `sendto` for each outcome that was used up
          (ret, List.replicate (k.writes.length - k'.writes.length) sa, k')

/-! ### The wake pipe -/

/-- The `do` loop of `execTask`.  An interrupted `select` ends it. -/
def drainLoop (pfd0 : ℤ) : List SelectOutcome → Kernel → Option Kernel
  | [], _ => none
  | .error _ :: selects, k | .timeout :: selects, k =>
      some { k with selects := selects, fdSets := k.fdSets ++ [pfd0] }
  | .ready false :: selects, k =>
      -- `FD_SET`, and `FD_ISSET` in the body and in the condition
      some { k with selects := selects, fdSets := k.fdSets ++ List.replicate 3 pfd0 }
  | .ready true :: selects, k =>
      match k.reads with
      | [] => none
      | o :: reads =>
          -- whatever `read` returns
          drainLoop pfd0 selects { k with
            selects := selects
            reads := reads
            fdSets := k.fdSets ++ List.replicate 3 pfd0
            consumed := k.consumed ++ o.bytes }

/-- What `execTask` does after the last cell of the queue. -/
def SimpleTask.drain (pfd0 : ℤ) (k : Kernel) : Option Kernel :=
  if pfd0 > 0 then drainLoop pfd0 k.selects k else some k

end LinuxDemo

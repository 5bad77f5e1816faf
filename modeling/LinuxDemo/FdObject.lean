/-
LinuxDemo/FdObject.lean

The life of a descriptor in `Serial` of `inc/serial.h`, `Tcp` of `inc/tcp.h`
and `Udp` of `inc/udp.h`.

An object is its field `fd` and a log of the descriptors it has obtained from
`open` or `socket` and closed.  What the inner calls return is given as an
`OpenOutcome`, of which each class uses its own part.  The socket addresses
that are passed to the kernel are part of the results.  `inet_aton` is the
function of the C library: the address a string denotes, if it denotes one.
-/
import LinuxDemo.FdIo
import LinuxDemo.Lib.Handles

namespace LinuxDemo

structure FdObject where
  fd : ℤ
  log : List (HandleEvent ℤ)

/-- A constructed object holds no descriptor. -/
def FdObject.initial : FdObject := { fd := -1, log := [] }

/-- `fd = ret`, with the descriptor `ret` that the kernel gave. -/
def FdObject.obtain (o : FdObject) (ret : ℤ) : FdObject :=
  { fd := ret, log := o.log ++ [.acquire ret] }

/-- `::close(fd); fd = -1;` -/
def FdObject.closeFd (o : FdObject) : FdObject :=
  { fd := -1, log := o.log ++ [.release o.fd] }

/-! ### Socket addresses -/

structure SockAddr where
  sin_family : ℤ
  /-- The two bytes of the port, the high one first. -/
  sin_port : UInt8 × UInt8
  sin_addr : UInt32
deriving DecidableEq

def AF_INET : ℤ := 2

def INADDR_ANY : UInt32 := 0

/-- `htons((short)port)`. -/
def htons (port : ℤ) : UInt8 × UInt8 :=
  let p := (port % 2 ^ 16).toNat
  (UInt8.ofNat (p / 2 ^ 8), UInt8.ofNat p)

/-! ### The inner calls -/

def EBADF : ℤ := 9

def EWOULDBLOCK : ℤ := EAGAIN

/-- The outcome of a `recv` in the drain loop. -/
inductive RecvOutcome where
  | data
  | eof
  | error (en : ℤ)
deriving DecidableEq

/-- The drain loop of `Tcp::destroy` goes on after it. -/
def RecvOutcome.goesOn : RecvOutcome → Bool
  | .data => true
  | .eof => false
  | .error en => ¬ (en = EAGAIN ∨ en = EWOULDBLOCK ∨ en = EBADF)

/-- What the inner calls of `open` or `create` return. -/
structure OpenOutcome where
  /-- `open` or `socket`. -/
  ret : ℤ
  tcsetattr : ℤ
  connect : ℤ
  bind : ℤ
  listen : ℤ
  recvs : List RecvOutcome
  /-- What the stack held where `sa` is. -/
  sa : SockAddr

/-! ### `Serial` -/

def Serial.setfmt (o : FdObject) (tcsetattr : ℤ) : Bool :=
  if o.fd < 0 then false
  else if tcsetattr < 0 then false
  else true

def Serial.close (o : FdObject) : FdObject :=
  if o.fd > 0 then o.closeFd else o

def Serial.open (o : FdObject) (k : OpenOutcome) : Bool × FdObject :=
  if k.ret < 0 then (false, o)
  else
    let o := o.obtain k.ret
    if !Serial.setfmt o k.tcsetattr then (false, Serial.close o) else (true, o)

/-! ### `Tcp` -/

structure Tcp where
  type : ℤ
  ip : String
  port : ℤ

def TCP_SERVER : ℤ := 0

def TCP_CLIENT : ℤ := 1

def TCP_PROXY : ℤ := 2

def Tcp.destroy (o : FdObject) (recvs : List RecvOutcome) : Option FdObject :=
  if !(o.fd > 0) then some o
  else (retry RecvOutcome.goesOn none recvs).map fun _ => o.closeFd

/-- The address that `Tcp::create` assembles in `sa`. -/
def Tcp.sockAddr (inet_aton : String → Option UInt32) (c : Tcp) (sa : SockAddr) : SockAddr :=
  { sin_family := AF_INET
    sin_port := htons c.port
    -- `inet_aton` leaves its output as it was when the string is no address
    sin_addr := (inet_aton c.ip).getD sa.sin_addr }

/-- The result, the addresses passed to the kernel and the object. -/
def Tcp.create (inet_aton : String → Option UInt32) (c : Tcp) (o : FdObject)
    (k : OpenOutcome) : Option (Bool × List SockAddr × FdObject) :=
  if k.ret < 0 then some (false, [], o)
  else
    let o := o.obtain k.ret
    let sa := c.sockAddr inet_aton k.sa
    if c.type = TCP_CLIENT then
      if k.connect < 0 then (Tcp.destroy o k.recvs).map fun o => (false, [sa], o)
      else some (true, [sa], o)
    else if c.type = TCP_SERVER then
      if k.bind < 0 then (Tcp.destroy o k.recvs).map fun o => (false, [sa], o)
      else if k.listen ≠ 0 then (Tcp.destroy o k.recvs).map fun o => (false, [sa], o)
      else some (true, [sa], o)
    else some (true, [], o)

/-! ### `Udp` -/

structure Udp where
  port : ℤ

def Udp.destroy (o : FdObject) : FdObject :=
  if o.fd > 0 then o.closeFd else o

def Udp.create (c : Udp) (o : FdObject) (k : OpenOutcome) : Bool × List SockAddr × FdObject :=
  if k.ret < 0 then (false, [], o)
  else
    let o := o.obtain k.ret
    let sa : SockAddr := ⟨AF_INET, htons c.port, INADDR_ANY⟩
    if k.bind < 0 then (false, [sa], Udp.destroy o) else (true, [sa], o)

end LinuxDemo

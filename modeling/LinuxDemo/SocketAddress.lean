/-
LinuxDemo/SocketAddress.lean

Which address do `Tcp::create` of `inc/tcp.h` and `Udp::send` of `inc/udp.h` talk
to?

Both put an address together from a string and an `int`.  `inet_aton` is called
without a look at its result, so a string that is no address leaves what the stack
held; and the port goes through `(short)`, so it is taken modulo 2^16.  Nothing
after that can tell, and whether the operation succeeds is up to the kernel alone.
So the address is the one asked for exactly if the string is an address and the
port is one (`socket_address_iff`).  A `Udp::send` that can never return a positive
count has nothing to keep.
-/
import LinuxDemo.NetIo
import LinuxDemo.FdWrite

namespace LinuxDemo

variable (inet_aton : String → Option UInt32)

/-- The string is an address, and the port is one. -/
def IsAddress (ip : String) (port : ℤ) : Prop :=
  (inet_aton ip).isSome ∧ 0 ≤ port ∧ port ≤ 65535

instance (ip : String) (port : ℤ) : Decidable (IsAddress inet_aton ip port) :=
  inferInstanceAs (Decidable (_ ∧ _))

/-- The address that was asked for, with the port unreduced. -/
def SockAddr.Denotes (sa : SockAddr) (ip : String) (port : ℤ) : Prop :=
  sa.sin_family = AF_INET ∧ inet_aton ip = some sa.sin_addr ∧ ntohs sa.sin_port = port

/-- What both methods put together. -/
def assembled (ip : String) (port : ℤ) (sa : SockAddr) : SockAddr :=
  { sin_family := AF_INET
    sin_port := htons port
    sin_addr := (inet_aton ip).getD sa.sin_addr }

/-- The port is reduced. -/
theorem ntohs_htons (port : ℤ) : ntohs (htons port) = port % 2 ^ 16 := by
  simp only [ntohs, htons, UInt8.toNat_ofNat']
  omega

variable {inet_aton}

/-- **What was put together is what was asked for**, if that is an address. -/
theorem assembled_denotes_iff {ip : String} {port : ℤ} {sa : SockAddr} :
    (assembled inet_aton ip port sa).Denotes inet_aton ip port ↔ IsAddress inet_aton ip port := by
  rw [SockAddr.Denotes, IsAddress, assembled, ntohs_htons]
  constructor
  · rintro ⟨-, haddr, hport⟩
    refine ⟨Option.isSome_iff_exists.mpr ⟨_, haddr⟩, ?_, ?_⟩
    · rw [← hport]
      exact Int.emod_nonneg port (by decide)
    · have hlt : port % 2 ^ 16 < 2 ^ 16 := Int.emod_lt_of_pos port (by decide)
      omega
  · rintro ⟨haddr, hlo, hhi⟩
    obtain ⟨addr, haddr⟩ := Option.isSome_iff_exists.mp haddr
    refine ⟨rfl, ?_, Int.emod_eq_of_lt hlo (by omega)⟩
    rw [haddr, Option.getD_some]

/-! ### `Tcp::create` -/

/-- If `create` returns true, the addresses passed to the kernel are the one asked
for; and it returns false if there is none. -/
def Tcp.SpeaksTo (inet_aton : String → Option UInt32) (c : Tcp) : Prop :=
  ∀ o k ok sas o', Tcp.create inet_aton c o k = some (ok, sas, o') →
    (ok = true → sas ≠ [] ∧ ∀ sa ∈ sas, sa.Denotes inet_aton c.ip c.port) ∧
      (¬ IsAddress inet_aton c.ip c.port → ok = false)

/-- A client or a server that is created has passed on what it put together. -/
theorem Tcp.create_passes {c : Tcp} (hc : c.type = TCP_CLIENT ∨ c.type = TCP_SERVER)
    {o o' : FdObject} {k : OpenOutcome} {sas : List SockAddr}
    (h : Tcp.create inet_aton c o k = some (true, sas, o')) :
    sas = [assembled inet_aton c.ip c.port k.sa] := by
  have hfailed : ∀ sas', ((Tcp.destroy (o.obtain k.ret) k.recvs).map fun o => (false, sas', o)) ≠
      some (true, sas, o') := by
    intro sas' heq
    obtain ⟨o₁, -, heq⟩ := Option.map_eq_some_iff.mp heq
    cases heq
  rw [Tcp.create] at h
  split at h
  · cases h
  · dsimp only at h
    split at h
    · -- a client
      split at h
      · exact absurd h (hfailed _)
      · cases h
        rfl
    · rename_i hclient
      rw [if_pos (hc.resolve_left hclient)] at h
      split at h
      · exact absurd h (hfailed _)
      · split at h
        · exact absurd h (hfailed _)
        · cases h
          rfl

/-- Inner calls that succeed, with `sa` on the stack. -/
def allSucceed (sa : SockAddr) : OpenOutcome :=
  { ret := 3, tcsetattr := 0, connect := 0, bind := 0, listen := 0, recvs := [], sa := sa }

/-- They make a client or a server. -/
theorem Tcp.create_succeeds (inet_aton : String → Option UInt32) {c : Tcp}
    (hc : c.type = TCP_CLIENT ∨ c.type = TCP_SERVER) (o : FdObject) (sa : SockAddr) :
    ∃ o', Tcp.create inet_aton c o (allSucceed sa) =
      some (true, [assembled inet_aton c.ip c.port sa], o') := by
  rcases hc with hc | hc
  · rw [Tcp.create, hc]
    exact ⟨_, rfl⟩
  · rw [Tcp.create, hc]
    exact ⟨_, rfl⟩

/-- **When `Tcp::create` talks to the address asked for.** -/
theorem Tcp.speaksTo_iff {c : Tcp} (hc : c.type = TCP_CLIENT ∨ c.type = TCP_SERVER) :
    c.SpeaksTo inet_aton ↔ IsAddress inet_aton c.ip c.port := by
  constructor
  · -- the kernel may let everything succeed
    intro h
    obtain ⟨o', hcreate⟩ := Tcp.create_succeeds inet_aton hc .initial ⟨0, (0, 0), 0⟩
    obtain ⟨-, hall⟩ := (h _ _ _ _ _ hcreate).1 rfl
    exact assembled_denotes_iff.mp (hall _ (List.mem_singleton_self _))
  · intro haddr o k ok sas o' hcreate
    refine ⟨?_, fun hnot => absurd haddr hnot⟩
    rintro rfl
    rw [Tcp.create_passes hc hcreate]
    refine ⟨List.cons_ne_nil _ _, ?_⟩
    intro sa hsa
    rw [List.mem_singleton.mp hsa]
    exact assembled_denotes_iff.mpr haddr

/-! ### `Udp::send` -/

/-- A `write` uses up an outcome. -/
theorem Kernel.write_uses {k k' : Kernel} {tries : Option ℤ} {buf : ℕ → UInt8} {o : WriteOutcome}
    (h : k.write tries buf = some (o, k')) : k'.writes.length < k.writes.length := by
  obtain ⟨r, hr, heq⟩ := Option.map_eq_some_iff.mp h
  obtain ⟨hos, -, -⟩ := retry_spec hr
  cases heq
  show r.rest.length < k.writes.length
  rw [hos, List.length_append, List.length_cons]
  omega

/-- A positive result is a count that is not short. -/
theorem writeFd_pos {badFd : ℤ → Bool} {tries : Option ℤ} {short : ℤ → UInt32 → Bool} {fd : ℤ}
    {_buf : Option (ℕ → UInt8)} {_size : UInt32} {_s _u ret : ℤ} {k k' : Kernel}
    (h : writeFd badFd tries short fd _buf _size _s _u k = some (ret, k')) (hret : 0 < ret) :
    _buf ≠ none ∧ 0 ≤ _s ∧ 0 ≤ _u ∧ short ret _size = false ∧
      k'.writes.length < k.writes.length := by
  cases writeFd_exit h with
  | rejected hchecks => omega
  | notReady hbuf hchecks hselect hcode =>
    simp only [List.mem_cons, List.not_mem_nil, or_false] at hcode
    omega
  | written hbuf hchecks hselect hwrite hcode =>
    obtain ⟨hwrites, -⟩ := k.select_spec hselect
    have huses := Kernel.write_uses hwrite
    rw [hwrites] at huses
    split at hcode
    · omega
    · split at hcode
      · omega
      · rename_i hshort
        rw [hbuf, hcode]
        exact ⟨Option.some_ne_none _, by omega, by omega, Bool.eq_false_iff.mpr hshort, huses⟩

/-- If `send` returns a positive count, the addresses passed to `sendto` are the one
asked for; and it returns none if there is no such address. -/
def Udp.SpeaksTo (inet_aton : String → Option UInt32) (fd : ℤ) (_buf : Option (ℕ → UInt8))
    (_size : UInt32) (_ip : String) (_port _s _u : ℤ) : Prop :=
  ∀ sa k ret sas k',
    Udp.send inet_aton fd _buf _size (some _ip) _port _s _u sa k = some (ret, sas, k') →
      (0 < ret → sas ≠ [] ∧ ∀ sa ∈ sas, sa.Denotes inet_aton _ip _port) ∧
        (¬ IsAddress inet_aton _ip _port → ret ≤ 0)

/-- A `send` with these arguments may return a positive count. -/
def Udp.CanSend (_buf : Option (ℕ → UInt8)) (_size : UInt32) (_s _u : ℤ) : Prop :=
  _buf ≠ none ∧ 0 < int32 _size.toNat ∧ 0 ≤ _s ∧ 0 ≤ _u

section Send

variable {fd : ℤ} {_buf : Option (ℕ → UInt8)} {_size : UInt32} {_ip : String} {_port _s _u : ℤ}

/-- A positive result was sent to what `send` put together. -/
theorem Udp.send_passes {sa : SockAddr} {k k' : Kernel} {ret : ℤ} {sas : List SockAddr}
    (h : Udp.send inet_aton fd _buf _size (some _ip) _port _s _u sa k = some (ret, sas, k'))
    (hret : 0 < ret) :
    Udp.CanSend _buf _size _s _u ∧ sas ≠ [] ∧ ∀ t ∈ sas, t = assembled inet_aton _ip _port sa := by
  obtain ⟨⟨ret', k₁⟩, hwrite, heq⟩ := Option.map_eq_some_iff.mp h
  cases heq
  obtain ⟨hbuf, hs, hu, hshort, huses⟩ := writeFd_pos hwrite hret
  have hsize : ret = int32 _size.toNat := by
    simpa only [decide_eq_false_iff_not, ne_eq, not_not] using hshort
  refine ⟨⟨hbuf, hsize ▸ hret, hs, hu⟩, ?_, fun t ht => List.eq_of_mem_replicate ht⟩
  intro hnil
  rw [List.replicate_eq_nil_iff] at hnil
  omega

/-- A kernel that takes all bytes. -/
def takesAll (_size : UInt32) : Kernel :=
  { selects := [.ready true], reads := [], writes := [.count _size.toNat 0], fdSets := []
    consumed := [], handed := [] }

/-- It makes a `send` return a positive count. -/
theorem Udp.send_succeeds (inet_aton : String → Option UInt32) (fd : ℤ) (_ip : String) (_port : ℤ)
    (h : Udp.CanSend _buf _size _s _u) (sa : SockAddr) :
    ∃ sas k', Udp.send inet_aton fd _buf _size (some _ip) _port _s _u sa (takesAll _size) =
      some (int32 _size.toNat, sas, k') := by
  obtain ⟨hbuf, hsize, hs, hu⟩ := h
  obtain ⟨buf, rfl⟩ := Option.ne_none_iff_exists'.mp hbuf
  have hchecks : ¬ (_size ≤ 0 ∨ _s < 0 ∨ _u < 0 ∨ false = true) := by
    rintro (h | h | h | h)
    · rw [UInt32.le_zero_iff.mp h] at hsize
      exact absurd hsize (by decide)
    · omega
    · omega
    · cases h
  have hret : ¬ (WriteOutcome.count _size.toNat 0).ret < 0 := not_lt.mpr hsize.le
  have hagain : WriteOutcome.again (.count _size.toNat 0) = false :=
    decide_eq_false fun h => hret h.1
  obtain ⟨k₁, hselect, hwrites⟩ : ∃ k₁, (takesAll _size).select fd = some (.ready true, k₁) ∧
      k₁.writes = [.count _size.toNat 0] := ⟨_, rfl, rfl⟩
  obtain ⟨k₂, hwrite⟩ : ∃ k₂, k₁.write none buf = some (.count _size.toNat 0, k₂) := by
    rw [Kernel.write, hwrites, retry_cons_last none [] hagain]
    exact ⟨_, rfl⟩
  refine ⟨_, k₂, Option.map_eq_some_iff.mpr ⟨(int32 _size.toNat, k₂), ?_, rfl⟩⟩
  have hshort : ¬ decide ((WriteOutcome.count _size.toNat 0).ret ≠ int32 _size.toNat) = true := by
    rw [WriteOutcome.ret, decide_eq_true_eq, not_not]
  rw [writeFd, if_neg hchecks, hselect, Option.bind_some]
  dsimp only
  rw [hwrite, Option.bind_some]
  dsimp only
  rw [if_neg hret, if_neg hshort]
  rfl

/-- **When `Udp::send` talks to the address asked for.** -/
theorem Udp.speaksTo_iff :
    Udp.SpeaksTo inet_aton fd _buf _size _ip _port _s _u ↔
      (Udp.CanSend _buf _size _s _u → IsAddress inet_aton _ip _port) := by
  constructor
  · -- the kernel may take all bytes
    intro h hcan
    obtain ⟨sas, k', hsend⟩ := Udp.send_succeeds inet_aton fd _ip _port hcan ⟨0, (0, 0), 0⟩
    by_contra hnot
    exact absurd ((h _ _ _ _ _ hsend).2 hnot) (not_le.mpr hcan.2.1)
  · intro h sa k ret sas k' hsend
    constructor
    · intro hret
      obtain ⟨hcan, hne, hall⟩ := Udp.send_passes hsend hret
      refine ⟨hne, ?_⟩
      intro t ht
      rw [hall t ht]
      exact assembled_denotes_iff.mpr (h hcan)
    · intro hnot
      by_contra hret
      exact hnot (h (Udp.send_passes hsend (not_le.mp hret)).1)

end Send

/-! ### Both -/

/-- **When the sockets talk to the address asked for.**  A client or a server: if the
string is an address and the port is one.  A datagram: too, or if no positive count
can come back. -/
theorem socket_address_iff (inet_aton : String → Option UInt32) :
    (∀ c : Tcp, c.type = TCP_CLIENT ∨ c.type = TCP_SERVER →
      (c.SpeaksTo inet_aton ↔ IsAddress inet_aton c.ip c.port)) ∧
      ∀ fd _buf _size _ip _port _s _u,
        Udp.SpeaksTo inet_aton fd _buf _size _ip _port _s _u ↔
          (Udp.CanSend _buf _size _s _u → IsAddress inet_aton _ip _port) :=
  ⟨fun _ hc => Tcp.speaksTo_iff hc, fun _ _ _ _ _ _ _ => Udp.speaksTo_iff⟩

/-- `inet_aton`, where all strings but one are no addresses. -/
def loopback (cp : String) : Option UInt32 := if cp = "127.0.0.1" then some 0x0100007f else none

/-- A server on the last port, and a datagram. -/
theorem socket_address_loopback :
    Tcp.SpeaksTo loopback ⟨TCP_SERVER, "127.0.0.1", 65535⟩ ∧
      Udp.SpeaksTo loopback 3 (some fun _ => 65) 1 "127.0.0.1" 80 0 0 :=
  ⟨((socket_address_iff loopback).1 ⟨TCP_SERVER, "127.0.0.1", 65535⟩ (.inr rfl)).mpr (by decide),
    ((socket_address_iff loopback).2 ..).mpr fun _ => by decide⟩

/-- A client connects to what the stack held, or to the port 80 for 65616, and so does
a datagram. -/
theorem socket_address_elsewhere :
    (((Tcp.create loopback ⟨TCP_CLIENT, "localhost", 80⟩ .initial
          (allSucceed ⟨0, (0, 0), 10⟩)).map fun (ok, sas, _) => (ok, sas)) =
        some (true, [⟨AF_INET, (0, 80), 10⟩]) ∧
      ((Tcp.create loopback ⟨TCP_CLIENT, "127.0.0.1", 65616⟩ .initial
          (allSucceed ⟨0, (0, 0), 10⟩)).map fun (ok, sas, _) => (ok, sas)) =
        some (true, [⟨AF_INET, (0, 80), 0x0100007f⟩]) ∧
      ((Udp.send loopback 3 (some fun _ => 65) 1 (some "localhost") 80 0 0 ⟨0, (0, 0), 10⟩
          (takesAll 1)).map fun (ret, sas, _) => (ret, sas)) =
        some (1, [⟨AF_INET, (0, 80), 10⟩]) ∧
      ((Udp.send loopback 3 (some fun _ => 65) 1 (some "127.0.0.1") 65616 0 0 ⟨0, (0, 0), 10⟩
          (takesAll 1)).map fun (ret, sas, _) => (ret, sas)) =
        some (1, [⟨AF_INET, (0, 80), 0x0100007f⟩])) ∧
      ¬ Tcp.SpeaksTo loopback ⟨TCP_CLIENT, "localhost", 80⟩ ∧
      ¬ Tcp.SpeaksTo loopback ⟨TCP_CLIENT, "127.0.0.1", 65616⟩ ∧
      ¬ Udp.SpeaksTo loopback 3 (some fun _ => 65) 1 "localhost" 80 0 0 ∧
      ¬ Udp.SpeaksTo loopback 3 (some fun _ => 65) 1 "127.0.0.1" 65616 0 0 := by
  have hsend : Udp.CanSend (some fun _ => 65) 1 0 0 := ⟨Option.some_ne_none _, by decide⟩
  refine ⟨by decide, ?_, ?_, ?_, ?_⟩
  · rw [Tcp.speaksTo_iff (.inl rfl)]
    decide
  · rw [Tcp.speaksTo_iff (.inl rfl)]
    decide
  · rw [Udp.speaksTo_iff]
    exact fun h => absurd (h hsend) (by decide)
  · rw [Udp.speaksTo_iff]
    exact fun h => absurd (h hsend) (by decide)

end LinuxDemo

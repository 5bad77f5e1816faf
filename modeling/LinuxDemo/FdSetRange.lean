/-
LinuxDemo/FdSetRange.lean

Which indices are `FD_SET` and `FD_ISSET` used with?

A descriptor set has room for the descriptors below `FD_SETSIZE`, and nothing checks
an index: outside of 0 .. FD_SETSIZE-1 the macros touch other memory.  Each of the
ten methods that wait on a descriptor either fails its own checks, and touches no
set, or uses its field `fd`, and nothing else (`FdCall.uses`).  The field is what
the operations before have left there: -1 in an object that was not opened or was
closed, and otherwise whatever the kernel or the caller gave.

No check keeps out a descriptor of 1024 or more.  `Udp::send`, `Udp::recv` and
`Tcp::accept` do not look at the descriptor, so they also use -1, which the other
methods reject.
-/
import LinuxDemo.FdOwner
import LinuxDemo.FdRead
import LinuxDemo.FdWrite
import LinuxDemo.NetIo

namespace LinuxDemo

/-! ### What a system call uses -/

/-- Between the two lists the index `fd` was used, and no other one; or none was. -/
def UsesSet (fd : ℤ) (used : Bool) (before after : List ℤ) : Prop :=
  ∃ n, after = before ++ List.replicate n fd ∧ (n = 0 ↔ used = false)

namespace UsesSet

variable {fd : ℤ} {used used' : Bool} {xs ys zs : List ℤ}

theorem refl (fd : ℤ) (xs : List ℤ) : UsesSet fd false xs xs :=
  ⟨0, (List.append_nil xs).symm, iff_of_true rfl rfl⟩

theorem some (fd : ℤ) (xs : List ℤ) (n : ℕ) :
    UsesSet fd true xs (xs ++ List.replicate (n + 1) fd) :=
  ⟨n + 1, rfl, iff_of_false (Nat.succ_ne_zero n) (by decide)⟩

theorem trans (h : UsesSet fd used xs ys) (h' : UsesSet fd used' ys zs) :
    UsesSet fd (used || used') xs zs := by
  obtain ⟨m, rfl, hm⟩ := h
  obtain ⟨n, rfl, hn⟩ := h'
  refine ⟨m + n, ?_, ?_⟩
  · rw [List.append_assoc, List.replicate_append_replicate]
  · rw [Nat.add_eq_zero_iff, hm, hn, Bool.or_eq_false_iff]

end UsesSet

theorem Kernel.select_uses {k k' : Kernel} {fd : ℤ} {o : SelectOutcome}
    (h : k.select fd = some (o, k')) : UsesSet fd true k.fdSets k'.fdSets := by
  obtain ⟨r, -, heq⟩ := Option.map_eq_some_iff.mp h
  cases heq
  show UsesSet fd true k.fdSets (k.fdSets ++ List.replicate (r.tried.length + 1 + r.last.tests) fd)
  rw [Nat.add_right_comm]
  exact .some fd k.fdSets _

theorem Kernel.read_fdSets {k k' : Kernel} {o : ReadOutcome} (h : k.read = some (o, k')) :
    k'.fdSets = k.fdSets := by
  obtain ⟨r, -, heq⟩ := Option.map_eq_some_iff.mp h
  cases heq
  rfl

theorem Kernel.write_fdSets {k k' : Kernel} {tries : Option ℤ} {buf : ℕ → UInt8}
    {o : WriteOutcome} (h : k.write tries buf = some (o, k')) : k'.fdSets = k.fdSets := by
  obtain ⟨r, -, heq⟩ := Option.map_eq_some_iff.mp h
  cases heq
  rfl

theorem NetKernel.input_fdSets {k k' : NetKernel} {buf buf' : ℕ → UInt8} {o : InputOutcome}
    (h : k.input buf = some (o, buf', k')) : k'.fdSets = k.fdSets := by
  obtain ⟨r, -, heq⟩ := Option.map_eq_some_iff.mp h
  cases heq
  rfl

theorem NetKernel.accept_fdSets {k k' : NetKernel} {o : AcceptOutcome}
    (h : k.accept = some (o, k')) : k'.fdSets = k.fdSets := by
  obtain ⟨r, -, heq⟩ := Option.map_eq_some_iff.mp h
  cases heq
  rfl

theorem NetKernel.select_uses {k k' : NetKernel} {fd : ℤ} {o : SelectOutcome}
    (h : k.select fd = some (o, k')) : UsesSet fd true k.fdSets k'.fdSets := by
  obtain ⟨⟨o', k₁⟩, hselect, heq⟩ := Option.map_eq_some_iff.mp h
  cases heq
  exact Kernel.select_uses hselect

/-! ### What a method uses -/

/-- A `_read` that passes its checks. -/
theorem readByte_uses {fd s u : ℤ} (hs : 0 ≤ s) (hu : 0 ≤ u) (hfd : 0 ≤ fd) {k k' : Kernel}
    {ret : ℤ} {c : Option UInt8} (h : readByte fd s u k = some (ret, c, k')) :
    UsesSet fd true k.fdSets k'.fdSets := by
  rw [readByte, if_neg (by omega)] at h
  obtain ⟨⟨o, k₁⟩, hselect, h⟩ := Option.bind_eq_some_iff.mp h
  have huses := Kernel.select_uses hselect
  rcases o with en | _ | _ | _
  · cases h
    exact huses
  · cases h
    exact huses
  · cases h
    exact huses
  · obtain ⟨⟨o, k₂⟩, hread, h⟩ := Option.bind_eq_some_iff.mp h
    rw [← Kernel.read_fdSets hread] at huses
    rcases o with en | _ | ch
    · cases h
      exact huses
    · cases h
      exact huses
    · cases h
      exact huses

/-- The loop of `read`, if it goes around at all. -/
theorem readLoop_uses {fd s u : ℤ} (hs : 0 ≤ s) (hu : 0 ≤ u) (hfd : 0 ≤ fd) (n i : ℕ)
    (buf : ℕ → UInt8) (k : Kernel) {ret : ℤ} {buf' : ℕ → UInt8} {k' : Kernel}
    (h : readLoop fd s u n i buf k = some (ret, buf', k')) :
    UsesSet fd (decide (0 < n)) k.fdSets k'.fdSets := by
  induction n generalizing i buf k with
  | zero =>
    simp only [readLoop, Option.some.injEq, Prod.mk.injEq] at h
    obtain ⟨-, -, rfl⟩ := h
    exact .refl fd k.fdSets
  | succ n ih =>
    obtain ⟨⟨ret₁, c, k₁⟩, hbyte, h⟩ := Option.bind_eq_some_iff.mp h
    have huses := readByte_uses (by split <;> omega) hu hfd hbyte
    rw [decide_eq_true (Nat.succ_pos n)]
    dsimp only at h
    split at h
    · -- one byte more
      exact huses.trans (ih _ _ _ h)
    · -- a time-out or a failure
      split at h
      · simp only [Option.some.injEq, Prod.mk.injEq] at h
        obtain ⟨-, -, rfl⟩ := h
        exact huses
      · cases h
        exact huses

/-- The argument checks of a class fail. -/
def ReadCall.fails (c : ReadCall) (badFd : ℤ → Bool) (fd : ℤ) : Bool := !c.valid || badFd fd

theorem ReadCall.fails_iff {c : ReadCall} {badFd : ℤ → Bool} {fd : ℤ} :
    c.fails badFd fd = true ↔ (!c.valid) = true ∨ badFd fd = true := Bool.or_eq_true_iff

theorem fails_of_checks {buf : ℕ → UInt8} {size : UInt32} {s u : ℤ} {badFd : ℤ → Bool} {fd : ℤ} :
    (size ≤ 0 ∨ s < 0 ∨ u < 0 ∨ badFd fd) ↔ ReadCall.fails ⟨some buf, size, s, u⟩ badFd fd := by
  simp only [ReadCall.fails, ReadCall.valid, Option.isSome_some, true_and, Bool.or_eq_true,
    Bool.not_eq_true', decide_eq_false_iff_not, not_and_or, UInt32.not_lt, not_le, or_assoc]

theorem fails_of_rejected {buf : Option (ℕ → UInt8)} {size : UInt32} {s u : ℤ}
    {badFd : ℤ → Bool} {fd : ℤ} (h : buf = none ∨ size ≤ 0 ∨ s < 0 ∨ u < 0 ∨ badFd fd) :
    ReadCall.fails ⟨buf, size, s, u⟩ badFd fd = true := by
  rcases buf with _ | buf
  · rfl
  · exact fails_of_checks.mp (h.resolve_left (Option.some_ne_none buf))

/-- `Serial::read` and `ExtFd::read`. -/
theorem readFd_uses {fd : ℤ} {c : ReadCall} {k k' : Kernel} {r : ReadResult}
    (h : readFd fd c k = some (r, k')) :
    UsesSet fd (!c.fails Serial.badFd fd) k.fdSets k'.fdSets := by
  rcases c with ⟨_ | buf, size, s, u⟩
  · cases h
    exact .refl fd k.fdSets
  · have hfails : (size ≤ 0 ∨ s < 0 ∨ u < 0 ∨ fd < 0) ↔
        ReadCall.fails ⟨some buf, size, s, u⟩ Serial.badFd fd := by
      rw [← fails_of_checks, Serial.badFd, decide_eq_true_eq]
    simp only [readFd] at h
    split at h
    · rename_i hchecks
      cases h
      rw [hfails.mp hchecks]
      exact .refl fd k.fdSets
    · rename_i hchecks
      obtain ⟨⟨ret, buf', k₁⟩, hloop, heq⟩ := Option.map_eq_some_iff.mp h
      cases heq
      have hpos : 0 < size := UInt32.not_le.mp fun hle => hchecks (.inl hle)
      have hsize : 0 < size.toNat := UInt32.lt_iff_toNat_lt.mp hpos
      have huses := readLoop_uses (by omega) (by omega) (by omega) _ _ _ _ hloop
      rw [decide_eq_true hsize] at huses
      rw [Bool.eq_false_iff.mpr (mt hfails.mpr hchecks)]
      exact huses

/-- `Serial::write`, `ExtFd::write`, `Tcp::send` and `Udp::send`. -/
theorem writeFd_uses {badFd : ℤ → Bool} {tries : Option ℤ} {short : ℤ → UInt32 → Bool} {fd : ℤ}
    {c : ReadCall} {k k' : Kernel} {ret : ℤ}
    (h : writeFd badFd tries short fd c.buf c.size c.s c.u k = some (ret, k')) :
    UsesSet fd (!c.fails badFd fd) k.fdSets k'.fdSets := by
  rcases c with ⟨buf, size, s, u⟩
  cases writeFd_exit h with
  | rejected hchecks =>
    rw [fails_of_rejected hchecks]
    exact .refl fd k.fdSets
  | notReady hbuf hchecks hselect _ =>
    cases hbuf
    rw [Bool.eq_false_iff.mpr (mt fails_of_checks.mpr hchecks)]
    exact Kernel.select_uses hselect
  | written hbuf hchecks hselect hwrite _ =>
    cases hbuf
    rw [Bool.eq_false_iff.mpr (mt fails_of_checks.mpr hchecks), Kernel.write_fdSets hwrite]
    exact Kernel.select_uses hselect

/-- `Tcp::recv` and `Udp::recv`. -/
theorem recvFd_uses {badFd : ℤ → Bool} {fd : ℤ} {c : ReadCall} {k k' : NetKernel} {r : RecvResult}
    (h : recvFd badFd fd c.buf c.size c.s c.u k = some (r, k')) :
    UsesSet fd (!c.fails badFd fd) k.fdSets k'.fdSets := by
  rcases c with ⟨_ | buf, size, s, u⟩
  · cases h
    exact .refl fd k.fdSets
  · simp only [recvFd] at h
    split at h
    · rename_i hchecks
      cases h
      rw [fails_of_checks.mp hchecks]
      exact .refl fd k.fdSets
    · rename_i hchecks
      rw [Bool.eq_false_iff.mpr (mt fails_of_checks.mpr hchecks)]
      obtain ⟨⟨o, k₁⟩, hselect, h⟩ := Option.bind_eq_some_iff.mp h
      have huses := NetKernel.select_uses hselect
      rcases o with en | _ | _ | _
      · cases h
        exact huses
      · cases h
        exact huses
      · cases h
        exact huses
      · obtain ⟨⟨o, buf', k₂⟩, hinput, h⟩ := Option.map_eq_some_iff.mp h
        rw [← NetKernel.input_fdSets hinput] at huses
        dsimp only at h
        split at h
        · cases h
          exact huses
        · split at h
          · cases h
            exact huses
          · cases h
            exact huses

theorem Tcp.accept_uses {fd s u ret : ℤ} {k k' : NetKernel}
    (h : Tcp.accept fd s u k = some (ret, k')) : UsesSet fd true k.fdSets k'.fdSets := by
  obtain ⟨⟨o, k₁⟩, hselect, h⟩ := Option.bind_eq_some_iff.mp h
  have huses := NetKernel.select_uses hselect
  rcases o with en | _ | _ | _
  · cases h
    exact huses
  · cases h
    exact huses
  · cases h
    exact huses
  · obtain ⟨⟨o, k₂⟩, haccept, h⟩ := Option.map_eq_some_iff.mp h
    rw [← NetKernel.accept_fdSets haccept] at huses
    rcases o with en | fd'
    · cases h
      exact huses
    · cases h
      exact huses

/-- The loop on the wake pipe. -/
theorem drainLoop_uses {pfd0 : ℤ} (selects : List SelectOutcome) (k : Kernel) {k' : Kernel}
    (h : drainLoop pfd0 selects k = some k') : UsesSet pfd0 true k.fdSets k'.fdSets := by
  induction selects generalizing k with
  | nil => cases h
  | cons o selects ih =>
    rcases o with en | _ | _ | _
    · cases h
      exact .some pfd0 k.fdSets 0
    · cases h
      exact .some pfd0 k.fdSets 0
    · cases h
      exact .some pfd0 k.fdSets 2
    · simp only [drainLoop] at h
      split at h
      · cases h
      · exact (UsesSet.some pfd0 k.fdSets 2).trans (ih _ h)

theorem SimpleTask.drain_uses {pfd0 : ℤ} {k k' : Kernel} (h : SimpleTask.drain pfd0 k = some k') :
    UsesSet pfd0 (decide (pfd0 > 0)) k.fdSets k'.fdSets := by
  rw [SimpleTask.drain] at h
  split at h
  · rename_i hpos
    rw [decide_eq_true hpos]
    exact drainLoop_uses _ _ h
  · rename_i hpos
    cases h
    rw [decide_eq_false hpos]
    exact .refl pfd0 k.fdSets

theorem Tcp.recv_uses {fd : ℤ} {c : ReadCall} {k k' : NetKernel} {r : ReadResult}
    (h : Tcp.recv fd c.buf c.size c.s c.u k = some (r, k')) :
    UsesSet fd (!c.fails Tcp.badFd fd) k.fdSets k'.fdSets := by
  obtain ⟨⟨r', k₁⟩, hrecv, heq⟩ := Option.map_eq_some_iff.mp h
  cases heq
  exact recvFd_uses hrecv

theorem Udp.send_uses {inet_aton : String → Option UInt32} {fd : ℤ} {c : ReadCall}
    {_ip : Option String} {_port ret : ℤ} {sa : SockAddr} {sas : List SockAddr} {k k' : Kernel}
    (h : Udp.send inet_aton fd c.buf c.size _ip _port c.s c.u sa k = some (ret, sas, k')) :
    UsesSet fd (!(_ip.isNone || c.fails (fun _ => false) fd)) k.fdSets k'.fdSets := by
  rcases _ip with _ | ip
  · cases h
    exact .refl fd k.fdSets
  · obtain ⟨⟨ret', k₁⟩, hwrite, heq⟩ := Option.map_eq_some_iff.mp h
    cases heq
    exact writeFd_uses hwrite

theorem Udp.recv_uses {inet_ntoa : UInt32 → String} {fd : ℤ} {c : ReadCall} {_ip : Option String}
    {_port : Option ℤ} {k k' : NetKernel} {r : UdpRecvResult}
    (h : Udp.recv inet_ntoa fd c.buf c.size _ip _port c.s c.u k = some (r, k')) :
    UsesSet fd (!c.fails (fun _ => false) fd) k.fdSets k'.fdSets := by
  obtain ⟨⟨r', k₁⟩, hrecv, heq⟩ := Option.map_eq_some_iff.mp h
  have huses := recvFd_uses hrecv
  dsimp only at heq
  -- whether there is a sender or not
  split at heq
  · cases heq
    exact huses
  · cases heq
    exact huses

/-! ### The ten methods -/

/-- A call of one of them.  The arguments of a write are those of a read. -/
inductive FdCall where
  | serialWrite (c : ReadCall)
  | serialRead (c : ReadCall)
  | extFdWrite (c : ReadCall)
  | extFdRead (c : ReadCall)
  | tcpSend (c : ReadCall)
  | tcpRecv (c : ReadCall)
  | tcpAccept (_s _u : ℤ)
  | udpSend (c : ReadCall) (_ip : Option String) (_port : ℤ) (sa : SockAddr)
  | udpRecv (c : ReadCall) (_ip : Option String) (_port : Option ℤ)
  | execTask

/-- The checks of the method fail. -/
def FdCall.rejects (m : FdCall) (fd : ℤ) : Bool :=
  match m with
  | .serialWrite c | .serialRead c => c.fails Serial.badFd fd
  | .extFdWrite c | .extFdRead c => c.fails ExtFd.badFd fd
  | .tcpSend c | .tcpRecv c => c.fails Tcp.badFd fd
  | .tcpAccept _ _ => false
  | .udpSend c _ip _ _ => _ip.isNone || c.fails (fun _ => false) fd
  | .udpRecv c _ _ => c.fails (fun _ => false) fd
  | .execTask => !(fd > 0)

/-- The arguments of the call are refused, whatever the descriptor is. -/
def FdCall.badArgs : FdCall → Bool
  | .serialWrite c | .serialRead c | .extFdWrite c | .extFdRead c => !c.valid
  | .tcpSend c | .tcpRecv c | .udpRecv c _ _ => !c.valid
  | .udpSend c _ip _ _ => _ip.isNone || !c.valid
  | .tcpAccept _ _ | .execTask => false

/-- The method looks at the descriptor: all but `Tcp::accept`, `Udp::send` and
`Udp::recv`. -/
def FdCall.looks : FdCall → Bool
  | .tcpAccept .. | .udpSend .. | .udpRecv .. => false
  | _ => true

/-- Then it does not go on with the descriptor of an object that is not open. -/
theorem FdCall.rejects_of_neg {m : FdCall} (hlooks : m.looks) {fd : ℤ} (hfd : fd < 0) :
    m.rejects fd = true := by
  have hneg : Serial.badFd fd = true := decide_eq_true hfd
  have hnonpos : Tcp.badFd fd = true := decide_eq_true hfd.le
  cases m with
  | serialWrite c | serialRead c | extFdWrite c | extFdRead c =>
    exact ReadCall.fails_iff.mpr (.inr hneg)
  | tcpSend c | tcpRecv c => exact ReadCall.fails_iff.mpr (.inr hnonpos)
  | execTask =>
    rw [FdCall.rejects, decide_eq_false (not_lt.mpr hfd.le)]
    rfl
  | tcpAccept | udpSend | udpRecv => cases hlooks

theorem FdCall.rejects_of_badArgs {m : FdCall} (h : m.badArgs = true) (fd : ℤ) :
    m.rejects fd = true := by
  cases m with
  | serialWrite c | serialRead c | extFdWrite c | extFdRead c | tcpSend c | tcpRecv c =>
    exact ReadCall.fails_iff.mpr (.inl h)
  | udpRecv c =>
    show c.fails (fun _ => false) fd = true
    exact ReadCall.fails_iff.mpr (.inl h)
  | udpSend c _ip =>
    apply Bool.or_eq_true_iff.mpr
    exact (Bool.or_eq_true_iff.mp h).imp_right fun hvalid => ReadCall.fails_iff.mpr (.inl hvalid)
  | tcpAccept | execTask => cases h

/-- There is no other reason to reject a call: every method goes on with a descriptor that
is positive. -/
theorem FdCall.badArgs_or_of_rejects {m : FdCall} {fd : ℤ} (h : m.rejects fd = true) :
    m.badArgs = true ∨ m.looks = true ∧ fd ≤ 0 := by
  cases m with
  | serialWrite c | serialRead c | extFdWrite c | extFdRead c =>
    refine (ReadCall.fails_iff.mp h).imp_right fun hneg => ⟨rfl, ?_⟩
    exact (of_decide_eq_true hneg).le
  | tcpSend c | tcpRecv c =>
    refine (ReadCall.fails_iff.mp h).imp_right fun hnonpos => ⟨rfl, ?_⟩
    exact of_decide_eq_true hnonpos
  | udpRecv c =>
    have hfails : c.fails (fun _ => false) fd = true := h
    exact .inl ((ReadCall.fails_iff.mp hfails).resolve_right Bool.false_ne_true)
  | udpSend c _ip =>
    refine .inl (Bool.or_eq_true_iff.mpr ?_)
    refine (Bool.or_eq_true_iff.mp h).imp_right fun hfails => ?_
    exact (ReadCall.fails_iff.mp hfails).resolve_right Bool.false_ne_true
  | tcpAccept => cases h
  | execTask =>
    refine .inr ⟨rfl, not_lt.mp ?_⟩
    simpa [FdCall.rejects] using h

section Net

variable (inet_aton : String → Option UInt32) (inet_ntoa : UInt32 → String)

/-- The indices used so far, after the call. -/
def FdCall.fdSets (m : FdCall) (fd : ℤ) (k : NetKernel) : Option (List ℤ) :=
  match m with
  | .serialWrite c => (Serial.write fd c.buf c.size c.s c.u k.toKernel).map fun (_, k) => k.fdSets
  | .serialRead c => (Serial.read fd c k.toKernel).map fun (_, k) => k.fdSets
  | .extFdWrite c => (ExtFd.write fd c.buf c.size c.s c.u k.toKernel).map fun (_, k) => k.fdSets
  | .extFdRead c => (ExtFd.read fd c k.toKernel).map fun (_, k) => k.fdSets
  | .tcpSend c => (Tcp.send fd c.buf c.size c.s c.u k.toKernel).map fun (_, k) => k.fdSets
  | .tcpRecv c => (Tcp.recv fd c.buf c.size c.s c.u k).map fun (_, k) => k.fdSets
  | .tcpAccept _s _u => (Tcp.accept fd _s _u k).map fun (_, k) => k.fdSets
  | .udpSend c _ip _port sa =>
      (Udp.send inet_aton fd c.buf c.size _ip _port c.s c.u sa k.toKernel).map
        fun (_, _, k) => k.fdSets
  | .udpRecv c _ip _port =>
      (Udp.recv inet_ntoa fd c.buf c.size _ip _port c.s c.u k).map fun (_, k) => k.fdSets
  | .execTask => (SimpleTask.drain fd k.toKernel).map Kernel.fdSets

variable {inet_aton inet_ntoa}

/-- **What the methods use.**  The descriptor of the object, or nothing if the checks
fail. -/
theorem FdCall.uses {m : FdCall} {fd : ℤ} {k : NetKernel} {after : List ℤ}
    (h : m.fdSets inet_aton inet_ntoa fd k = some after) :
    UsesSet fd (!m.rejects fd) k.fdSets after := by
  cases m with
  | serialWrite c | extFdWrite c | tcpSend c =>
    obtain ⟨⟨ret, k'⟩, hwrite, rfl⟩ := Option.map_eq_some_iff.mp h
    exact writeFd_uses hwrite
  | serialRead c | extFdRead c =>
    obtain ⟨⟨r, k'⟩, hread, rfl⟩ := Option.map_eq_some_iff.mp h
    exact readFd_uses hread
  | tcpRecv c =>
    obtain ⟨⟨r, k'⟩, hrecv, rfl⟩ := Option.map_eq_some_iff.mp h
    exact Tcp.recv_uses hrecv
  | tcpAccept _s _u =>
    obtain ⟨⟨ret, k'⟩, haccept, rfl⟩ := Option.map_eq_some_iff.mp h
    exact Tcp.accept_uses haccept
  | udpSend c _ip _port sa =>
    obtain ⟨⟨ret, sas, k'⟩, hsend, rfl⟩ := Option.map_eq_some_iff.mp h
    exact Udp.send_uses hsend
  | udpRecv c _ip _port =>
    obtain ⟨⟨r, k'⟩, hrecv, rfl⟩ := Option.map_eq_some_iff.mp h
    exact Udp.recv_uses hrecv
  | execTask =>
    obtain ⟨k', hdrain, rfl⟩ := Option.map_eq_some_iff.mp h
    rw [FdCall.rejects, Bool.not_not]
    exact SimpleTask.drain_uses hdrain

end Net

/-! ### Objects -/

/-- What holds a descriptor that is waited on. -/
inductive FdUser where
  | owner (C : FdClass)
  | extFd (_fd : ℤ)
  | simpleTask

/-- The object after its constructor.  The `fd` of a `SimpleTask` is `pfd[0]`. -/
def FdUser.constructed : FdUser → FdObject
  | .owner _ | .simpleTask => .initial
  | .extFd _fd => { fd := _fd, log := [] }

/-- The methods of the class. -/
def FdUser.has : FdUser → FdCall → Bool
  | .owner .serial, .serialWrite _ | .owner .serial, .serialRead _ => true
  | .extFd _, .extFdWrite _ | .extFd _, .extFdRead _ => true
  | .owner (.tcp _), .tcpSend _ | .owner (.tcp _), .tcpRecv _ => true
  | .owner (.tcp _), .tcpAccept _ _ => true
  | .owner (.udp _), .udpSend .. | .owner (.udp _), .udpRecv .. => true
  | .simpleTask, .execTask => true
  | _, _ => false

structure FdSetState where
  obj : FdObject
  /-- The indices used so far. -/
  fdSets : List ℤ

inductive FdSetAction where
  | open (k : OpenOutcome)
  | close (recvs : List RecvOutcome)
  /-- `setfd`, or an assignment to `pfd[0]`. -/
  | setfd (_fd : ℤ)
  | call (m : FdCall) (k : NetKernel)

/-- One operation.  A call that does not return touches no other index than one that
is given more outcomes and returns. -/
def fdSetStep (inet_aton : String → Option UInt32) (inet_ntoa : UInt32 → String) (C : FdUser)
    (s : FdSetState) : FdSetAction → Option FdSetState
  | .open k =>
      match C with
      | .owner C => (C.open inet_aton s.obj k).map fun (_, o) => { s with obj := o }
      | .extFd _ | .simpleTask => none
  | .close recvs =>
      match C with
      | .owner C => (C.close s.obj recvs).map fun o => { s with obj := o }
      | .extFd _ | .simpleTask => none
  | .setfd _fd =>
      match C with
      | .owner (.tcp _) | .simpleTask => some { s with obj := { s.obj with fd := _fd } }
      | .owner .serial | .owner (.udp _) | .extFd _ => none
  | .call m k =>
      if C.has m then
        (m.fdSets inet_aton inet_ntoa s.obj.fd { k with fdSets := s.fdSets }).map fun fdSets =>
          { s with fdSets := fdSets }
      else none

/-! ### Every run -/

def FD_SETSIZE : ℤ := 1024

def IsFdIndex (i : ℤ) : Prop := 0 ≤ i ∧ i < FD_SETSIZE

instance (i : ℤ) : Decidable (IsFdIndex i) := inferInstanceAs (Decidable (_ ∧ _))

/-- What a call needs: a descriptor below `FD_SETSIZE`, which is also not negative for the
three methods that do not look at it; or arguments that are refused. -/
def FdCall.Fits (m : FdCall) (fd : ℤ) : Prop :=
  m.badArgs = true ∨ fd < FD_SETSIZE ∧ (m.looks = false → 0 ≤ fd)

instance (m : FdCall) (fd : ℤ) : Decidable (m.Fits fd) := inferInstanceAs (Decidable (_ ∨ _))

/-- **What the checks of the ten methods come to.** -/
theorem FdCall.fits_iff (m : FdCall) (fd : ℤ) :
    m.Fits fd ↔ m.rejects fd = true ∨ IsFdIndex fd := by
  constructor
  · rintro (hbad | ⟨hlt, hneg⟩)
    · exact .inl (FdCall.rejects_of_badArgs hbad fd)
    · by_cases hfd : 0 ≤ fd
      · exact .inr ⟨hfd, hlt⟩
      · -- the checks of the method keep a negative descriptor out
        have hlooks : m.looks = true := by
          apply Bool.not_eq_false _ |>.mp
          intro hlooks
          exact hfd (hneg hlooks)
        exact .inl (FdCall.rejects_of_neg hlooks (not_le.mp hfd))
  · rintro (hrejects | ⟨hfd, hlt⟩)
    · rcases FdCall.badArgs_or_of_rejects hrejects with hbad | ⟨hlooks, hfd⟩
      · exact .inl hbad
      · refine .inr ⟨hfd.trans_lt (by decide), ?_⟩
        rw [hlooks]
        intro h
        cases h
    · exact .inr ⟨hlt, fun _ => hfd⟩

/-- Each call of a method fits the descriptor that the operations before have left. -/
def CallsFit (s : FdSetState) : FdSetAction → Prop
  | .call m _ => m.Fits s.obj.fd
  | .open _ | .close _ | .setfd _ => True

instance (s : FdSetState) : (a : FdSetAction) → Decidable (CallsFit s a)
  | .call m _ => inferInstanceAs (Decidable (m.Fits _))
  | .open _ | .close _ | .setfd _ => isTrue trivial

section Steps

variable {inet_aton : String → Option UInt32} {inet_ntoa : UInt32 → String} {C : FdUser}
  {s s' : FdSetState} {a : FdSetAction}

/-- Only a call uses an index, and it uses the descriptor of the object. -/
theorem fdSetStep_uses (h : fdSetStep inet_aton inet_ntoa C s a = some s') :
    CallsFit s a ∧ s'.fdSets = s.fdSets ∨
      ∃ m k, a = .call m k ∧ UsesSet s.obj.fd (!m.rejects s.obj.fd) s.fdSets s'.fdSets := by
  cases a with
  | «open» k =>
    rcases C with C | fd | _
    · obtain ⟨r, -, rfl⟩ := Option.map_eq_some_iff.mp h
      exact .inl ⟨trivial, rfl⟩
    · cases h
    · cases h
  | close recvs =>
    rcases C with C | fd | _
    · obtain ⟨o, -, rfl⟩ := Option.map_eq_some_iff.mp h
      exact .inl ⟨trivial, rfl⟩
    · cases h
    · cases h
  | setfd fd =>
    simp only [fdSetStep] at h
    split at h
    · cases h
      exact .inl ⟨trivial, rfl⟩
    · cases h
      exact .inl ⟨trivial, rfl⟩
    · cases h
    · cases h
    · cases h
  | call m k =>
    simp only [fdSetStep] at h
    split at h
    · obtain ⟨after, hcall, rfl⟩ := Option.map_eq_some_iff.mp h
      exact .inr ⟨m, k, rfl, FdCall.uses hcall⟩
    · cases h

/-- A call that fits keeps the indices in range. -/
theorem isFdIndex_step (s : FdSetState) (a : FdSetAction) (s' : FdSetState)
    (hs : ∀ i ∈ s.fdSets, IsFdIndex i) (ha : CallsFit s a)
    (h : fdSetStep inet_aton inet_ntoa C s a = some s') : ∀ i ∈ s'.fdSets, IsFdIndex i := by
  rcases fdSetStep_uses h with ⟨-, heq⟩ | ⟨m, k, rfl, n, heq, hn⟩
  · rw [heq]
    exact hs
  · rw [heq]
    intro i hi
    rcases List.mem_append.mp hi with hi | hi
    · exact hs i hi
    · obtain ⟨hne, rfl⟩ := List.mem_replicate.mp hi
      rcases (m.fits_iff s.obj.fd).mp ha with hrejects | hindex
      · exact absurd (hn.mpr (by rw [hrejects]; rfl)) hne
      · exact hindex

/-- Another call does not. -/
theorem not_isFdIndex_step (s : FdSetState) (a : FdSetAction) (s' : FdSetState)
    (ha : ¬ CallsFit s a) (h : fdSetStep inet_aton inet_ntoa C s a = some s') :
    ∃ i ∈ s'.fdSets, ¬ IsFdIndex i := by
  rcases fdSetStep_uses h with ⟨hfits, -⟩ | ⟨m, k, rfl, n, heq, hn⟩
  · exact absurd hfits ha
  · obtain ⟨hrejects, hindex⟩ := not_or.mp (mt (m.fits_iff s.obj.fd).mpr ha)
    refine ⟨s.obj.fd, ?_, hindex⟩
    rw [heq]
    refine List.mem_append_right _ (List.mem_replicate.mpr ⟨?_, rfl⟩)
    intro hzero
    apply hrejects
    simpa only [Bool.not_eq_false'] using hn.mp hzero

/-- An index that was used stays used. -/
theorem fdSets_subset (h : fdSetStep inet_aton inet_ntoa C s a = some s') :
    s.fdSets ⊆ s'.fdSets := by
  rcases fdSetStep_uses h with ⟨-, heq⟩ | ⟨m, k, rfl, n, heq, hn⟩
  · rw [heq]
    exact List.Subset.refl _
  · rw [heq]
    exact List.subset_append_left _ _

end Steps

/-- **When the indices are in range.**  In every run of the operations on an object:
exactly if each method is called on a descriptor below `FD_SETSIZE`, and `Tcp::accept`,
`Udp::send` and `Udp::recv` on one that is not negative, or with arguments that are
refused. -/
theorem fdSets_in_range_iff {inet_aton : String → Option UInt32} {inet_ntoa : UInt32 → String}
    {C : FdUser} {as : List FdSetAction} {s : FdSetState}
    (h : run (fdSetStep inet_aton inet_ntoa C) ⟨C.constructed, []⟩ as = some s) :
    (∀ i ∈ s.fdSets, IsFdIndex i) ↔
      RunMeets (fdSetStep inet_aton inet_ntoa C) (fun s a _ => CallsFit s a)
        ⟨C.constructed, []⟩ as := by
  have hor := run_invariant_or (I := fun s : FdSetState => ∀ i ∈ s.fdSets, IsFdIndex i)
    (J := fun s => ∃ i ∈ s.fdSets, ¬ IsFdIndex i) (G := fun s a _ => CallsFit s a)
    isFdIndex_step (fun s a s' _ => not_isFdIndex_step s a s') ?_
    (fun _ hi => absurd hi List.not_mem_nil) h
  · rcases hor with ⟨hmeets, hindex⟩ | ⟨hnot, i, hi, hout⟩
    · exact iff_of_true hindex hmeets
    · exact iff_of_false (fun hall => hout (hall i hi)) hnot
  · -- the object goes on after an index that is out of range
    rintro s a s' ⟨i, hi, hout⟩ hstep
    exact ⟨i, fdSets_subset hstep hi, hout⟩

/-- A kernel that says that the descriptor is ready. -/
def isReady : NetKernel :=
  { selects := [.ready true], reads := [], writes := [.count 1 0], fdSets := [], consumed := []
    handed := [], inputs := [], accepts := [.accepted 5] }

/-- The arguments for one byte. -/
def oneByte : ReadCall := ⟨some fun _ => 65, 1, 0, 0⟩

/-- A client sends a byte, is destroyed, and its `recv` is rejected. -/
theorem fdSets_in_range_client :
    ∃ s, run (fdSetStep (fun _ => none) (fun _ => "") (.owner (.tcp ⟨TCP_CLIENT, "", 80⟩)))
        ⟨.initial, []⟩ [.open (succeeds 3), .call (.tcpSend oneByte) isReady, .close [.eof],
          .call (.tcpRecv oneByte) isReady] = some s ∧
      s.fdSets = [3, 3] ∧ ∀ i ∈ s.fdSets, IsFdIndex i := by
  obtain ⟨s, hrun, hsets⟩ :
      ∃ s, run (fdSetStep (fun _ => none) (fun _ => "") (.owner (.tcp ⟨TCP_CLIENT, "", 80⟩)))
          ⟨.initial, []⟩ [.open (succeeds 3), .call (.tcpSend oneByte) isReady, .close [.eof],
            .call (.tcpRecv oneByte) isReady] = some s ∧ s.fdSets = [3, 3] := ⟨_, rfl, rfl⟩
  exact ⟨s, hrun, hsets, (fdSets_in_range_iff hrun).mpr (by decide)⟩

/-- `Udp::send` and `Tcp::accept` use the descriptor of an object that was not opened,
and `Serial::write` one for which there is no room. -/
theorem fdSets_out_of_range :
    ((run (fdSetStep (fun _ => none) (fun _ => "") (.owner (.udp ⟨80⟩))) ⟨.initial, []⟩
        [.call (.udpSend oneByte (some "") 80 ⟨0, (0, 0), 0⟩) isReady]).map FdSetState.fdSets =
          some [-1, -1] ∧
      (run (fdSetStep (fun _ => none) (fun _ => "") (.owner (.tcp ⟨TCP_SERVER, "", 80⟩)))
        ⟨.initial, []⟩ [.call (.tcpAccept 0 0) isReady]).map FdSetState.fdSets =
          some [-1, -1] ∧
      (run (fdSetStep (fun _ => none) (fun _ => "") (.owner .serial)) ⟨.initial, []⟩
        [.open (succeeds 1024), .call (.serialWrite oneByte) isReady]).map FdSetState.fdSets =
          some [1024, 1024]) ∧
      ¬ IsFdIndex (-1) ∧ ¬ IsFdIndex 1024 :=
  ⟨⟨rfl, rfl, rfl⟩, by decide, by decide⟩

end LinuxDemo

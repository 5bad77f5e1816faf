/-
LinuxDemo/FdOwner.lean

When `Serial`, `Tcp` and `Udp` close every descriptor they obtain.

The classes agree on what `open` and `close` do to the descriptor: `open` puts
a new one in `fd`, whatever was there, and closes it again if a later inner
call fails; and every close tests `fd > 0`.  So a descriptor is closed once if
it is not 0 and the object held none when it got it (`OneAtATime`), and a
descriptor that breaks this is never closed: the field has lost it, or the
test has.  `Owns` of the log is the invariant of the runs that keep to it, and
`Lost` is the invariant of the runs that do not.
-/
import LinuxDemo.FdObject
import LinuxDemo.Lib.Runs

namespace LinuxDemo

inductive FdClass where
  | serial
  | tcp (c : Tcp)
  | udp (c : Udp)

/-- `Serial::open`, `Tcp::create` or `Udp::create`. -/
def FdClass.open (inet_aton : String → Option UInt32) :
    FdClass → FdObject → OpenOutcome → Option (Bool × FdObject)
  | .serial, o, k => some (Serial.open o k)
  | .tcp c, o, k => (Tcp.create inet_aton c o k).map fun (ok, _, o) => (ok, o)
  | .udp c, o, k =>
      let (ok, _, o) := Udp.create c o k
      some (ok, o)

/-- `Serial::close`, `Tcp::destroy` or `Udp::destroy`; the destructor is one
more call of it. -/
def FdClass.close : FdClass → FdObject → List RecvOutcome → Option FdObject
  | .serial, o, _ => some (Serial.close o)
  | .tcp _, o, recvs => Tcp.destroy o recvs
  | .udp _, o, _ => some (Udp.destroy o)

/-- The argument checks of the class reject the descriptor. -/
def FdClass.rejects : FdClass → ℤ → Bool
  | .serial => Serial.badFd
  | .tcp _ => Tcp.badFd
  | .udp _ => fun _ => false

/-! ### What `open` and `close` do to the descriptor -/

/-- What every close does, when it returns. -/
def FdObject.closed (o : FdObject) : FdObject := if o.fd > 0 then o.closeFd else o

/-- The drain loop of `Tcp::destroy` does nothing to the object. -/
theorem Tcp.destroy_eq {o o' : FdObject} {recvs : List RecvOutcome}
    (h : Tcp.destroy o recvs = some o') : o' = o.closed := by
  rw [Tcp.destroy] at h
  rw [FdObject.closed]
  by_cases hfd : o.fd > 0
  · simp only [hfd, decide_true, Bool.not_true, Bool.false_eq_true, if_false,
      Option.map_eq_some_iff] at h
    obtain ⟨r, -, rfl⟩ := h
    rw [if_pos hfd]
  · simp only [hfd, decide_false, Bool.not_false, if_true, Option.some.injEq] at h
    rw [if_neg hfd, h]

theorem FdClass.close_eq {C : FdClass} {o o' : FdObject} {recvs : List RecvOutcome}
    (h : C.close o recvs = some o') : o' = o.closed := by
  cases C with
  | serial => exact (Option.some.inj h).symm
  | tcp c => exact Tcp.destroy_eq h
  | udp c => exact (Option.some.inj h).symm

/-- What every `open` does: it leaves the object alone, or it puts the
descriptor in `fd`, or it does so and closes it again. -/
inductive OpenMoves (o : FdObject) (k : OpenOutcome) : FdObject → Prop
  | failed (hret : k.ret < 0) : OpenMoves o k o
  | obtained (hret : 0 ≤ k.ret) : OpenMoves o k (o.obtain k.ret)
  | closedAgain (hret : 0 ≤ k.ret) : OpenMoves o k (o.obtain k.ret).closed

theorem Serial.open_moves (o : FdObject) (k : OpenOutcome) :
    OpenMoves o k (Serial.open o k).2 := by
  rw [Serial.open]
  split
  · exact .failed ‹_›
  · rename_i hret
    dsimp only
    split
    · exact .closedAgain (Int.not_lt.mp hret)
    · exact .obtained (Int.not_lt.mp hret)

/-- `Tcp::create` after a failed inner call. -/
theorem Tcp.create_failed {o o' : FdObject} {k : OpenOutcome} {sas sas' : List SockAddr}
    {ok : Bool} (hret : 0 ≤ k.ret)
    (h : ((Tcp.destroy (o.obtain k.ret) k.recvs).map fun o => (false, sas, o)) =
      some (ok, sas', o')) : OpenMoves o k o' := by
  obtain ⟨o₁, hdestroy, heq⟩ := Option.map_eq_some_iff.mp h
  cases heq
  rw [Tcp.destroy_eq hdestroy]
  exact .closedAgain hret

theorem Tcp.create_moves {inet_aton : String → Option UInt32} {c : Tcp} {o o' : FdObject}
    {k : OpenOutcome} {ok : Bool} {sas : List SockAddr}
    (h : Tcp.create inet_aton c o k = some (ok, sas, o')) : OpenMoves o k o' := by
  rw [Tcp.create] at h
  split at h
  · cases h
    exact .failed ‹_›
  · rename_i hneg
    have hret : 0 ≤ k.ret := Int.not_lt.mp hneg
    dsimp only at h
    split at h
    · -- a client
      split at h
      · exact Tcp.create_failed hret h
      · cases h
        exact .obtained hret
    · split at h
      · -- a server
        split at h
        · exact Tcp.create_failed hret h
        · split at h
          · exact Tcp.create_failed hret h
          · cases h
            exact .obtained hret
      · cases h
        exact .obtained hret

theorem Udp.create_moves (c : Udp) (o : FdObject) (k : OpenOutcome) :
    OpenMoves o k (Udp.create c o k).2.2 := by
  rw [Udp.create]
  split
  · exact .failed ‹_›
  · rename_i hret
    dsimp only
    split
    · exact .closedAgain (Int.not_lt.mp hret)
    · exact .obtained (Int.not_lt.mp hret)

theorem FdClass.open_moves {inet_aton : String → Option UInt32} {C : FdClass}
    {o o' : FdObject} {k : OpenOutcome} {ok : Bool} (h : C.open inet_aton o k = some (ok, o')) :
    OpenMoves o k o' := by
  cases C with
  | serial =>
    have hserial := Serial.open_moves o k
    rwa [Option.some.inj h] at hserial
  | tcp c =>
    obtain ⟨⟨ok', sas, o₁⟩, hcreate, heq⟩ := Option.map_eq_some_iff.mp h
    cases heq
    exact Tcp.create_moves hcreate
  | udp c =>
    cases h
    exact Udp.create_moves c o k

/-! ### Sequences of operations -/

/-- An object in use.  `returned` says that the last `open` that obtained a
descriptor returned true. -/
structure FdOwner where
  obj : FdObject
  returned : Bool

def FdOwner.initial : FdOwner := { obj := .initial, returned := false }

inductive FdAction where
  | open (k : OpenOutcome)
  | close (recvs : List RecvOutcome)

/-- One operation.  The kernel gives out no descriptor that is open. -/
def fdStep (inet_aton : String → Option UInt32) (C : FdClass) (s : FdOwner) :
    FdAction → Option FdOwner
  | .open k =>
      if 0 ≤ k.ret ∧ IsOpen s.obj.log k.ret then none
      else
        (C.open inet_aton s.obj k).map fun (ok, o) =>
          { obj := o, returned := if k.ret < 0 then s.returned else ok }
  | .close recvs => (C.close s.obj recvs).map fun o => { s with obj := o }

/-- A descriptor is obtained only by an object that holds none, and is not 0. -/
def OneAtATime (s : FdOwner) : FdAction → Prop
  | .open k => 0 ≤ k.ret → k.ret ≠ 0 ∧ s.obj.fd < 0
  | .close _ => True

instance (s : FdOwner) : (a : FdAction) → Decidable (OneAtATime s a)
  | .open _ => inferInstanceAs (Decidable (_ → _))
  | .close _ => isTrue trivial

/-- The descriptor the object holds, if its `fd` is one. -/
def FdObject.held (o : FdObject) : Option ℤ := if 0 ≤ o.fd then some o.fd else none

/-- The object owns what it holds, and holds nothing that its close passes
over. -/
structure OwnerInv (o : FdObject) : Prop where
  owns : Owns o.log o.held
  once : NoneTwice o.log
  nonzero : o.fd ≠ 0

/-- A descriptor is open that no later close will find. -/
def Lost (o : FdObject) : Prop := ∃ fd, 0 ≤ fd ∧ IsOpen o.log fd ∧ (fd = 0 ∨ fd ≠ o.fd)

theorem ownerInv_initial : OwnerInv .initial := ⟨owns_nil, noneTwice_nil, by decide⟩

theorem OwnerInv.obtain {o : FdObject} (h : OwnerInv o) {ret : ℤ} (hret : 0 ≤ ret)
    (hone : ret ≠ 0 ∧ o.fd < 0) : OwnerInv (o.obtain ret) := by
  have hnone : o.held = none := if_neg (by omega)
  have howns := h.owns
  rw [hnone] at howns
  refine ⟨?_, h.once.acquire ret, hone.1⟩
  rw [FdObject.held, FdObject.obtain, if_pos hret]
  exact howns.acquire ret

theorem OwnerInv.closed {o : FdObject} (h : OwnerInv o) : OwnerInv o.closed := by
  rw [FdObject.closed]
  split
  · rename_i hfd
    have hsome : o.held = some o.fd := if_pos (by omega)
    have howns := h.owns
    rw [hsome] at howns
    exact ⟨howns.release, h.once.release howns.isOpen, nofun⟩
  · exact h

/-- After the destructor nothing is left open. -/
theorem OwnerInv.closedOnce {o : FdObject} (h : OwnerInv o) : ClosedOnce o.closed.log := by
  have hneg : o.closed.fd < 0 := by
    rw [FdObject.closed]
    split
    · exact neg_one_lt_zero
    · have := h.nonzero
      omega
  have howns := h.closed.owns
  rw [FdObject.held, if_neg (by omega)] at howns
  exact howns.closedOnce

theorem Lost.obtain {o : FdObject} (h : Lost o) {ret : ℤ} (hfresh : ¬ IsOpen o.log ret) :
    Lost (o.obtain ret) := by
  obtain ⟨fd, hfd, hopen, -⟩ := h
  refine ⟨fd, hfd, hopen.acquire ret, .inr ?_⟩
  rintro rfl
  exact hfresh hopen

theorem Lost.closed {o : FdObject} (h : Lost o) : Lost o.closed := by
  obtain ⟨fd, hfd, hopen, hlost⟩ := h
  rw [FdObject.closed]
  split
  · rename_i hpos
    refine ⟨fd, hfd, hopen.release (by omega), .inr ?_⟩
    simp only [FdObject.closeFd]
    omega
  · exact ⟨fd, hfd, hopen, hlost⟩

/-- A descriptor that is 0, or that takes the place of another one, makes the
object lose one. -/
theorem OwnerInv.lost {o : FdObject} (h : OwnerInv o) {ret : ℤ} (hret : 0 ≤ ret)
    (hfresh : ¬ IsOpen o.log ret) (hnot : ¬ (ret ≠ 0 ∧ o.fd < 0)) : Lost (o.obtain ret) := by
  by_cases hzero : ret = 0
  · exact ⟨ret, hret, h.once.isOpen_acquire ret, .inl hzero⟩
  · have hfd : 0 ≤ o.fd := by
      by_contra hneg
      exact hnot ⟨hzero, by omega⟩
    have howns := h.owns
    rw [FdObject.held, if_pos hfd] at howns
    refine ⟨o.fd, hfd, howns.isOpen.acquire ret, .inr ?_⟩
    intro heq
    -- then the new descriptor was open
    apply hfresh
    rw [← show o.fd = ret from heq]
    exact howns.isOpen

/-! ### Steps -/

section Steps

variable {inet_aton : String → Option UInt32} {C : FdClass}

/-- What an operation does to the object. -/
theorem fdStep_cases {s s' : FdOwner} {a : FdAction} (h : fdStep inet_aton C s a = some s') :
    (∃ recvs, a = .close recvs ∧ s'.obj = s.obj.closed) ∨
      (∃ k, a = .open k ∧ k.ret < 0 ∧ s'.obj = s.obj) ∨
      ∃ k, a = .open k ∧ 0 ≤ k.ret ∧ ¬ IsOpen s.obj.log k.ret ∧
        (s'.obj = s.obj.obtain k.ret ∨ s'.obj = (s.obj.obtain k.ret).closed) := by
  cases a with
  | close recvs =>
    obtain ⟨o, hclose, rfl⟩ := Option.map_eq_some_iff.mp h
    exact .inl ⟨recvs, rfl, FdClass.close_eq hclose⟩
  | «open» k =>
    simp only [fdStep, Option.ite_none_left_eq_some] at h
    obtain ⟨hfresh, h⟩ := h
    obtain ⟨⟨ok, o⟩, hopen, rfl⟩ := Option.map_eq_some_iff.mp h
    cases FdClass.open_moves hopen with
    | failed hneg => exact .inr (.inl ⟨k, rfl, hneg, rfl⟩)
    | obtained hret =>
      exact .inr (.inr ⟨k, rfl, hret, fun hopen => hfresh ⟨hret, hopen⟩, .inl rfl⟩)
    | closedAgain hret =>
      exact .inr (.inr ⟨k, rfl, hret, fun hopen => hfresh ⟨hret, hopen⟩, .inr rfl⟩)

/-- An operation that obtains one descriptor at a time keeps the invariant. -/
theorem ownerInv_step (s : FdOwner) (a : FdAction) (s' : FdOwner) (hs : OwnerInv s.obj)
    (hone : OneAtATime s a) (h : fdStep inet_aton C s a = some s') : OwnerInv s'.obj := by
  rcases fdStep_cases h with ⟨recvs, -, hobj⟩ | ⟨k, -, -, hobj⟩ | ⟨k, rfl, hret, -, hobj | hobj⟩
  · rw [hobj]
    exact hs.closed
  · rw [hobj]
    exact hs
  · rw [hobj]
    exact hs.obtain hret (hone hret)
  · rw [hobj]
    exact (hs.obtain hret (hone hret)).closed

/-- An operation that does not loses a descriptor. -/
theorem lost_step_of_not (s : FdOwner) (a : FdAction) (s' : FdOwner) (hs : OwnerInv s.obj)
    (hone : ¬ OneAtATime s a) (h : fdStep inet_aton C s a = some s') : Lost s'.obj := by
  rcases fdStep_cases h with ⟨recvs, rfl, -⟩ | ⟨k, rfl, hneg, -⟩ | ⟨k, rfl, hret, hfresh, hobj⟩
  · exact absurd trivial hone
  · -- nothing was obtained
    apply absurd _ hone
    intro hret
    exact absurd hret (not_le.mpr hneg)
  · have hnot : ¬ (k.ret ≠ 0 ∧ s.obj.fd < 0) := by
      intro hk
      apply hone
      intro _
      exact hk
    have hlost := hs.lost hret hfresh hnot
    rcases hobj with hobj | hobj
    · rw [hobj]
      exact hlost
    · rw [hobj]
      exact hlost.closed

/-- A lost descriptor stays lost. -/
theorem lost_step (s : FdOwner) (a : FdAction) (s' : FdOwner) (hs : Lost s.obj)
    (h : fdStep inet_aton C s a = some s') : Lost s'.obj := by
  rcases fdStep_cases h with ⟨recvs, -, hobj⟩ | ⟨k, -, -, hobj⟩ | ⟨k, -, -, hfresh, hobj | hobj⟩
  · rw [hobj]
    exact hs.closed
  · rw [hobj]
    exact hs
  · rw [hobj]
    exact hs.obtain hfresh
  · rw [hobj]
    exact (hs.obtain hfresh).closed

/-- No class rejects a positive descriptor. -/
theorem FdClass.rejects_pos (C : FdClass) {fd : ℤ} (h : 0 < fd) : C.rejects fd = false := by
  cases C with
  | serial => simp only [FdClass.rejects, Serial.badFd, decide_eq_false_iff_not]; omega
  | tcp c => simp only [FdClass.rejects, Tcp.badFd, decide_eq_false_iff_not]; omega
  | udp c => rfl

end Steps

/-- **When descriptors are owned properly.**  Take any operations on an object
and then its destructor.  Every descriptor it obtained is closed once, none is
closed twice, and no check ever rejects a descriptor that `open` returned true
for, exactly if the object never obtains the descriptor 0 and never obtains one
while it holds another. -/
theorem fd_owned_iff (inet_aton : String → Option UInt32) (C : FdClass) (as : List FdAction)
    (recvs : List RecvOutcome) (s : FdOwner) (o : FdObject)
    (h : run (fdStep inet_aton C) .initial as = some s) (hdtor : C.close s.obj recvs = some o) :
    (ClosedOnce o.log ∧ NoneTwice o.log ∧
        ∀ pre u, pre <+: as → run (fdStep inet_aton C) .initial pre = some u →
          u.returned → 0 ≤ u.obj.fd → C.rejects u.obj.fd = false) ↔
      RunMeets (fdStep inet_aton C) (fun s a _ => OneAtATime s a) .initial as := by
  have hor := fun as t => @run_invariant_or _ _ (fdStep inet_aton C) (fun s a _ => OneAtATime s a)
    (fun s => OwnerInv s.obj) (fun s => Lost s.obj) ownerInv_step lost_step_of_not lost_step
    FdOwner.initial t as ownerInv_initial
  rw [FdClass.close_eq hdtor]
  constructor
  · -- a run that breaks the condition ends with a descriptor that is never closed
    rintro ⟨hclosed, -, -⟩
    rcases hor as s h with ⟨hmeets, -⟩ | ⟨-, hlost⟩
    · exact hmeets
    · obtain ⟨fd, -, hopen, -⟩ := hlost.closed
      exact absurd hclosed hopen.not_closedOnce
  · intro hmeets
    have hinv : OwnerInv s.obj := by
      rcases hor as s h with ⟨-, hinv⟩ | ⟨hnot, -⟩
      · exact hinv
      · exact absurd hmeets hnot
    refine ⟨hinv.closedOnce, hinv.closed.once, ?_⟩
    -- on the way, what is held is positive, and every check lets that pass
    rintro pre u ⟨post, rfl⟩ hu - hfd
    rcases hor pre u hu with ⟨-, hinv'⟩ | ⟨hnot, -⟩
    · have := hinv'.nonzero
      exact C.rejects_pos (by omega)
    · exact absurd (runMeets_of_append hmeets) hnot

/-- Inner calls that succeed, with the descriptor `ret`. -/
def succeeds (ret : ℤ) : OpenOutcome :=
  { ret := ret, tcsetattr := 0, connect := 0, bind := 0, listen := 0, recvs := []
    sa := ⟨0, (0, 0), 0⟩ }

/-- A client whose first `connect` fails and which is used twice after that,
with the same descriptor. -/
def reconnects : List FdAction :=
  [.open { succeeds 3 with connect := -1, recvs := [.data, .error EBADF] }, .open (succeeds 3),
    .close [.eof], .open (succeeds 3)]

theorem fd_owned_reconnects :
    ∃ s o, run (fdStep (fun _ => none) (.tcp ⟨TCP_CLIENT, "", 80⟩)) .initial reconnects = some s ∧
      FdClass.close (.tcp ⟨TCP_CLIENT, "", 80⟩) s.obj [.eof] = some o ∧
      acquires o.log 3 = 3 ∧ ClosedOnce o.log ∧ NoneTwice o.log := by
  obtain ⟨s, o, hrun, hdtor, hlog⟩ :
      ∃ s o, run (fdStep (fun _ => none) (.tcp ⟨TCP_CLIENT, "", 80⟩)) .initial reconnects =
          some s ∧
        FdClass.close (.tcp ⟨TCP_CLIENT, "", 80⟩) s.obj [.eof] = some o ∧
        acquires o.log 3 = 3 := ⟨_, _, rfl, rfl, by decide⟩
  obtain ⟨hclosed, honce, -⟩ :=
    (fd_owned_iff (fun _ => none) (.tcp ⟨TCP_CLIENT, "", 80⟩) reconnects [.eof] s o hrun
      hdtor).mpr (by decide)
  exact ⟨s, o, hrun, hdtor, hlog, hclosed, honce⟩

/-- A `Serial` does not close the descriptor 0, a `Tcp` rejects it, and a `Udp`
that is created twice loses its first descriptor. -/
theorem fd_not_owned :
    (∃ s, run (fdStep (fun _ => none) .serial) .initial [.open (succeeds 0)] = some s ∧
        acquires (Serial.close s.obj).log 0 = 1 ∧ releases (Serial.close s.obj).log 0 = 0) ∧
      (∃ s, run (fdStep (fun _ => none) (.tcp ⟨TCP_CLIENT, "", 80⟩)) .initial
          [.open (succeeds 0)] = some s ∧
        s.returned ∧ s.obj.fd = 0 ∧ FdClass.rejects (.tcp ⟨TCP_CLIENT, "", 80⟩) s.obj.fd) ∧
      ∃ s, run (fdStep (fun _ => none) (.udp ⟨80⟩)) .initial
          [.open (succeeds 3), .open (succeeds 4)] = some s ∧
        acquires (Udp.destroy s.obj).log 3 = 1 ∧ releases (Udp.destroy s.obj).log 3 = 0 :=
  ⟨⟨_, rfl, by decide⟩, ⟨_, rfl, by decide⟩, ⟨_, rfl, by decide⟩⟩

end LinuxDemo

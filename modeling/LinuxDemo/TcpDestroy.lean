/-
LinuxDemo/TcpDestroy.lean

When does `Tcp::destroy` of `inc/tcp.h` return?

It drains the socket before it closes it, and the loop ends on 0 and on three
values of `errno` only.  The kernel is one that gives some outcomes first, data
or EINTR, and then the same one for ever: the loop has been given them all, and
`n` times the last one.  It ends exactly if the last one is in the set.  A
socket that is not connected, a listening one for example, gives ENOTCONN for
ever, which is not.
-/
import LinuxDemo.FdObject

namespace LinuxDemo

/-- The outcomes that end the drain loop. -/
def RecvOutcome.Ends (r : RecvOutcome) : Prop :=
  r = .eof ∨ r = .error EAGAIN ∨ r = .error EBADF

instance (r : RecvOutcome) : Decidable r.Ends := inferInstanceAs (Decidable (_ ∨ _))

theorem RecvOutcome.goesOn_eq_false_iff {r : RecvOutcome} : r.goesOn = false ↔ r.Ends := by
  cases r with
  | data => exact iff_of_false Bool.noConfusion (by simp [Ends])
  | eof => exact iff_of_true rfl (.inl rfl)
  | error en =>
    show decide (¬ (en = EAGAIN ∨ en = EWOULDBLOCK ∨ en = EBADF)) = false ↔ _
    rw [decide_eq_false_iff_not, not_not]
    simp only [Ends, EWOULDBLOCK, or_self_left, reduceCtorEq, error.injEq, false_or]

/-- `destroy` has returned: the descriptor it held is closed once, `fd` is -1,
and the further calls that destructors make do nothing. -/
def Destroyed (o o' : FdObject) : Prop :=
  o'.fd = -1 ∧ o'.log = o.log ++ (if 0 ≤ o.fd then [.release o.fd] else []) ∧
    ∀ recvs, Tcp.destroy o' recvs = some o'

theorem Tcp.destroy_of_nonpos {o : FdObject} (recvs : List RecvOutcome) (h : ¬ o.fd > 0) :
    Tcp.destroy o recvs = some o := by
  rw [Tcp.destroy, if_pos]
  simpa using h

theorem Tcp.destroy_of_pos {o : FdObject} (recvs : List RecvOutcome) (h : o.fd > 0) :
    Tcp.destroy o recvs = (retry RecvOutcome.goesOn none recvs).map fun _ => o.closeFd := by
  rw [Tcp.destroy, if_neg]
  simpa using h

theorem destroyed_closeFd {o : FdObject} (h : 0 ≤ o.fd) : Destroyed o o.closeFd := by
  refine ⟨rfl, ?_, ?_⟩
  · rw [if_pos h]
    rfl
  · intro recvs
    apply Tcp.destroy_of_nonpos
    show ¬ (-1 : ℤ) > 0
    decide

/-- The drain loop on outcomes that it goes on after, and then one for ever. -/
theorem drain_iff {pre : List RecvOutcome} (hpre : ∀ r ∈ pre, r.goesOn) (last : RecvOutcome) :
    (∃ n, (retry RecvOutcome.goesOn none (pre ++ List.replicate n last)).isSome) ↔
      last.Ends := by
  rw [← RecvOutcome.goesOn_eq_false_iff]
  constructor
  · rintro ⟨n, hn⟩
    rw [retry_append _ hpre, Option.isSome_map] at hn
    by_contra hlast
    -- nothing but outcomes to go on after
    have hall : ∀ r ∈ List.replicate n last, r.goesOn = true := by
      intro r hr
      rw [List.eq_of_mem_replicate hr]
      exact Bool.eq_true_of_not_eq_false hlast
    rw [retry_all_again hall] at hn
    cases hn
  · intro hlast
    refine ⟨1, ?_⟩
    rw [retry_append _ hpre, Option.isSome_map, List.replicate_one, retry_cons_last _ _ hlast]
    rfl

/-- **When `Tcp::destroy` finishes.**  Let `recv` give data or fail with EINTR
finitely often and then give one outcome for ever.  The loop ends, with the
descriptor closed once and `fd` set to -1, exactly if the object holds no
descriptor, or a positive one and the outcome is 0, EAGAIN or EBADF. -/
theorem tcp_destroy_finishes_iff (o : FdObject) (pre : List RecvOutcome) (last : RecvOutcome)
    (hpre : ∀ r ∈ pre, r = .data ∨ r = .error EINTR) :
    (∃ n o', Tcp.destroy o (pre ++ List.replicate n last) = some o' ∧ Destroyed o o') ↔
      o.fd = -1 ∨ 0 < o.fd ∧ last.Ends := by
  have hgoes : ∀ r ∈ pre, r.goesOn := by
    intro r hr
    rcases hpre r hr with rfl | rfl
    · rfl
    · rfl
  by_cases hpos : o.fd > 0
  · -- the loop decides
    simp only [Tcp.destroy_of_pos _ hpos, Option.map_eq_some_iff]
    constructor
    · rintro ⟨n, o', ⟨r, hr, -⟩, -⟩
      refine .inr ⟨hpos, (drain_iff hgoes last).mp ⟨n, ?_⟩⟩
      rw [hr]
      rfl
    · intro hcond
      have hends : last.Ends := by
        rcases hcond with hneg | ⟨-, hends⟩
        · omega
        · exact hends
      obtain ⟨n, hn⟩ := (drain_iff hgoes last).mpr hends
      obtain ⟨r, hr⟩ := Option.isSome_iff_exists.mp hn
      exact ⟨n, o.closeFd, ⟨r, hr, rfl⟩, destroyed_closeFd hpos.le⟩
  · -- `destroy` returns at once and leaves the object alone
    simp only [Tcp.destroy_of_nonpos _ hpos, Option.some.injEq]
    constructor
    · rintro ⟨-, o', rfl, hfd, -, -⟩
      exact .inl hfd
    · rintro (hfd | ⟨hfd, -⟩)
      · refine ⟨0, o, rfl, hfd, ?_, fun recvs => Tcp.destroy_of_nonpos recvs hpos⟩
        rw [hfd, if_neg (by decide), List.append_nil]
      · exact absurd hfd hpos

/-- A connection whose peer sends some data and is then gone. -/
theorem tcp_destroy_finishes_eof :
    ∃ n o', Tcp.destroy ⟨3, [.acquire 3]⟩ ([.data, .error EINTR] ++ List.replicate n .eof) =
      some o' ∧ Destroyed ⟨3, [.acquire 3]⟩ o' :=
  (tcp_destroy_finishes_iff ⟨3, [.acquire 3]⟩ [.data, .error EINTR] .eof (by decide)).mpr
    (by decide)

def ENOTCONN : ℤ := 107

/-- A listening socket is never closed. -/
theorem tcp_destroy_hangs :
    ¬ ∃ n o', Tcp.destroy ⟨3, [.acquire 3]⟩ (List.replicate n (.error ENOTCONN)) = some o' := by
  rintro ⟨n, o', h⟩
  have hpos : (⟨3, [.acquire 3]⟩ : FdObject).fd > 0 := by decide
  rw [Tcp.destroy_of_pos _ hpos, retry_all_again] at h
  · cases h
  · intro r hr
    rw [List.eq_of_mem_replicate hr]
    decide

end LinuxDemo

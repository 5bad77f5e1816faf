/-
LinuxDemo/Cond.lean

`Cond` of `inc/cond.h`: a counter behind a mutex and a condition variable,
used as a counting semaphore.

Each section between `pthread_mutex_lock` and `pthread_mutex_unlock`, or
between two calls of `pthread_cond_wait`, is one step, `waitSection` or
`wakeSection`.  A thread in `pthread_cond_wait` is `blocked` until a signal or
a spurious wake-up releases it; it is then `released` until it has the mutex
again and tests the counter once more.  `pthread_cond_signal` releases at
least one blocked thread if there is one, and may release more.  The numbers
of completed calls are kept for the statements only.

The invariant that carries the proof is `CondInv.enough`: while some thread
is blocked, the counter is at most the number of released threads.  A newcomer
that takes a wake lowers the counter; a released thread that finds it taken
blocks again, with the counter at zero.
-/
import LinuxDemo.Lib.Runs
import LinuxDemo.Lib.CInt
import Mathlib.Data.Finset.Card

namespace LinuxDemo

/-- The object, the threads inside `wait`, and the calls completed so far. -/
structure Cond (Tid : Type*) where
  cnt : ℤ
  blocked : Finset Tid
  released : Finset Tid
  wakes : ℕ
  waits : ℕ
deriving DecidableEq

variable {Tid : Type*} [DecidableEq Tid]

def Cond.initial : Cond Tid := { cnt := 0, blocked := ∅, released := ∅, wakes := 0, waits := 0 }

inductive CondAction (Tid : Type*) where
  /-- A thread calls `wait` and makes the first test of the loop. -/
  | wait (t : Tid)
  /-- A released thread has the mutex again and repeats the test. -/
  | resume (t : Tid)
  /-- `pthread_cond_wait` returns without a signal. -/
  | spurious (t : Tid)
  /-- A thread calls `wake`; its signal, if it makes one, releases `who`. -/
  | wake (t : Tid) (who : Finset Tid)

/-- The loop test of `wait` and what follows it: `none` is another
`pthread_cond_wait`. -/
def waitSection (cnt : ℤ) : Option ℤ :=
  if cnt = 0 then none
  else if cnt > 0 then some (int32 (cnt - 1)) else some cnt

/-- The section of `wake`: the counter, and whether it signals. -/
def wakeSection (cnt : ℤ) : ℤ × Bool :=
  let cnt := int32 (cnt + 1)
  (cnt, cnt > 0)

/-- The threads `who` may leave the condition variable: at least one if there
is a signal and a blocked thread, and none without a signal. -/
def Releases (blocked : Finset Tid) (signal : Bool) (who : Finset Tid) : Prop :=
  who ⊆ blocked ∧ if signal then blocked.Nonempty → who.Nonempty else who = ∅

instance (blocked : Finset Tid) (signal : Bool) (who : Finset Tid) :
    Decidable (Releases blocked signal who) :=
  inferInstanceAs (Decidable (_ ∧ if signal then _ else _))

def condStep (s : Cond Tid) : CondAction Tid → Option (Cond Tid)
  | .wait t =>
      if t ∈ s.blocked ∪ s.released then none
      else
        match waitSection s.cnt with
        | none => some { s with blocked := insert t s.blocked }
        | some cnt => some { s with cnt := cnt, waits := s.waits + 1 }
  | .resume t =>
      if t ∈ s.released then
        match waitSection s.cnt with
        | none => some { s with blocked := insert t s.blocked, released := s.released.erase t }
        | some cnt =>
            some { s with cnt := cnt, released := s.released.erase t, waits := s.waits + 1 }
      else none
  | .spurious t =>
      if t ∈ s.blocked then
        some { s with blocked := s.blocked.erase t, released := insert t s.released }
      else none
  | .wake t who =>
      if t ∈ s.blocked ∪ s.released then none
      else
        let (cnt, signal) := wakeSection s.cnt
        if Releases s.blocked signal who then
          some { s with
            cnt := cnt
            blocked := s.blocked \ who
            released := s.released ∪ who
            wakes := s.wakes + 1 }
        else none

/-! ### The invariant -/

/-- Wakes that have not been taken by a `wait`. -/
def Cond.outstanding (s : Cond Tid) : ℤ := s.wakes - s.waits

structure CondInv (s : Cond Tid) : Prop where
  count : s.cnt = s.outstanding
  nonneg : 0 ≤ s.cnt
  disj : Disjoint s.blocked s.released
  enough : s.blocked.Nonempty → s.cnt ≤ s.released.card

omit [DecidableEq Tid] in
theorem condInv_initial : CondInv (Cond.initial : Cond Tid) :=
  ⟨rfl, le_refl 0, Finset.disjoint_empty_left _, fun h => absurd h Finset.not_nonempty_empty⟩

/-- A section of `wait` either blocks on a zero counter or takes one. -/
theorem waitSection_cases {cnt : ℤ} (h0 : 0 ≤ cnt) (hlt : cnt < 2 ^ 31) :
    cnt = 0 ∧ waitSection cnt = none ∨ 0 < cnt ∧ waitSection cnt = some (cnt - 1) := by
  by_cases hz : cnt = 0
  · exact .inl ⟨hz, by simp [waitSection, hz]⟩
  · refine .inr ⟨by omega, ?_⟩
    rw [waitSection, if_neg hz, if_pos (by omega), int32_eq (by omega) (by omega)]

/-- A section of `wake` adds one and signals. -/
theorem wakeSection_eq {cnt : ℤ} (h0 : 0 ≤ cnt) (hlt : cnt + 1 < 2 ^ 31) :
    wakeSection cnt = (cnt + 1, true) := by
  rw [wakeSection, int32_eq (by omega) hlt]
  simp; omega

/-- A section of `wait` that finds the counter at zero: one more thread is
blocked, and `r` are released. -/
theorem CondInv.block {s : Cond Tid} (hs : CondInv s) {t : Tid} {r : Finset Tid}
    (hz : s.cnt = 0) (hr : r ⊆ s.released) (ht : t ∉ r) :
    CondInv { s with blocked := insert t s.blocked, released := r } where
  count := hs.count
  nonneg := hs.nonneg
  disj := Finset.disjoint_insert_left.mpr ⟨ht, hs.disj.mono_right hr⟩
  enough := by
    intro _
    show s.cnt ≤ r.card
    rw [hz]
    exact Int.natCast_nonneg _

omit [DecidableEq Tid] in
/-- A section of `wait` that takes a wake: at most one thread fewer is
released, so there are still enough. -/
theorem CondInv.take {s : Cond Tid} (hs : CondInv s) {r : Finset Tid} (hpos : 0 < s.cnt)
    (hr : r ⊆ s.released) (hcard : s.released.card ≤ r.card + 1) :
    CondInv { s with cnt := s.cnt - 1, released := r, waits := s.waits + 1 } where
  count := by
    have hcount := hs.count
    simp only [Cond.outstanding] at hcount ⊢
    omega
  nonneg := by
    show 0 ≤ s.cnt - 1
    omega
  disj := hs.disj.mono_right hr
  enough := by
    intro hb
    have hle := hs.enough hb
    show s.cnt - 1 ≤ r.card
    omega

/-- A spurious wake-up releases one more thread. -/
theorem CondInv.spurious {s : Cond Tid} (hs : CondInv s) {t : Tid} (ht : t ∈ s.blocked) :
    CondInv { s with blocked := s.blocked.erase t, released := insert t s.released } where
  count := hs.count
  nonneg := hs.nonneg
  disj := by
    apply Finset.disjoint_insert_right.mpr
    exact ⟨Finset.notMem_erase t _, hs.disj.mono_left (Finset.erase_subset _ _)⟩
  enough := by
    intro _
    have hle := hs.enough ⟨t, ht⟩
    have hr : t ∉ s.released := Finset.disjoint_left.mp hs.disj ht
    show s.cnt ≤ (insert t s.released).card
    rw [Finset.card_insert_of_notMem hr]
    omega

/-- A wake that releases `who`. -/
theorem CondInv.wake {s : Cond Tid} (hs : CondInv s) {who : Finset Tid}
    (hwho : Releases s.blocked true who) :
    CondInv { s with
      cnt := s.cnt + 1
      blocked := s.blocked \ who
      released := s.released ∪ who
      wakes := s.wakes + 1 } where
  count := by
    have hcount := hs.count
    simp only [Cond.outstanding] at hcount ⊢
    omega
  nonneg := by
    have hnonneg := hs.nonneg
    show 0 ≤ s.cnt + 1
    omega
  disj := by
    apply Finset.disjoint_union_right.mpr
    exact ⟨hs.disj.mono_left Finset.sdiff_subset, Finset.sdiff_disjoint⟩
  enough := by
    intro hb
    obtain ⟨hsub, hsome⟩ := hwho
    -- a thread stays blocked, so the signal released another one
    have hb' : s.blocked.Nonempty := hb.mono Finset.sdiff_subset
    have hcard : 0 < who.card := Finset.card_pos.mpr (hsome hb')
    have hle := hs.enough hb'
    have hdisj : Disjoint s.released who := (hs.disj.mono_left hsub).symm
    show s.cnt + 1 ≤ (s.released ∪ who).card
    rw [Finset.card_union_of_disjoint hdisj]
    omega

/-- **One step keeps the invariant**, if it leaves fewer than 2^31 wakes
outstanding. -/
theorem condInv_step (s : Cond Tid) (a : CondAction Tid) (s' : Cond Tid) (hs : CondInv s)
    (hout : s.outstanding < 2 ^ 31 ∧ s'.outstanding < 2 ^ 31)
    (h : condStep s a = some s') : CondInv s' := by
  have hlt : s.cnt < 2 ^ 31 := hs.count ▸ hout.1
  cases a with
  | wait t =>
    simp only [condStep] at h
    split at h
    · cases h
    · rename_i hout'
      rw [Finset.mem_union, not_or] at hout'
      rcases waitSection_cases hs.nonneg hlt with ⟨hz, hw⟩ | ⟨hpos, hw⟩
      · rw [hw] at h
        cases h
        exact hs.block hz (Finset.Subset.refl _) hout'.2
      · -- a newcomer takes a wake
        rw [hw] at h
        cases h
        exact hs.take hpos (Finset.Subset.refl _) (Nat.le_succ _)
  | resume t =>
    simp only [condStep] at h
    split at h
    · rename_i ht
      rcases waitSection_cases hs.nonneg hlt with ⟨hz, hw⟩ | ⟨hpos, hw⟩
      · -- its wake was taken: it blocks again
        rw [hw] at h
        cases h
        exact hs.block hz (Finset.erase_subset _ _) (Finset.notMem_erase t _)
      · rw [hw] at h
        cases h
        exact hs.take hpos (Finset.erase_subset _ _) (Finset.card_erase_add_one ht).ge
    · cases h
  | spurious t =>
    simp only [condStep] at h
    split at h
    · rename_i ht
      cases h
      exact hs.spurious ht
    · cases h
  | wake t who =>
    simp only [condStep] at h
    split at h
    · cases h
    · split at h
      · rename_i hrel
        cases h
        have hcnt : s.cnt + 1 < 2 ^ 31 := by
          have hafter := hout.2
          have hcount := hs.count
          simp only [Cond.outstanding] at hafter hcount
          omega
        rw [wakeSection_eq hs.nonneg hcnt] at hrel ⊢
        exact hs.wake hrel
      · cases h

/-- Every step of the run leaves fewer than 2^31 wakes outstanding. -/
def FewOutstanding (as : List (CondAction Tid)) : Prop :=
  RunMeets condStep (fun s _ s' => s.outstanding < 2 ^ 31 ∧ s'.outstanding < 2 ^ 31)
    (Cond.initial : Cond Tid) as

instance (as : List (CondAction Tid)) : Decidable (FewOutstanding as) :=
  inferInstanceAs (Decidable (RunMeets condStep _ _ as))

end LinuxDemo

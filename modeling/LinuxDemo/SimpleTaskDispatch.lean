/-
LinuxDemo/SimpleTaskDispatch.lean

`SimpleTask` hands every signal on exactly once, in the order of the pushes,
and frees every block exactly once.

Two invariants.  `SignalInv` is about the producers: the blocks that are made
or pushed are copies of what `pushSignal` was called with, at different
addresses, and no call is forgotten.  `DispatchInv` is about the consumer: the
pushed cells are, in this order, those handed on, the one in flight, those
dropped by the destructor, and those still in the queue; and the freed blocks
are those handed on or dropped, but for the one the consumer still holds.
Handlers that push are one more producer, so the drain loop needs nothing of
its own.
-/
import LinuxDemo.SimpleTask
import Mathlib.Data.List.Nodup

namespace LinuxDemo

variable {Tid F : Type*}

/-- The addresses of the blocks of some cells. -/
def addrs (cs : List Cell) : List ℕ := cs.filterMap Cell.addr

@[simp] theorem addrs_nil : addrs [] = [] := rfl

@[simp] theorem addrs_append (cs ds : List Cell) : addrs (cs ++ ds) = addrs cs ++ addrs ds :=
  List.filterMap_append

@[simp] theorem addrs_singleton (ct : Cell) : addrs [ct] = ct.addr.toList := by
  rcases h : ct.addr with _ | a <;> simp [addrs, h]

/-- The block has what the caller's buffer held: nothing for NULL or a length
that is not positive, and else the first `len` bytes. -/
def SimpleBuf.CopyOf (sb : SimpleBuf) (sig : Signal) : Prop :=
  (sig.data = none ∨ sig.len ≤ 0 → sb.data = none ∧ sb.len = 0) ∧
    ∀ p, sig.data = some p → 0 < sig.len →
      sb.data = some ((List.range sig.len.toNat).map p) ∧ sb.len = sig.len

/-- The cell was made by one of the calls. -/
def Cell.Carries (ct : Cell) (called : List Signal) : Prop :=
  ∃ sig sb, called[sb.addr]? = some sig ∧ ct = (sig.type, some sb) ∧ sb.CopyOf sig

theorem SimpleBuf.new_copyOf (addr : ℕ) (sig : Signal) :
    (SimpleBuf.new addr sig.data sig.len).CopyOf sig := by
  refine ⟨SimpleBuf.new_null addr, fun p hp hlen => ?_⟩
  rw [hp]
  exact SimpleBuf.new_copy addr p hlen

/-- Later calls do not matter. -/
theorem Cell.Carries.append {ct : Cell} {called : List Signal} (h : ct.Carries called)
    (sig : Signal) : ct.Carries (called ++ [sig]) := by
  obtain ⟨sig', sb, hget, hct, hcopy⟩ := h
  refine ⟨sig', sb, ?_, hct, hcopy⟩
  rw [List.getElem?_append_left (List.getElem?_eq_some_iff.mp hget).1, hget]

/-- A cell that was made has a block, whose address is the number of a call. -/
theorem Cell.Carries.addr_lt {ct : Cell} {called : List Signal} (h : ct.Carries called) :
    ∃ a, ct.addr = some a ∧ a < called.length := by
  obtain ⟨sig, sb, hget, rfl, -⟩ := h
  exact ⟨sb.addr, rfl, (List.getElem?_eq_some_iff.mp hget).1⟩

/-! ### The producers -/

structure SignalInv (s : TaskState Tid F) : Prop where
  pushed : ∀ ct ∈ s.pushed, ct.Carries s.called
  made : ∀ who ct, s.calls who = .made ct → ct.Carries s.called
  nodup : (addrs s.pushed).Nodup
  fresh : ∀ who ct a, s.calls who = .made ct → ct.addr = some a → a ∉ addrs s.pushed
  distinct : ∀ who who' ct ct', s.calls who = .made ct → s.calls who' = .made ct' →
    ct.addr = ct'.addr → who = who'
  all : ∀ a < s.called.length, a ∈ addrs s.pushed ∨
    ∃ who ct, s.calls who = .made ct ∧ ct.addr = some a

theorem signalInv_initial : SignalInv (TaskState.initial : TaskState Tid F) where
  pushed := by simp [TaskState.initial]
  made := by simp [TaskState.initial]
  nodup := by simp [TaskState.initial, addrs]
  fresh := by simp [TaskState.initial]
  distinct := by simp [TaskState.initial]
  all := by simp [TaskState.initial]

/-- No pushed block has the address of the next call. -/
theorem SignalInv.addrs_lt {s : TaskState Tid F} (h : SignalInv s) {a : ℕ}
    (ha : a ∈ addrs s.pushed) : a < s.called.length := by
  obtain ⟨ct, hct, haddr⟩ := List.mem_filterMap.mp ha
  obtain ⟨b, hb, hlt⟩ := (h.pushed ct hct).addr_lt
  rw [haddr] at hb
  exact Option.some.inj hb ▸ hlt

/-- The invariant looks at the calls and at what is pushed only. -/
theorem SignalInv.congr {s s' : TaskState Tid F} (h : SignalInv s) (hcalls : s'.calls = s.calls)
    (hcalled : s'.called = s.called) (hpushed : s'.pushed = s.pushed) : SignalInv s' := by
  obtain ⟨h₁, h₂, h₃, h₄, h₅, h₆⟩ := h
  constructor
  · rwa [hcalled, hpushed]
  · rwa [hcalls, hcalled]
  · rwa [hpushed]
  · rwa [hcalls, hpushed]
  · rwa [hcalls]
  · rwa [hcalls, hcalled, hpushed]

variable [DecidableEq Tid]

/-- A thread that has a block after one thread moved on without one had it
before. -/
theorem made_of_update {calls : Option Tid → SignalPc} {who who' : Option Tid} {pc : SignalPc}
    {ct : Cell} (hpc : pc ≠ .made ct) (h : Function.update calls who pc who' = .made ct) :
    who' ≠ who ∧ calls who' = .made ct := by
  by_cases heq : who' = who
  · rw [heq, Function.update_self] at h
    exact absurd h hpc
  · rw [Function.update_of_ne heq] at h
    exact ⟨heq, h⟩

/-- A call makes a block at a new address. -/
theorem SignalInv.call {s : TaskState Tid F} (hs : SignalInv s) {who : Option Tid} (sig : Signal)
    (hidle : s.calls who = .idle) :
    SignalInv { s with
      calls := Function.update s.calls who
        (.made (sig.type, some (SimpleBuf.new s.called.length sig.data sig.len)))
      called := s.called ++ [sig] } := by
  set ct : Cell := (sig.type, some (SimpleBuf.new s.called.length sig.data sig.len)) with hct
  have haddr : ct.addr = some s.called.length := by simp [hct, Cell.addr]
  have hlt : ∀ w c, s.calls w = .made c → ∃ a, c.addr = some a ∧ a < s.called.length := by
    intro w c hw
    exact (hs.made w c hw).addr_lt
  have hcases : ∀ w c, Function.update s.calls who (.made ct) w = .made c →
      w = who ∧ c = ct ∨ s.calls w = .made c := by
    intro w c hw
    by_cases heq : w = who
    · rw [heq, Function.update_self] at hw
      exact .inl ⟨heq, (SignalPc.made.inj hw).symm⟩
    · rw [Function.update_of_ne heq] at hw
      exact .inr hw
  constructor
  case pushed =>
    intro c hc
    exact (hs.pushed c hc).append sig
  case made =>
    intro w c hw
    rcases hcases w c hw with ⟨-, rfl⟩ | hw
    · refine ⟨sig, SimpleBuf.new s.called.length sig.data sig.len, ?_, rfl,
        SimpleBuf.new_copyOf _ sig⟩
      simp
    · exact (hs.made w c hw).append sig
  case nodup => exact hs.nodup
  case fresh =>
    intro w c a hw hc ha
    rcases hcases w c hw with ⟨-, rfl⟩ | hw
    · rw [haddr] at hc
      exact (hs.addrs_lt ha).ne (Option.some.inj hc).symm
    · exact hs.fresh w c a hw hc ha
  case distinct =>
    intro w w' c c' hw hw' heq
    -- only one of two blocks can be the new one, and no old one has its address
    rcases hcases w c hw with ⟨rfl, rfl⟩ | hw₁ <;> rcases hcases w' c' hw' with ⟨rfl, rfl⟩ | hw₂
    · rfl
    · obtain ⟨a, ha, hal⟩ := hlt w' c' hw₂
      rw [haddr, ha] at heq
      exact absurd (Option.some.inj heq) hal.ne'
    · obtain ⟨a, ha, hal⟩ := hlt w c hw₁
      rw [haddr, ha] at heq
      exact absurd (Option.some.inj heq) hal.ne
    · exact hs.distinct w w' c c' hw₁ hw₂ heq
  case all =>
    intro a ha
    simp only [List.length_append, List.length_singleton] at ha
    rcases Nat.lt_succ_iff_lt_or_eq.mp ha with hlt' | rfl
    · refine (hs.all a hlt').imp_right fun ⟨w, c, hw, hc⟩ => ⟨w, c, ?_, hc⟩
      have hne : w ≠ who := by
        rintro rfl
        rw [hidle] at hw
        cases hw
      simp only [Function.update_of_ne hne, hw]
    · exact .inr ⟨who, ct, Function.update_self .., haddr⟩

/-- A push moves a block from its call into the queue. -/
theorem SignalInv.push {s : TaskState Tid F} (hs : SignalInv s) {who : Option Tid} {ct : Cell}
    (queue : LockQueue Cell) (hmade : s.calls who = .made ct) :
    SignalInv { s with
      queue := queue
      calls := Function.update s.calls who .pushed
      pushed := s.pushed ++ [ct] } := by
  obtain ⟨b, hb, -⟩ := (hs.made who ct hmade).addr_lt
  have hold : ∀ w c, Function.update s.calls who .pushed w = .made c →
      w ≠ who ∧ s.calls w = .made c := by
    intro w c hw
    exact made_of_update SignalPc.noConfusion hw
  constructor
  case pushed =>
    intro c hc
    rcases List.mem_append.mp hc with hc | hc
    · exact hs.pushed c hc
    · rw [List.mem_singleton.mp hc]
      exact hs.made who ct hmade
  case made =>
    intro w c hw
    exact hs.made w c (hold w c hw).2
  case nodup =>
    simp only [addrs_append, addrs_singleton, hb, Option.toList_some, List.nodup_append]
    refine ⟨hs.nodup, List.nodup_singleton b, ?_⟩
    rintro a ha b' hb' rfl
    rw [List.mem_singleton.mp hb'] at ha
    exact hs.fresh who ct b hmade hb ha
  case fresh =>
    intro w c a hw hc ha
    obtain ⟨hne, hw⟩ := hold w c hw
    simp only [addrs_append, addrs_singleton, hb, Option.toList_some, List.mem_append,
      List.mem_singleton] at ha
    rcases ha with ha | rfl
    · exact hs.fresh w c a hw hc ha
    · -- the address of the pushed block: then this call is the one that pushed it
      exact hne (hs.distinct w who c ct hw hmade (hc.trans hb.symm))
  case distinct =>
    intro w w' c c' hw hw'
    exact hs.distinct w w' c c' (hold w c hw).2 (hold w' c' hw').2
  case all =>
    intro a ha
    simp only [addrs_append, addrs_singleton, hb, Option.toList_some, List.mem_append,
      List.mem_singleton]
    rcases hs.all a ha with hp | ⟨w, c, hw, hc⟩
    · exact .inl (.inl hp)
    · by_cases heq : w = who
      · rw [heq, hmade] at hw
        rw [← SignalPc.made.inj hw, hb] at hc
        exact .inl (.inr (Option.some.inj hc).symm)
      · exact .inr ⟨w, c, by rw [Function.update_of_ne heq, hw], hc⟩

/-- The return from a call forgets no block. -/
theorem SignalInv.idle {s : TaskState Tid F} (hs : SignalInv s) {who : Option Tid} (unread : ℕ)
    (hpushed : s.calls who = .pushed) :
    SignalInv { s with unread := unread, calls := Function.update s.calls who .idle } := by
  have hold : ∀ w c, Function.update s.calls who .idle w = .made c → s.calls w = .made c := by
    intro w c hw
    exact (made_of_update SignalPc.noConfusion hw).2
  constructor
  case pushed => exact hs.pushed
  case made =>
    intro w c hw
    exact hs.made w c (hold w c hw)
  case nodup => exact hs.nodup
  case fresh =>
    intro w c a hw
    exact hs.fresh w c a (hold w c hw)
  case distinct =>
    intro w w' c c' hw hw'
    exact hs.distinct w w' c c' (hold w c hw) (hold w' c' hw')
  case all =>
    intro a ha
    refine (hs.all a ha).imp_right fun ⟨w, c, hw, hc⟩ => ⟨w, c, ?_, hc⟩
    have hne : w ≠ who := by
      rintro rfl
      rw [hpushed] at hw
      cases hw
    simp only [Function.update_of_ne hne, hw]

theorem signalInv_signalMoves {k : TaskConfig F} {s s' : TaskState Tid F} {who : Option Tid}
    (hs : SignalInv s) (h : SignalMoves k s who s') : SignalInv s' := by
  cases h with
  | call sig hidle => exact hs.call sig hidle
  | push ct hmade => exact hs.push _ hmade
  | write hpushed => exact hs.idle _ hpushed
  | skip hpushed => exact hs.idle _ hpushed

omit [DecidableEq Tid] in
/-- The consumer leaves the producers alone. -/
theorem signalInv_execMoves [Fintype Tid] {k : TaskConfig F} {s s' : TaskState Tid F}
    {a : ExecAction} (hs : SignalInv s) (h : ExecMoves k s a s') : SignalInv s' := by
  cases h <;> exact hs.congr rfl rfl rfl

/-! ### The consumer -/

/-- The destructor has started. -/
def ExecPc.destroyed : ExecPc → Bool
  | .destroy | .destroyFree | .dead => true
  | _ => false

/-- The cell that is popped and not yet handed on. -/
def inFlight (exec : ExecPc) (ct : Cell) : List Cell :=
  match exec with
  | .found => [ct]
  | _ => []

/-- The block the consumer has still to free. -/
def held (exec : ExecPc) (ct : Cell) : List ℕ :=
  match exec with
  | .handler | .unsupport | .free | .destroyFree => ct.addr.toList
  | _ => []

structure DispatchInv (k : TaskConfig F) (s : TaskState Tid F) : Prop where
  order : s.pushed =
    s.dispatched.map Prod.fst ++ inFlight s.exec s.ct ++ s.dropped ++ s.queue.elems
  target : ∀ d ∈ s.dispatched, d.2 = k.funcs d.1.1
  freed : s.freed ++ held s.exec s.ct = addrs (s.dispatched.map Prod.fst) ++ addrs s.dropped
  live : s.exec.destroyed = false → s.dropped = []
  idle : s.exec.destroyed → ∀ who, s.calls who = .idle
  ended : s.exec = .dead → s.queue.elems = []

omit [DecidableEq Tid] in
theorem dispatchInv_initial (k : TaskConfig F) :
    DispatchInv k (TaskState.initial : TaskState Tid F) where
  order := rfl
  target := by simp [TaskState.initial]
  freed := rfl
  live := fun _ => rfl
  idle := fun _ _ => rfl
  ended := fun _ => rfl

omit [DecidableEq Tid] in
/-- Before the destructor, three facts make the invariant. -/
theorem DispatchInv.of_live {k : TaskConfig F} {s : TaskState Tid F}
    (hexec : s.exec.destroyed = false) (hdropped : s.dropped = [])
    (horder : s.pushed = s.dispatched.map Prod.fst ++ inFlight s.exec s.ct ++ s.queue.elems)
    (htarget : ∀ d ∈ s.dispatched, d.2 = k.funcs d.1.1)
    (hfreed : s.freed ++ held s.exec s.ct = addrs (s.dispatched.map Prod.fst)) :
    DispatchInv k s where
  order := by rw [hdropped, List.append_nil, horder]
  target := htarget
  freed := by rw [hdropped, hfreed]; exact (List.append_nil _).symm
  live := fun _ => hdropped
  idle := fun h => by rw [hexec] at h; cases h
  ended := fun h => by rw [h] at hexec; cases hexec

omit [DecidableEq Tid] in
/-- Nobody starts a call once the destructor has started. -/
theorem mayCall_destroyed {exec : ExecPc} {who : Option Tid} (h : mayCall exec who) :
    exec.destroyed = false := by
  rcases who with _ | t
  · have : exec = .handler := by simpa [mayCall] using h
    rw [this]
    rfl
  · cases exec <;> first | rfl | exact absurd h (by simp [mayCall])

/-- A step of `pushSignal` adds at the end of the queue, or leaves the consumer
alone; after the destructor has started there is none. -/
theorem dispatchInv_signalMoves {k : TaskConfig F} {s s' : TaskState Tid F} {who : Option Tid}
    (hs : DispatchInv k s) (h : SignalMoves k s who s') : DispatchInv k s' := by
  have hlive : s.exec.destroyed = false := by
    -- the destructor waits for every call to return
    have hbusy : s.calls who ≠ .idle → s.exec.destroyed = false := by
      intro hne
      apply Bool.eq_false_iff.mpr
      intro hd
      exact hne (hs.idle hd who)
    cases h with
    | call _ _ hmay => exact mayCall_destroyed hmay
    | push ct hmade => exact hbusy (by rw [hmade]; exact SignalPc.noConfusion)
    | write hpushed | skip hpushed => exact hbusy (by rw [hpushed]; exact SignalPc.noConfusion)
  have hdropped := hs.live hlive
  have horder := hs.order
  have hfreed := hs.freed
  rw [hdropped, List.append_nil] at horder
  rw [hdropped] at hfreed
  have hfreed' := hfreed.trans (List.append_nil _)
  cases h with
  | call | write | skip => exact .of_live hlive hdropped horder hs.target hfreed'
  | push ct =>
    refine .of_live hlive hdropped ?_ hs.target hfreed'
    rw [LockQueue.push_elems, ← List.append_assoc, ← horder]

omit [DecidableEq Tid] in
/-- The destructor is the end of the object. -/
theorem destroyed_execMoves [Fintype Tid] {k : TaskConfig F} {s s' : TaskState Tid F}
    {a : ExecAction} (h : ExecMoves k s a s') (hd : s.exec.destroyed) : s'.exec.destroyed := by
  cases h with
  | destroy | destroyPop | destroyEmpty | destroyFree => rfl
  | ret hexec => rcases hexec with ⟨hexec, -⟩ | hexec <;> rw [hexec] at hd <;> cases hd
  | enter hexec | pop _ _ hexec | popEmpty hexec | dispatch hexec | free hexec | ready hexec
  | timeout hexec | error hexec | read hexec =>
    rw [hexec] at hd
    cases hd

omit [DecidableEq Tid] in
/-- A step of the consumer before the destructor moves a cell one place on:
from the queue to its hand, from there to a handler, and its block to the freed
ones. -/
theorem dispatchInv_execMoves_live [Fintype Tid] {k : TaskConfig F} {s s' : TaskState Tid F}
    {a : ExecAction} (hs : DispatchInv k s) (h : ExecMoves k s a s')
    (hlive : s.exec.destroyed = false) (hlive' : s'.exec.destroyed = false) :
    DispatchInv k s' := by
  have hdropped := hs.live hlive
  have horder := hs.order
  have hfreed := hs.freed
  rw [hdropped, List.append_nil] at horder
  rw [hdropped, addrs_nil, List.append_nil] at hfreed
  cases h with
  | enter hexec | ready hexec | timeout hexec | error hexec | read hexec =>
    rw [hexec] at horder hfreed
    exact .of_live hlive' hdropped horder hs.target hfreed
  | pop front rest hexec hq =>
    rw [hexec, hq] at horder
    rw [hexec] at hfreed
    refine .of_live hlive' hdropped ?_ hs.target hfreed
    simpa [inFlight] using horder
  | popEmpty hexec hq =>
    rw [hexec] at horder hfreed
    refine .of_live hlive' hdropped ?_ hs.target ?_
    · simp only
      split <;> exact horder
    · simp only
      split <;> exact hfreed
  | dispatch hexec =>
    -- the cell in flight is the last one handed on, and its block is now held
    rw [hexec] at horder hfreed
    have htarget : ∀ d ∈ s.dispatched ++ [(s.ct, k.funcs s.ct.1)], d.2 = k.funcs d.1.1 := by
      intro d hd
      rcases List.mem_append.mp hd with hd | hd
      · exact hs.target d hd
      · rw [List.mem_singleton.mp hd]
    refine .of_live hlive' hdropped ?_ htarget ?_
    · simp only
      split <;> simpa [inFlight] using horder
    · simp only [held, List.append_nil] at hfreed
      simp only
      split <;> simp [held, hfreed]
  | ret hexec =>
    rcases hexec with ⟨hexec, -⟩ | hexec
    · rw [hexec] at horder hfreed
      exact .of_live hlive' hdropped horder hs.target hfreed
    · rw [hexec] at horder hfreed
      exact .of_live hlive' hdropped horder hs.target hfreed
  | free hexec =>
    rw [hexec] at horder hfreed
    refine .of_live hlive' hdropped horder hs.target ?_
    simpa [held] using hfreed
  | destroy | destroyPop | destroyEmpty | destroyFree => cases hlive'

omit [DecidableEq Tid] in
/-- A step of the destructor drops the front of the queue or frees its block. -/
theorem dispatchInv_execMoves_destroyed [Fintype Tid] {k : TaskConfig F}
    {s s' : TaskState Tid F} {a : ExecAction} (hs : DispatchInv k s) (h : ExecMoves k s a s')
    (hdest : s'.exec.destroyed) : DispatchInv k s' := by
  obtain ⟨horder, htarget, hfreed, -, hidle, -⟩ := hs
  have hnot : ¬ s'.exec.destroyed = false := by simp [hdest]
  cases h with
  | destroy hexec hall =>
    rw [hexec] at horder hfreed
    exact ⟨horder, htarget, hfreed, fun h => absurd h hnot, fun _ => hall, nofun⟩
  | destroyPop front rest hexec hq =>
    have hidle' := hidle (by rw [hexec]; rfl)
    rw [hexec, hq] at horder
    rw [hexec] at hfreed
    refine ⟨?_, htarget, ?_, fun h => absurd h hnot, fun _ => hidle', nofun⟩
    · simpa [inFlight] using horder
    · simp only [held, List.append_nil] at hfreed
      simp [held, hfreed]
  | destroyEmpty hexec hq =>
    have hidle' := hidle (by rw [hexec]; rfl)
    rw [hexec] at horder hfreed
    exact ⟨horder, htarget, hfreed, fun h => absurd h hnot, fun _ => hidle', fun _ => hq⟩
  | destroyFree hexec =>
    have hidle' := hidle (by rw [hexec]; rfl)
    rw [hexec] at horder hfreed
    refine ⟨horder, htarget, ?_, fun h => absurd h hnot, fun _ => hidle', nofun⟩
    simpa [held] using hfreed
  | enter | pop | ret | free | ready | timeout | error | read => cases hdest
  | popEmpty | dispatch =>
    simp only at hdest
    split at hdest <;> cases hdest

/-! ### Runs -/

/-- **One step keeps both invariants.** -/
theorem taskInv_step [Fintype Tid] (k : TaskConfig F) (s : TaskState Tid F) (a : TaskAction Tid)
    (s' : TaskState Tid F) (hs : SignalInv s ∧ DispatchInv k s)
    (h : taskStep k s a = some s') : SignalInv s' ∧ DispatchInv k s' := by
  obtain ⟨hsig, hdis⟩ := hs
  cases a with
  | signal who a =>
    have hmoves := signalMoves h
    exact ⟨signalInv_signalMoves hsig hmoves, dispatchInv_signalMoves hdis hmoves⟩
  | exec a =>
    have hmoves := execMoves h
    refine ⟨signalInv_execMoves hsig hmoves, ?_⟩
    rcases hd' : s'.exec.destroyed with _ | _
    · refine dispatchInv_execMoves_live hdis hmoves (Bool.eq_false_iff.mpr fun hd => ?_) hd'
      rw [destroyed_execMoves hmoves hd] at hd'
      cases hd'
    · exact dispatchInv_execMoves_destroyed hdis hmoves hd'

theorem taskInv_run [Fintype Tid] {k : TaskConfig F} {as : List (TaskAction Tid)}
    {s : TaskState Tid F} (h : run (taskStep k) TaskState.initial as = some s) :
    SignalInv s ∧ DispatchInv k s :=
  run_invariant (I := fun s => SignalInv s ∧ DispatchInv k s) (taskInv_step k)
    ⟨signalInv_initial, dispatchInv_initial k⟩ h

omit [DecidableEq Tid] in
/-- **Where the pushed blocks are**: freed, held, in flight, or queued. -/
theorem DispatchInv.perm {k : TaskConfig F} {s : TaskState Tid F} (h : DispatchInv k s) :
    (addrs s.pushed).Perm
      (s.freed ++ (held s.exec s.ct ++ (addrs (inFlight s.exec s.ct) ++ addrs s.queue.elems))) := by
  have horder : addrs s.pushed = addrs (s.dispatched.map Prod.fst) ++
      ((addrs (inFlight s.exec s.ct) ++ addrs s.dropped) ++ addrs s.queue.elems) := by
    rw [h.order]
    simp only [addrs_append, List.append_assoc]
  have hfreed : s.freed ++ (held s.exec s.ct ++ (addrs (inFlight s.exec s.ct) ++
      addrs s.queue.elems)) = addrs (s.dispatched.map Prod.fst) ++
      ((addrs s.dropped ++ addrs (inFlight s.exec s.ct)) ++ addrs s.queue.elems) := by
    rw [← List.append_assoc, h.freed]
    simp only [List.append_assoc]
  rw [horder, hfreed]
  apply List.Perm.append_left
  apply List.Perm.append_right
  exact List.perm_append_comm

omit [DecidableEq Tid] in
/-- A freed block is in nobody's hands any more. -/
theorem not_used_of_freed {k : TaskConfig F} {s : TaskState Tid F} (hsig : SignalInv s)
    (hdis : DispatchInv k s) {a : ℕ} (ha : a ∈ s.freed) :
    a ∉ held s.exec s.ct ∧ a ∉ addrs (inFlight s.exec s.ct) ∧ a ∉ addrs s.queue.elems ∧
      ∀ who ct, s.calls who = .made ct → ct.addr ≠ some a := by
  have hnodup := hdis.perm.nodup_iff.mp hsig.nodup
  have hrest := List.disjoint_of_nodup_append hnodup ha
  refine ⟨?_, ?_, ?_, ?_⟩
  · intro hheld
    exact hrest (List.mem_append_left _ hheld)
  · intro hflight
    exact hrest (List.mem_append_right _ (List.mem_append_left _ hflight))
  · intro hqueue
    exact hrest (List.mem_append_right _ (List.mem_append_right _ hqueue))
  · -- a block that is made was not pushed yet
    intro who ct hmade haddr
    apply hsig.fresh who ct a hmade haddr
    exact hdis.perm.mem_iff.mpr (List.mem_append_left _ ha)

omit [DecidableEq Tid] in
/-- When the destructor is done, every block is freed. -/
theorem freed_of_dead {k : TaskConfig F} {s : TaskState Tid F} (hsig : SignalInv s)
    (hdis : DispatchInv k s) (hdead : s.exec = .dead) {a : ℕ} (ha : a < s.called.length) :
    a ∈ s.freed := by
  have hidle := hdis.idle (by rw [hdead]; rfl)
  have horder := hdis.order
  have hfreed := hdis.freed
  rw [hdead, hdis.ended hdead] at horder
  rw [hdead] at hfreed
  simp only [inFlight, List.append_nil] at horder
  simp only [held, List.append_nil] at hfreed
  rcases hsig.all a ha with hp | ⟨who, ct, hmade, -⟩
  · -- nothing is in flight or queued any more: what was pushed is freed
    rwa [horder, addrs_append, ← hfreed] at hp
  · rw [hidle who] at hmade
    cases hmade

/-- **Exactly-once, in-order dispatch.**  In every state that the threads can
reach: the cells handed on are a prefix of those pushed, and no block is pushed
twice; each was made by one call of `pushSignal`, has the type and a copy of
the bytes of that call, and went to the handler of its type; no block is freed
twice; what is freed was handed on, and the handler or `unsupport` has returned,
or it was dropped by the destructor, so that it is not held, in flight, queued
or still to be pushed; and when the destructor is done every block that was ever
made is freed once. -/
theorem dispatch_exactly_once [Fintype Tid] (k : TaskConfig F) (as : List (TaskAction Tid))
    (s : TaskState Tid F) (h : run (taskStep k) TaskState.initial as = some s) :
    s.dispatched.map Prod.fst <+: s.pushed ∧ (addrs s.pushed).Nodup ∧
      (∀ d ∈ s.dispatched, ∃ sig sb, s.called[sb.addr]? = some sig ∧
        d = ((sig.type, some sb), k.funcs sig.type) ∧ sb.CopyOf sig) ∧
      s.freed.Nodup ∧
      (∀ a ∈ s.freed, a ∈ addrs (s.dispatched.map Prod.fst) ∨ a ∈ addrs s.dropped) ∧
      (∀ a ∈ s.freed, a ∉ held s.exec s.ct ∧ a ∉ addrs (inFlight s.exec s.ct) ∧
        a ∉ addrs s.queue.elems ∧ ∀ who ct, s.calls who = .made ct → ct.addr ≠ some a) ∧
      (s.exec = .dead → ∀ a < s.called.length, s.freed.count a = 1) := by
  obtain ⟨hsig, hdis⟩ := taskInv_run h
  -- the pushed cells start with those handed on
  have hpre : s.dispatched.map Prod.fst <+: s.pushed := by
    rw [hdis.order, List.append_assoc, List.append_assoc]
    exact List.prefix_append _ _
  have hnodup : s.freed.Nodup :=
    (hdis.perm.nodup_iff.mp hsig.nodup).sublist (List.sublist_append_left _ _)
  refine ⟨hpre, hsig.nodup, ?_, hnodup, ?_, ?_, ?_⟩
  · rintro ⟨ct, target⟩ hd
    obtain ⟨sig, sb, hget, rfl, hcopy⟩ :=
      hsig.pushed ct (hpre.subset (List.mem_map_of_mem (f := Prod.fst) hd))
    have htarget : target = k.funcs sig.type := hdis.target _ hd
    exact ⟨sig, sb, hget, by rw [htarget], hcopy⟩
  · intro a ha
    have hmem : a ∈ s.freed ++ held s.exec s.ct := List.mem_append_left _ ha
    rwa [hdis.freed, List.mem_append] at hmem
  · intro a ha
    exact not_used_of_freed hsig hdis ha
  · intro hdead a ha
    apply List.count_eq_one_of_mem hnodup
    exact freed_of_dead hsig hdis hdead ha

/-- Signal 0 goes to a handler that pushes signal 1, which has no handler;
signal 2 is left for the destructor. -/
def nestedPush : List (TaskAction Unit) :=
  [.signal (some ()) (.call ⟨7, some fun i => 65 + i.toUInt8, 2⟩), .signal (some ()) .push,
    .signal (some ()) .wake, .exec .enter, .exec .pop, .exec .dispatch,
    .signal none (.call ⟨8, none, 4⟩), .signal none .push, .signal none .wake, .exec .ret,
    .exec .free, .exec .pop, .exec .dispatch, .exec .ret, .exec .free, .exec .pop,
    .signal (some ()) (.call ⟨7, none, 0⟩), .signal (some ()) .push, .signal (some ()) .wake,
    .exec .destroy, .exec .destroyPop, .exec .destroyFree, .exec .destroyPop]

/-- Type 7 has a handler; there is no pipe. -/
def oneHandler : TaskConfig Unit := ⟨fun type => if type = 7 then some () else none, -1, -1, 1⟩

/-- All three blocks are freed once, the first with the bytes of its caller. -/
theorem dispatch_nested_push :
    ∃ s, run (taskStep oneHandler) TaskState.initial nestedPush = some s ∧
      s.dispatched.map (fun d => (d.1.1, d.2)) = [(7, some ()), (8, none)] ∧
      s.dispatched.map (fun d => d.1.2.bind SimpleBuf.data) = [some [65, 66], none] ∧
      s.called.length = 3 ∧ ∀ a < s.called.length, s.freed.count a = 1 := by
  obtain ⟨s, hrun, hdead, hrest⟩ :
      ∃ s, run (taskStep oneHandler) TaskState.initial nestedPush = some s ∧ s.exec = .dead ∧
        s.dispatched.map (fun d => (d.1.1, d.2)) = [(7, some ()), (8, none)] ∧
        s.dispatched.map (fun d => d.1.2.bind SimpleBuf.data) = [some [65, 66], none] ∧
        s.called.length = 3 := ⟨_, rfl, by decide⟩
  obtain ⟨-, -, -, -, -, -, hfreed⟩ := dispatch_exactly_once oneHandler nestedPush s hrun
  exact ⟨s, hrun, hrest.1, hrest.2.1, hrest.2.2, hfreed hdead⟩

end LinuxDemo

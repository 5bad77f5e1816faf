/-
LinuxDemo/SimpleTask.lean

`SimpleTask` of `inc/SimpleTask.h`: threads hand signals to one consumer
through a `LockQueue` and wake it through a pipe.

The machine has one program counter for every thread inside `pushSignal` and
one for the consumer, which runs `execTask` any number of times and at last
the destructor.  A step is one access to the shared queue or pipe.  The
threads that call `pushSignal` are `some t` for `t : Tid`, and `none` is the
consumer itself, inside a handler.

A `SimpleBuf *` is a block with the address it was given by `new`, or `none`
for NULL; addresses are handed out in order, so the address of a block is also
the number of the `pushSignal` call that made it.  The fields of `TaskState`
below the line are histories, kept for the statements only.
-/
import LinuxDemo.LockQueue
import LinuxDemo.Lib.Runs
import Mathlib.Data.Fintype.Option
import Mathlib.Logic.Function.Basic
import Mathlib.Algebra.Order.Ring.Int

namespace LinuxDemo

/-! ### Blocks -/

/-- `SimpleBuf`: a private copy of the caller's bytes, at the address `addr`. -/
structure SimpleBuf where
  addr : ℕ
  data : Option (List UInt8)
  len : ℤ
  len_eq : len = (data.getD []).length
deriving DecidableEq

theorem SimpleBuf.null_len : (0 : ℤ) = ((none : Option (List UInt8)).getD []).length := rfl

theorem SimpleBuf.copy_len (p : ℕ → UInt8) {len : ℤ} (h : ¬ len ≤ 0) :
    len = ((some ((List.range len.toNat).map p)).getD []).length := by
  rw [Option.getD_some, List.length_map, List.length_range]
  omega

/-- `SimpleBuf(_data, _len)`.  `_data` is NULL or gives the byte at each
offset. -/
def SimpleBuf.new (addr : ℕ) (_data : Option (ℕ → UInt8)) (_len : ℤ) : SimpleBuf :=
  match _data with
  | none => ⟨addr, none, 0, SimpleBuf.null_len⟩
  | some p =>
      if h : _len ≤ 0 then ⟨addr, none, 0, SimpleBuf.null_len⟩
      else ⟨addr, some ((List.range _len.toNat).map p), _len, SimpleBuf.copy_len p h⟩

@[simp] theorem SimpleBuf.new_addr (addr : ℕ) (p : Option (ℕ → UInt8)) (len : ℤ) :
    (SimpleBuf.new addr p len).addr = addr := by
  rcases p with _ | p
  · rfl
  · simp only [SimpleBuf.new]
    split <;> rfl

/-- Nothing is copied from NULL or for a length that is not positive. -/
theorem SimpleBuf.new_null {p : Option (ℕ → UInt8)} {len : ℤ} (addr : ℕ)
    (h : p = none ∨ len ≤ 0) :
    (SimpleBuf.new addr p len).data = none ∧ (SimpleBuf.new addr p len).len = 0 := by
  rcases p with _ | p
  · exact ⟨rfl, rfl⟩
  · have hlen : len ≤ 0 := h.resolve_left (by simp)
    simp only [SimpleBuf.new, dif_pos hlen, and_self]

/-- Otherwise the first `len` bytes are copied. -/
theorem SimpleBuf.new_copy {len : ℤ} (addr : ℕ) (p : ℕ → UInt8) (h : 0 < len) :
    (SimpleBuf.new addr (some p) len).data = some ((List.range len.toNat).map p) ∧
      (SimpleBuf.new addr (some p) len).len = len := by
  simp only [SimpleBuf.new, dif_neg (not_le.mpr h), and_self]

/-! ### States -/

/-- An element of the queue: the type of a signal and its block. -/
abbrev Cell := ℤ × Option SimpleBuf

/-- The address of the block, if there is one. -/
def Cell.addr (ct : Cell) : Option ℕ := ct.2.map SimpleBuf.addr

/-- The arguments of a call of `pushSignal`. -/
structure Signal where
  type : ℤ
  data : Option (ℕ → UInt8)
  len : ℤ

/-- Where a thread is inside `pushSignal`. -/
inductive SignalPc where
  | idle
  /-- The block is made and not yet pushed. -/
  | made (ct : Cell)
  /-- The cell is pushed; the pipe is not yet written. -/
  | pushed
deriving DecidableEq

/-- Where the consumer is. -/
inductive ExecPc where
  /-- Between two calls of `execTask`. -/
  | out
  | pop
  | found
  /-- In the handler of `funcs`. -/
  | handler
  /-- In `unsupport`. -/
  | unsupport
  | free
  | select
  | read
  /-- In the loop of `~SimpleTask`. -/
  | destroy
  | destroyFree
  | dead
deriving DecidableEq

/-- What an object is set up with: the handlers, the ends of the wake pipe,
and the number of bytes the pipe takes. -/
structure TaskConfig (F : Type*) where
  funcs : ℤ → Option F
  pfd0 : ℤ
  pfd1 : ℤ
  capacity : ℕ

structure TaskState (Tid F : Type*) where
  queue : LockQueue Cell
  /-- Unread bytes in the wake pipe. -/
  unread : ℕ
  calls : Option Tid → SignalPc
  exec : ExecPc
  /-- The consumer's local variable. -/
  ct : Cell
  -- histories
  called : List Signal
  pushed : List Cell
  dispatched : List (Cell × Option F)
  dropped : List Cell
  freed : List ℕ

variable {Tid F : Type*}

def TaskState.initial : TaskState Tid F where
  queue := .empty
  unread := 0
  calls := fun _ => .idle
  exec := .out
  ct := (0, none)
  called := []
  pushed := []
  dispatched := []
  dropped := []
  freed := []

/-! ### `pushSignal` -/

inductive SignalAction where
  | call (sig : Signal)
  | push
  | wake

/-- May the thread `who` call `pushSignal`?  The consumer does so only from a
handler, and nobody does once the destructor has started. -/
def mayCall (exec : ExecPc) : Option Tid → Bool
  | none => exec = .handler
  | some _ => exec ≠ .destroy ∧ exec ≠ .destroyFree ∧ exec ≠ .dead

variable [DecidableEq Tid]

/-- One step of the thread `who` in `pushSignal`. -/
def signalStep (k : TaskConfig F) (s : TaskState Tid F) (who : Option Tid) :
    SignalAction → Option (TaskState Tid F)
  | .call sig =>
      if s.calls who = .idle ∧ mayCall s.exec who then
        let ct : Cell := (sig.type, some (SimpleBuf.new s.called.length sig.data sig.len))
        some { s with
          calls := Function.update s.calls who (.made ct)
          called := s.called ++ [sig] }
      else none
  | .push =>
      match s.calls who with
      | .made ct =>
          some { s with
            queue := s.queue.push ct
            calls := Function.update s.calls who .pushed
            pushed := s.pushed ++ [ct] }
      | _ => none
  | .wake =>
      match s.calls who with
      | .pushed =>
          if k.pfd1 > 0 then
            -- a full pipe blocks the writer
            if s.unread < k.capacity then
              some { s with
                unread := s.unread + 1
                calls := Function.update s.calls who .idle }
            else none
          else some { s with calls := Function.update s.calls who .idle }
      | _ => none

/-! ### `execTask` and the destructor -/

inductive SelectResult where
  | ready
  | timeout
  | error
deriving DecidableEq

inductive ExecAction where
  | enter
  | pop
  | dispatch
  | ret
  | free
  | select (r : SelectResult)
  | read
  | destroy
  | destroyPop
  | destroyFree

/-- One step of the consumer. -/
def execStep [Fintype Tid] (k : TaskConfig F) (s : TaskState Tid F) :
    ExecAction → Option (TaskState Tid F)
  | .enter =>
      if s.exec = .out then some { s with exec := .pop, ct := (0, none) } else none
  | .pop =>
      if s.exec = .pop then
        let (ok, ct, queue) := s.queue.pop s.ct
        some { s with
          queue := queue
          ct := ct
          -- the first loop ends on an empty queue; without a pipe that is all
          exec := if ok then .found else if k.pfd0 > 0 then .select else .out }
      else none
  | .dispatch =>
      if s.exec = .found then
        some { s with
          exec := if (k.funcs s.ct.1).isSome then .handler else .unsupport
          dispatched := s.dispatched ++ [(s.ct, k.funcs s.ct.1)] }
      else none
  | .ret =>
      -- a handler that is inside a `pushSignal` of its own does not return yet
      if s.exec = .handler ∧ s.calls none = .idle ∨ s.exec = .unsupport then
        some { s with exec := .free }
      else none
  | .free =>
      if s.exec = .free then
        some { s with exec := .pop, freed := s.freed ++ s.ct.addr.toList }
      else none
  | .select r =>
      if s.exec = .select then
        match r with
        | .ready => if 0 < s.unread then some { s with exec := .read } else none
        | .timeout => if s.unread = 0 then some { s with exec := .out } else none
        -- `ret > 0` fails: the bytes stay in the pipe
        | .error => some { s with exec := .out }
      else none
  | .read =>
      if s.exec = .read ∧ 0 < s.unread then
        some { s with exec := .select, unread := s.unread - 1 }
      else none
  | .destroy =>
      -- the object is destroyed by its last user
      if s.exec = .out ∧ ∀ who, s.calls who = .idle then
        some { s with exec := .destroy, ct := (0, none) }
      else none
  | .destroyPop =>
      if s.exec = .destroy then
        let (ok, ct, queue) := s.queue.pop s.ct
        some { s with
          queue := queue
          ct := ct
          exec := if ok then .destroyFree else .dead
          dropped := s.dropped ++ if ok then [ct] else [] }
      else none
  | .destroyFree =>
      if s.exec = .destroyFree then
        some { s with exec := .destroy, freed := s.freed ++ s.ct.addr.toList }
      else none

inductive TaskAction (Tid : Type*) where
  | signal (who : Option Tid) (a : SignalAction)
  | exec (a : ExecAction)

def taskStep [Fintype Tid] (k : TaskConfig F) (s : TaskState Tid F) :
    TaskAction Tid → Option (TaskState Tid F)
  | .signal who a => signalStep k s who a
  | .exec a => execStep k s a

/-! ### What a step can do

Every invariant is proved from these lists, with `signalMoves` and
`execMoves`. -/

/-- What a step of `pushSignal` does, with the guard it passed. -/
inductive SignalMoves (k : TaskConfig F) (s : TaskState Tid F) (who : Option Tid) :
    TaskState Tid F → Prop
  | call (sig : Signal) (hidle : s.calls who = .idle) (hmay : mayCall s.exec who) :
      SignalMoves k s who { s with
        calls := Function.update s.calls who
          (.made (sig.type, some (SimpleBuf.new s.called.length sig.data sig.len)))
        called := s.called ++ [sig] }
  | push (ct : Cell) (hmade : s.calls who = .made ct) :
      SignalMoves k s who { s with
        queue := s.queue.push ct
        calls := Function.update s.calls who .pushed
        pushed := s.pushed ++ [ct] }
  | write (hpushed : s.calls who = .pushed) (hpfd : k.pfd1 > 0) (hroom : s.unread < k.capacity) :
      SignalMoves k s who { s with
        unread := s.unread + 1
        calls := Function.update s.calls who .idle }
  | skip (hpushed : s.calls who = .pushed) (hpfd : ¬ k.pfd1 > 0) :
      SignalMoves k s who { s with calls := Function.update s.calls who .idle }

theorem signalMoves {k : TaskConfig F} {s s' : TaskState Tid F} {who : Option Tid}
    {a : SignalAction} (h : signalStep k s who a = some s') : SignalMoves k s who s' := by
  cases a with
  | call sig =>
    simp only [signalStep] at h
    split at h
    · rename_i hcall
      cases h
      exact .call sig hcall.1 hcall.2
    · cases h
  | push =>
    simp only [signalStep] at h
    split at h
    · rename_i ct hmade
      cases h
      exact .push ct hmade
    · cases h
  | wake =>
    simp only [signalStep] at h
    split at h
    · rename_i hpushed
      split at h
      · rename_i hpfd
        split at h
        · rename_i hroom
          cases h
          exact .write hpushed hpfd hroom
        · cases h
      · rename_i hpfd
        cases h
        exact .skip hpushed hpfd
    · cases h

/-- What a step of the consumer does. -/
inductive ExecMoves [Fintype Tid] (k : TaskConfig F) (s : TaskState Tid F) :
    ExecAction → TaskState Tid F → Prop
  | enter (hexec : s.exec = .out) :
      ExecMoves k s .enter { s with exec := .pop, ct := (0, none) }
  | pop (front : Cell) (rest : List Cell) (hexec : s.exec = .pop)
      (hq : s.queue.elems = front :: rest) :
      ExecMoves k s .pop { s with queue := ⟨rest⟩, ct := front, exec := .found }
  | popEmpty (hexec : s.exec = .pop) (hq : s.queue.elems = []) :
      ExecMoves k s .pop { s with exec := if k.pfd0 > 0 then .select else .out }
  | dispatch (hexec : s.exec = .found) :
      ExecMoves k s .dispatch { s with
        exec := if (k.funcs s.ct.1).isSome then .handler else .unsupport
        dispatched := s.dispatched ++ [(s.ct, k.funcs s.ct.1)] }
  | ret (hexec : s.exec = .handler ∧ s.calls none = .idle ∨ s.exec = .unsupport) :
      ExecMoves k s .ret { s with exec := .free }
  | free (hexec : s.exec = .free) :
      ExecMoves k s .free { s with exec := .pop, freed := s.freed ++ s.ct.addr.toList }
  | ready (hexec : s.exec = .select) (hunread : 0 < s.unread) :
      ExecMoves k s (.select .ready) { s with exec := .read }
  | timeout (hexec : s.exec = .select) (hunread : s.unread = 0) :
      ExecMoves k s (.select .timeout) { s with exec := .out }
  | error (hexec : s.exec = .select) :
      ExecMoves k s (.select .error) { s with exec := .out }
  | read (hexec : s.exec = .read) (hunread : 0 < s.unread) :
      ExecMoves k s .read { s with exec := .select, unread := s.unread - 1 }
  | destroy (hexec : s.exec = .out) (hidle : ∀ who, s.calls who = .idle) :
      ExecMoves k s .destroy { s with exec := .destroy, ct := (0, none) }
  | destroyPop (front : Cell) (rest : List Cell) (hexec : s.exec = .destroy)
      (hq : s.queue.elems = front :: rest) :
      ExecMoves k s .destroyPop { s with
        queue := ⟨rest⟩, ct := front, exec := .destroyFree, dropped := s.dropped ++ [front] }
  | destroyEmpty (hexec : s.exec = .destroy) (hq : s.queue.elems = []) :
      ExecMoves k s .destroyPop { s with exec := .dead }
  | destroyFree (hexec : s.exec = .destroyFree) :
      ExecMoves k s .destroyFree { s with
        exec := .destroy, freed := s.freed ++ s.ct.addr.toList }

omit [DecidableEq Tid] in
theorem execMoves [Fintype Tid] {k : TaskConfig F} {s s' : TaskState Tid F} {a : ExecAction}
    (h : execStep k s a = some s') : ExecMoves k s a s' := by
  cases a with
  | pop =>
    simp only [execStep, Option.ite_none_right_eq_some] at h
    obtain ⟨hexec, h⟩ := h
    rcases s.queue.pop_cases s.ct with ⟨hq, hpop⟩ | ⟨front, rest, hq, hpop⟩
    · rw [hpop] at h
      cases h
      exact .popEmpty hexec hq
    · rw [hpop] at h
      cases h
      exact .pop front rest hexec hq
  | destroyPop =>
    simp only [execStep, Option.ite_none_right_eq_some] at h
    obtain ⟨hexec, h⟩ := h
    rcases s.queue.pop_cases s.ct with ⟨hq, hpop⟩ | ⟨front, rest, hq, hpop⟩
    · simp only [hpop, Bool.false_eq_true, if_false, List.append_nil] at h
      cases h
      exact .destroyEmpty hexec hq
    · rw [hpop] at h
      cases h
      exact .destroyPop front rest hexec hq
  | select r =>
    cases r with
    | ready | timeout =>
      simp only [execStep, Option.ite_none_right_eq_some, Option.some.injEq] at h
      obtain ⟨hexec, hunread, rfl⟩ := h
      constructor
      · exact hexec
      · exact hunread
    | error =>
      simp only [execStep, Option.ite_none_right_eq_some, Option.some.injEq] at h
      obtain ⟨hexec, rfl⟩ := h
      exact .error hexec
  | enter | dispatch | ret | free | destroyFree =>
    simp only [execStep, Option.ite_none_right_eq_some, Option.some.injEq] at h
    obtain ⟨hexec, rfl⟩ := h
    constructor
    exact hexec
  | read | destroy =>
    simp only [execStep, Option.ite_none_right_eq_some, Option.some.injEq] at h
    obtain ⟨⟨hexec, hside⟩, rfl⟩ := h
    constructor
    · exact hexec
    · exact hside

end LinuxDemo

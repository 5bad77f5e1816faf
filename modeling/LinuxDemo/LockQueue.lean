/-
LinuxDemo/LockQueue.lean

`LockQueue<T>` of `inc/lockqueue.h`: a `std::queue` behind a mutex.

A section between `mtx.lock` and `mtx.unlock` is one function of the queue.
The output argument of `pop` and `pop_back` is passed in and handed back, since
the source leaves it as it was when the queue is empty.
-/
import Mathlib.Data.List.Basic

namespace LinuxDemo

/-- The elements, the oldest first. -/
structure LockQueue (T : Type*) where
  elems : List T
deriving DecidableEq

namespace LockQueue

variable {T : Type*}

def empty : LockQueue T := ⟨[]⟩

def push (q : LockQueue T) (val : T) : LockQueue T := ⟨q.elems ++ [val]⟩

/-- The result, the output argument and the queue after `pop(val)`. -/
def pop (q : LockQueue T) (val : T) : Bool × T × LockQueue T :=
  match q.elems with
  | [] => (false, val, q)
  | front :: rest => (true, front, ⟨rest⟩)

/-- The result, the output argument and the queue after `pop_back(val)`.  The
body is that of `pop`. -/
def popBack (q : LockQueue T) (val : T) : Bool × T × LockQueue T :=
  match q.elems with
  | [] => (false, val, q)
  | front :: rest => (true, front, ⟨rest⟩)

@[simp] theorem push_elems (q : LockQueue T) (val : T) :
    (q.push val).elems = q.elems ++ [val] := rfl

/-- `pop` succeeds exactly on a queue with a front, and takes that front. -/
theorem pop_cases (q : LockQueue T) (val : T) :
    q.elems = [] ∧ q.pop val = (false, val, q) ∨
      ∃ front rest, q.elems = front :: rest ∧ q.pop val = (true, front, ⟨rest⟩) := by
  rcases q with ⟨_ | ⟨front, rest⟩⟩
  · exact .inl ⟨rfl, rfl⟩
  · exact .inr ⟨front, rest, rfl, rfl⟩

theorem popBack_eq_pop (q : LockQueue T) (val : T) : q.popBack val = q.pop val := rfl

end LockQueue

end LinuxDemo

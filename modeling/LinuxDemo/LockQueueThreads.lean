/-
LinuxDemo/LockQueueThreads.lean

The lock queue of `inc/lockqueue.h` in the hands of many threads.

`LockQueue.apply` is the queue as an object behind its lock (`Lib/Locked.lean`):
a thread sees the queue when it asks for `elems.empty()` and `elems.front()`, and
changes it with `elems.push` or `elems.pop`.  `sequenceModel` is what the queue
is for, a sequence with a front for `pop` and a back for `pop_back`.

`pop` and `pop_back` have the same body, so both take the front.

* Whatever the threads do, the elements leave in the order in which they came,
  and none of them is lost or leaves twice (`pushed_eq`).
* The queue is linearizable as long as `pop_back` only meets queues whose
  elements are all equal, the empty ones and those with one element among them.
  Once `pop_back` was called on another queue, popping what is left shows it
  (`lockQueue_runs`).
-/
import LinuxDemo.Lib.Locked
import LinuxDemo.LockQueue

namespace LinuxDemo

variable {T Tid : Type*}

inductive QueueOp (T : Type*) where
  | push (val : T)
  /-- `val` is what the output argument holds. -/
  | pop (val : T)
  | popBack (val : T)
deriving DecidableEq

inductive QueueRet (T : Type*) where
  | pushed
  | popped (ret : Bool) (val : T)
deriving DecidableEq

/-- The queue as an object. -/
def LockQueue.apply (q : LockQueue T) : QueueOp T → QueueRet T × LockQueue T
  | .push val => (.pushed, q.push val)
  | .pop val => (.popped (q.pop val).1 (q.pop val).2.1, (q.pop val).2.2)
  | .popBack val => (.popped (q.popBack val).1 (q.popBack val).2.1, (q.popBack val).2.2)

/-- What the queue is for: a sequence with two ends. -/
def sequenceModel (xs : List T) : QueueOp T → QueueRet T × List T
  | .push val => (.pushed, xs ++ [val])
  | .pop val =>
      match xs.head? with
      | none => (.popped false val, xs)
      | some oldest => (.popped true oldest, xs.tail)
  | .popBack val =>
      match xs.getLast? with
      | none => (.popped false val, xs)
      | some newest => (.popped true newest, xs.dropLast)

/-! ### What comes in and what leaves -/

def QueueOp.pushed : QueueOp T → List T
  | .push val => [val]
  | .pop _ | .popBack _ => []

def QueueRet.returned : QueueRet T → List T
  | .popped true val => [val]
  | .popped false _ | .pushed => []

/-- The elements that were pushed. -/
def pushed (order : List (Call (QueueOp T) (QueueRet T))) : List T :=
  order.flatMap fun c => c.op.pushed

/-- The elements that were returned. -/
def returned (order : List (Call (QueueOp T) (QueueRet T))) : List T :=
  order.flatMap fun c => c.ret.returned

/-- The front leaves, or the queue is empty. -/
theorem apply_popped (q : LockQueue T) {op : QueueOp T} {val : T}
    (hop : op = .pop val ∨ op = .popBack val) :
    q.elems = [] ∧ q.apply op = (.popped false val, q) ∨
      ∃ front rest, q.elems = front :: rest ∧ q.apply op = (.popped true front, ⟨rest⟩) := by
  have happly : q.apply op = (.popped (q.pop val).1 (q.pop val).2.1, (q.pop val).2.2) := by
    rcases hop with rfl | rfl
    · rfl
    · rw [LockQueue.apply, q.popBack_eq_pop]
  rw [happly]
  rcases q.pop_cases val with ⟨hnil, hpop⟩ | ⟨front, rest, hcons, hpop⟩
  · rw [hpop]
    exact .inl ⟨hnil, rfl⟩
  · rw [hpop]
    exact .inr ⟨front, rest, hcons, rfl⟩

theorem apply_popped_elems (q : LockQueue T) {op : QueueOp T} {val : T}
    (hop : op = .pop val ∨ op = .popBack val) :
    q.elems = (q.apply op).1.returned ++ (q.apply op).2.elems := by
  rcases apply_popped q hop with ⟨hnil, heq⟩ | ⟨front, rest, hcons, heq⟩
  · rw [heq]
    rfl
  · rw [heq, hcons]
    rfl

/-- One call: what was there and what comes in is what leaves and what is there. -/
theorem apply_elems (q : LockQueue T) (op : QueueOp T) :
    q.elems ++ op.pushed = (q.apply op).1.returned ++ (q.apply op).2.elems := by
  cases op with
  | push val => rfl
  | pop val => exact (List.append_nil _).trans (apply_popped_elems q (.inl rfl))
  | popBack val => exact (List.append_nil _).trans (apply_popped_elems q (.inr rfl))

/-- **Nothing is lost, and nothing leaves twice.** -/
theorem pushed_eq {q : LockQueue T} {order : List (Call (QueueOp T) (QueueRet T))}
    (h : SeqObject.Legal LockQueue.apply q order) :
    q.elems ++ pushed order = returned order ++ (SeqObject.after LockQueue.apply q order).elems := by
  induction order generalizing q with
  | nil => exact List.append_nil _
  | cons c order ih =>
    obtain ⟨hret, hrest⟩ := h
    show q.elems ++ (c.op.pushed ++ pushed order) = (c.ret.returned ++ returned order) ++
      (SeqObject.after LockQueue.apply (q.apply c.op).2 order).elems
    rw [← List.append_assoc, apply_elems, ← hret, List.append_assoc, ih hrest, List.append_assoc]

/-! ### The two ends -/

/-- `pop_back` takes the front, so it is only right where the elements are equal. -/
def EndsAgree (q : LockQueue T) : QueueOp T → Prop
  | .popBack _ => ∀ x ∈ q.elems, ∀ y ∈ q.elems, x = y
  | .push _ | .pop _ => True

instance [DecidableEq T] (q : LockQueue T) : (op : QueueOp T) → Decidable (EndsAgree q op)
  | .popBack _ => inferInstanceAs (Decidable (∀ x ∈ q.elems, ∀ y ∈ q.elems, x = y))
  | .push _ | .pop _ => isTrue trivial

/-- The queue does what the sequence does. -/
theorem sequenceModel_eq (q : LockQueue T) (op : QueueOp T) (h : EndsAgree q op) :
    sequenceModel q.elems op = ((q.apply op).1, (q.apply op).2.elems) := by
  cases op with
  | push val => rfl
  | pop val =>
    rcases q with ⟨_ | ⟨front, rest⟩⟩
    · rfl
    · rfl
  | popBack val =>
    rcases q with ⟨_ | ⟨front, rest⟩⟩
    · rfl
    · -- the elements are copies of the front
      have hcopies : front :: rest = List.replicate (rest.length + 1) front :=
        List.eq_replicate_of_mem fun x hx => h x hx front (List.mem_cons_self ..)
      have hrest : rest = List.replicate rest.length front := (List.cons_eq_cons.mp hcopies).2
      have hlast : (front :: rest).getLast? = some front := by
        rw [hcopies, List.getLast?_replicate, if_neg (Nat.succ_ne_zero _)]
      have hdrop : (front :: rest).dropLast = rest := by
        rw [hcopies, List.dropLast_replicate, Nat.add_sub_cancel]
        exact hrest.symm
      show (match (front :: rest).getLast? with
        | none => (QueueRet.popped false val, front :: rest)
        | some newest => (.popped true newest, (front :: rest).dropLast)) = _
      rw [hlast, hdrop]
      rfl

/-- A list that loses the same at both ends has equal elements. -/
theorem eq_head_of_dropLast {x : T} {xs : List T} (h : (x :: xs).dropLast = xs) :
    ∀ y ∈ x :: xs, y = x := by
  induction xs generalizing x with
  | nil =>
    intro y hy
    exact List.mem_singleton.mp hy
  | cons z zs ih =>
    obtain ⟨rfl, hzs⟩ := List.cons_eq_cons.mp (h : x :: (z :: zs).dropLast = z :: zs)
    intro y hy
    rcases List.mem_cons.mp hy with rfl | hy
    · rfl
    · exact ih hzs y hy

/-! ### Popping what is left -/

/-- Calls of `pop` that return these elements. -/
def PopsAll (val : T) (xs : List T) (calls : List (Call (QueueOp T) (QueueRet T))) : Prop :=
  calls.map (fun c => (c.op, c.ret)) = xs.map fun x => (.pop val, .popped true x)

/-- The sequence began with the elements that were popped. -/
theorem front_of_popsAll {val : T} {xs ys : List T}
    {calls : List (Call (QueueOp T) (QueueRet T))} (hpops : PopsAll val xs calls)
    (h : SeqObject.Legal sequenceModel ys calls) : xs <+: ys := by
  induction xs generalizing ys calls with
  | nil => exact List.nil_prefix
  | cons x xs ih =>
    rcases calls with _ | ⟨⟨id, op, r⟩, calls⟩
    · cases hpops
    · obtain ⟨hc, hrest⟩ := List.cons_eq_cons.mp hpops
      cases hc
      obtain ⟨hret, hlegal⟩ := h
      rcases ys with _ | ⟨y, ys⟩
      · cases hret
      · obtain rfl : x = y := by
          cases hret
          rfl
        exact List.cons_prefix_cons.mpr ⟨rfl, ih hrest hlegal⟩

variable [DecidableEq Tid]

/-- A thread on its own can pop everything. -/
theorem run_popsAll (who : Tid) (val : T) (xs : List T)
    {s : LockState Tid (LockQueue T) (QueueOp T) (QueueRet T)} (hidle : s.pc who = .idle)
    (hfree : s.mtx = none) (hobj : s.obj.elems = xs) :
    ∃ bs t calls, run (lockStep LockQueue.apply) s bs = some t ∧ t.order = s.order ++ calls ∧
      PopsAll val xs calls := by
  induction xs generalizing s with
  | nil => exact ⟨[], s, [], rfl, (List.append_nil _).symm, rfl⟩
  | cons x xs ih =>
    obtain ⟨s', hrun, hidle', hfree', hobj', horder'⟩ :=
      run_call LockQueue.apply who (.pop val) hidle hfree
    have hpop : s.obj.apply (.pop val) = (.popped true x, ⟨xs⟩) := by
      rcases hq : s.obj with ⟨elems⟩
      rw [hq] at hobj
      obtain rfl : elems = x :: xs := hobj
      rfl
    rw [hpop] at hobj' horder'
    obtain ⟨bs, t, calls, hbs, horder, hpops⟩ := ih hidle' hfree' (by rw [hobj'])
    refine ⟨_ ++ bs, t, ⟨s.next, .pop val, .popped true x⟩ :: calls,
      (run_append bs hrun).trans hbs, ?_, List.cons_eq_cons.mpr ⟨rfl, hpops⟩⟩
    rw [horder, horder', List.append_assoc]
    rfl

/-- So can a thread that still has the lock. -/
theorem run_leave_popsAll {who : Tid} (val : T)
    {s : LockState Tid (LockQueue T) (QueueOp T) (QueueRet T)} {id : ℕ} {r : QueueRet T}
    (hpc : s.pc who = .stored id r) :
    ∃ bs t calls, run (lockStep LockQueue.apply) s bs = some t ∧ t.order = s.order ++ calls ∧
      PopsAll val s.obj.elems calls := by
  obtain ⟨s', hleave, hidle, hfree, hobj, horder⟩ := run_leave LockQueue.apply hpc
  obtain ⟨bs, t, calls, hbs, hcalls, hpops⟩ :=
    run_popsAll who val s.obj.elems hidle hfree (by rw [hobj])
  exact ⟨_ ++ bs, t, calls, (run_append bs hleave).trans hbs, hcalls.trans (by rw [horder]), hpops⟩

/-! ### Every run -/

/-- The sequence cannot lose its newest element and then give up what the queue has
left. -/
theorem illegal_popBack {front val : T} {rest : List T} {id : ℕ}
    {order calls : List (Call (QueueOp T) (QueueRet T))}
    (hafter : SeqObject.after sequenceModel [] order = front :: rest)
    (hends : ¬ ∀ x ∈ front :: rest, ∀ y ∈ front :: rest, x = y) (hpops : PopsAll val rest calls) :
    ¬ SeqObject.Legal sequenceModel []
      ((order ++ [⟨id, .popBack val, .popped true front⟩]) ++ calls) := by
  intro hlegal
  rw [SeqObject.legal_append, SeqObject.after_append, hafter] at hlegal
  have hfront : rest <+: (front :: rest).dropLast := front_of_popsAll hpops hlegal.2
  have hlength : rest.length = (front :: rest).dropLast.length := by
    rw [List.length_dropLast, List.length_cons, Nat.add_sub_cancel]
  have hsame := eq_head_of_dropLast (hfront.eq_of_length hlength).symm
  exact hends fun x hx y hy => (hsame x hx).trans (hsame y hy).symm

/-- After `pop_back` on a queue with different elements, popping what is left shows
that the results are not those of the sequence. -/
theorem illegal_of_popBack {as : List (LockAction Tid (QueueOp T))}
    {s s' : LockState Tid (LockQueue T) (QueueOp T) (QueueRet T)} {a : LockAction Tid (QueueOp T)}
    (h : run (lockStep LockQueue.apply) (.initial .empty) as = some s)
    (hafter : SeqObject.after sequenceModel [] s.order = s.obj.elems)
    (hstep : lockStep LockQueue.apply s a = some s') (hends : ¬ AtStore EndsAgree s a) :
    ∃ bs t, run (lockStep LockQueue.apply) (.initial .empty) (as ++ a :: bs) = some t ∧
      ¬ SeqObject.Legal sequenceModel [] t.order := by
  obtain ⟨who, id, op, hends', hpc, hobj, horder⟩ :=
    lockStep_of_not_atStore (lockInv_run h).excl hstep hends
  rcases op with val | val | val
  · exact absurd trivial hends'
  · exact absurd trivial hends'
  · -- the thread returns and pops the rest
    obtain ⟨bs, t, calls, hbs, hcalls, hpops⟩ := run_leave_popsAll val hpc
    refine ⟨bs, t, ?_, ?_⟩
    · rw [run_append _ h, run_cons, hstep]
      exact hbs
    · rcases apply_popped s.obj (.inr rfl) with ⟨hnil, -⟩ | ⟨front, rest, hcons, happly⟩
      · rw [EndsAgree, hnil] at hends'
        exact absurd nofun hends'
      · rw [hobj, happly] at hpops
        rw [hcons] at hafter
        rw [EndsAgree, hcons] at hends'
        rw [hcalls, horder, happly]
        exact illegal_popBack hafter hends' hpops

/-- The threads do these steps, starting with an empty queue. -/
def lockQueueRun (as : List (LockAction Tid (QueueOp T))) :
    Option (LockState Tid (LockQueue T) (QueueOp T) (QueueRet T)) :=
  run (lockStep LockQueue.apply) (.initial .empty) as

/-- `pop_back` only meets queues whose elements are equal. -/
def PopBacksAgree (as : List (LockAction Tid (QueueOp T))) : Prop :=
  RunMeets (lockStep LockQueue.apply) (fun s a _ => AtStore EndsAgree s a) (.initial .empty) as

instance [DecidableEq T] (as : List (LockAction Tid (QueueOp T))) : Decidable (PopBacksAgree as) :=
  inferInstanceAs (Decidable (RunMeets _ _ _ _))

/-- **The queue in the hands of many threads.**  What was pushed is what was
returned and what is in the queue, in this order.  The queue is linearizable, in the
order of its locked sections, if `pop_back` only meets queues whose elements are
equal; once it has met another one, the results can be seen to differ. -/
theorem lockQueue_runs {as : List (LockAction Tid (QueueOp T))}
    {s : LockState Tid (LockQueue T) (QueueOp T) (QueueRet T)} (h : lockQueueRun as = some s) :
    pushed s.order = returned s.order ++ s.obj.elems ∧
      (PopBacksAgree as →
        Linearizes s.hist s.order ∧ SeqObject.Legal sequenceModel [] s.order ∧
          SeqObject.after sequenceModel [] s.order = s.obj.elems) ∧
      (PopBacksAgree as → ∀ a s', lockStep LockQueue.apply s a = some s' →
        ¬ AtStore EndsAgree s a → ∃ bs t, lockQueueRun (as ++ a :: bs) = some t ∧
          ¬ SeqObject.Legal sequenceModel [] t.order) := by
  have hsequence : PopBacksAgree as → SeqObject.Legal sequenceModel [] s.order ∧
      SeqObject.after sequenceModel [] s.order = s.obj.elems :=
    fun hagree => run_refines sequenceModel_eq hagree h
  refine ⟨?_, ?_, ?_⟩
  · obtain ⟨hlegal, hafter⟩ := run_legal h
    have hpushed := pushed_eq hlegal
    rw [hafter] at hpushed
    exact hpushed
  · intro hagree
    exact ⟨run_linearizes h, hsequence hagree⟩
  · intro hagree a s' hstep hends
    exact illegal_of_popBack h (hsequence hagree).2 hstep hends

/-- A thread waits for the lock with `pop_back` while another one pushes. -/
theorem lockQueue_runs_two :
    ∃ s, lockQueueRun [.call 0 (.push 7), .call 1 (.popBack 0), .lock 0, .load 0, .store 0,
        .unlock 0, .lock 1, .load 1, .store 1, .ret 0, .unlock 1, .ret 1] = some s ∧
      s.order = [⟨0, .push 7, .pushed⟩, ⟨1, .popBack 0, .popped true 7⟩] ∧
      Linearizes s.hist s.order ∧ SeqObject.Legal sequenceModel [] s.order := by
  obtain ⟨s, hrun, horder⟩ : ∃ s, lockQueueRun ([.call 0 (.push 7), .call 1 (.popBack 0), .lock 0,
        .load 0, .store 0, .unlock 0, .lock 1, .load 1, .store 1, .ret 0, .unlock 1,
        .ret 1] : List (LockAction ℕ (QueueOp ℕ))) = some s ∧
      s.order = [⟨0, .push 7, .pushed⟩, ⟨1, .popBack 0, .popped true 7⟩] := ⟨_, rfl, rfl⟩
  obtain ⟨-, hagree, -⟩ := lockQueue_runs hrun
  obtain ⟨hlin, hlegal, -⟩ := hagree (by decide)
  exact ⟨s, hrun, horder, hlin, hlegal⟩

/-- What one thread sees that pushes `1` and `2` and calls `pop_back`. -/
def pushPushPopBack : List (Call (QueueOp ℕ) (QueueRet ℕ)) :=
  [⟨0, .push 1, .pushed⟩, ⟨1, .push 2, .pushed⟩, ⟨2, .popBack 0, .popped true 1⟩]

/-- `pop_back` returns the oldest element: no order of the calls explains that. -/
theorem popBack_takes_oldest :
    ∃ s, lockQueueRun (pushPushPopBack.flatMap fun c =>
        [.call 0 c.op, .lock 0, .load 0, .store 0, .unlock 0, .ret 0]) = some s ∧
      s.hist = soloHistory 0 pushPushPopBack ∧ ¬ Linearizable sequenceModel [] s.hist := by
  have hhist : (lockQueueRun (pushPushPopBack.flatMap fun c =>
      [.call 0 c.op, .lock 0, .load 0, .store 0, .unlock 0, .ret 0])).map LockState.hist =
        some (soloHistory 0 pushPushPopBack) := rfl
  obtain ⟨s, hrun, hsolo⟩ := Option.map_eq_some_iff.mp hhist
  refine ⟨s, hrun, hsolo, ?_⟩
  rintro ⟨order, hlin, hlegal⟩
  rw [hsolo] at hlin
  -- the sequence would have returned the element `2`
  obtain rfl := hlin.solo (by decide)
  cases hlegal.2.2.1

end LinuxDemo

/-
LinuxDemo/SimpleTaskWake.lean

When does a signal of `SimpleTask` leave the consumer asleep?

`execTask` empties the queue first and the pipe second.  A `pushSignal` that
lands between the two phases, write included, has its wake byte read by the
second phase, and the call returns with the signal in the queue and nothing in
the pipe.  So the wake-up is kept in the runs whose reads of the pipe keep it,
`KeepsWake`: a read may take the last byte only if the queue is empty or some
`pushSignal` has still to write.

The invariant is `Awake`: the consumer will look at the queue again, or the
queue is empty, or a byte is unread, or a thread is about to write one.
-/
import LinuxDemo.SimpleTask

namespace LinuxDemo

variable {Tid F : Type*}

/-- `execTask` will call `queue.pop` again before it returns. -/
def ExecPc.drains : ExecPc → Bool
  | .pop | .found | .handler | .unsupport | .free => true
  | _ => false

/-- The consumer is inside `execTask`. -/
def ExecPc.inExecTask (pc : ExecPc) : Bool := pc.drains ∨ pc = .select ∨ pc = .read

/-- Some `pushSignal` is between its push and its write. -/
def TaskState.Writing (s : TaskState Tid F) : Prop := ∃ who, s.calls who = .pushed

/-- With nobody in `execTask` and no write to come, a signal in the queue has
a byte in the pipe. -/
def NoLostWake (s : TaskState Tid F) : Prop :=
  s.exec.inExecTask = false → ¬ s.Writing → s.queue.elems ≠ [] → 0 < s.unread

/-- What a read of the pipe must leave behind. -/
def KeepsWake (s : TaskState Tid F) : TaskAction Tid → Prop
  | .exec .read => s.queue.elems = [] ∨ 1 < s.unread ∨ s.Writing
  | _ => True

instance [Fintype Tid] (s : TaskState Tid F) : Decidable s.Writing :=
  inferInstanceAs (Decidable (∃ _, _))

instance [Fintype Tid] (s : TaskState Tid F) : Decidable (NoLostWake s) :=
  inferInstanceAs (Decidable (_ → _ → _ → _))

instance [Fintype Tid] (s : TaskState Tid F) : (a : TaskAction Tid) → Decidable (KeepsWake s a)
  | .exec .read => inferInstanceAs (Decidable (_ ∨ _ ∨ _))
  | .signal _ _ | .exec .enter | .exec .pop | .exec .dispatch | .exec .ret | .exec .free
  | .exec (.select _) | .exec .destroy | .exec .destroyPop | .exec .destroyFree => isTrue trivial

/-- The invariant. -/
structure Awake (s : TaskState Tid F) : Prop where
  awake : s.exec.drains ∨ s.queue.elems = [] ∨ 0 < s.unread ∨ s.Writing

theorem awake_initial : Awake (TaskState.initial : TaskState Tid F) := ⟨.inr (.inl rfl)⟩

theorem Awake.noLostWake {s : TaskState Tid F} (h : Awake s) : NoLostWake s := by
  intro hexec hw hq
  have hdrains : s.exec.drains ≠ true := by
    intro hd
    simp [ExecPc.inExecTask, hd] at hexec
  rcases h.awake with hd | hnil | hunread | hwriting
  · exact absurd hd hdrains
  · exact absurd hnil hq
  · exact hunread
  · exact absurd hwriting hw

variable [DecidableEq Tid]

/-- A thread that is not about to write may move on: the others still write. -/
theorem writing_update {calls : Option Tid → SignalPc} {who : Option Tid} (pc : SignalPc)
    (hne : calls who ≠ .pushed) (h : ∃ w, calls w = .pushed) :
    ∃ w, Function.update calls who pc w = .pushed := by
  obtain ⟨w, hw⟩ := h
  refine ⟨w, ?_⟩
  rw [Function.update_of_ne, hw]
  rintro rfl
  exact hne hw

/-- A step of `pushSignal` keeps the consumer awake: the push is followed by a
write, and the write leaves a byte. -/
theorem awake_signalMoves {k : TaskConfig F} (hpfd : 0 < k.pfd1) {s s' : TaskState Tid F}
    {who : Option Tid} (hs : Awake s) (h : SignalMoves k s who s') : Awake s' := by
  cases h with
  | call sig hidle =>
    refine ⟨hs.awake.imp_right (Or.imp_right (Or.imp_right (writing_update _ ?_)))⟩
    rw [hidle]
    exact SignalPc.noConfusion
  | push ct => exact ⟨.inr (.inr (.inr ⟨who, Function.update_self ..⟩))⟩
  | write => exact ⟨.inr (.inr (.inl (Nat.succ_pos _)))⟩
  | skip _ hskip => exact absurd hpfd hskip

variable [Fintype Tid]

omit [DecidableEq Tid] in
/-- A step of the consumer keeps it awake, if a read of the pipe leaves enough
behind: the drain loop ends on an empty queue. -/
theorem awake_execMoves {k : TaskConfig F} {s s' : TaskState Tid F} {a : ExecAction}
    (hs : Awake s) (hk : KeepsWake s (.exec a)) (h : ExecMoves k s a s') : Awake s' := by
  -- outside the drain loop, what keeps the consumer awake is not its own place
  have hrest : s.exec.drains = false → s.queue.elems = [] ∨ 0 < s.unread ∨ s.Writing :=
    fun hd => hs.awake.resolve_left (by rw [hd]; decide)
  cases h with
  | enter | pop | ret | free => exact ⟨.inl rfl⟩
  | dispatch =>
    refine ⟨.inl ?_⟩
    simp only
    split <;> rfl
  | popEmpty _ hq => exact ⟨.inr (.inl hq)⟩
  | read _ _ => exact ⟨.inr (hk.imp_right (Or.imp_left Nat.sub_pos_of_lt))⟩
  | ready hexec | timeout hexec | error hexec => exact ⟨.inr (hrest (by rw [hexec]; rfl))⟩
  | destroy hexec | destroyFree hexec => exact ⟨.inr (hrest (by rw [hexec]; rfl))⟩
  | destroyPop front rest hexec hq =>
    exact ⟨.inr (.inr ((hrest (by rw [hexec]; rfl)).resolve_left (by simp [hq])))⟩
  | destroyEmpty _ hq => exact ⟨.inr (.inl hq)⟩

/-- **One step keeps the consumer awake** unless a read takes the last byte. -/
theorem awake_step {k : TaskConfig F} (hpfd : 0 < k.pfd1) (s : TaskState Tid F)
    (a : TaskAction Tid) (s' : TaskState Tid F) (hs : Awake s) (hk : KeepsWake s a)
    (h : taskStep k s a = some s') : Awake s' := by
  cases a with
  | signal who a => exact awake_signalMoves hpfd hs (signalMoves h)
  | exec a => exact awake_execMoves hs hk (execMoves h)

/-- A read that leaves nothing behind is followed by a lost wake-up: `select`
times out, and `execTask` returns. -/
theorem lost_wake_of_read {k : TaskConfig F} {s s' : TaskState Tid F}
    (hread : taskStep k s (.exec .read) = some s') (hk : ¬ KeepsWake s (.exec .read)) :
    ∃ t, taskStep k s' (.exec (.select .timeout)) = some t ∧ ¬ NoLostWake t := by
  simp only [KeepsWake, not_or, not_lt] at hk
  obtain ⟨hq, hu, hw⟩ := hk
  simp only [taskStep, execStep] at hread
  split at hread
  · rename_i hexec
    cases hread
    have hu0 : s.unread - 1 = 0 := by omega
    refine ⟨{ s with exec := .out, unread := s.unread - 1 }, ?_, fun hno => ?_⟩
    · simp only [taskStep, execStep, if_pos hu0, if_true]
    · have hpos : 0 < s.unread - 1 := by
        apply hno
        · rfl
        · exact hw
        · exact hq
      omega
  · cases hread

/-- **When `SimpleTask` loses no wake-up.**  In the runs whose reads keep the
wake-up, a queue with a signal in it has an unread byte in the pipe whenever no
`execTask` runs and no write is to come.  The condition is exact: from any run
whose next read breaks it, two steps lead to a lost wake-up. -/
theorem noLostWake_of_keepsWake (k : TaskConfig F) (hpfd : 0 < k.pfd1)
    (as : List (TaskAction Tid)) (s : TaskState Tid F)
    (h : run (taskStep k) TaskState.initial as = some s) :
    (RunMeets (taskStep k) (fun s a _ => KeepsWake s a) TaskState.initial as → NoLostWake s) ∧
      ((taskStep k s (.exec .read)).isSome → ¬ KeepsWake s (.exec .read) →
        ∃ t, run (taskStep k) TaskState.initial
          (as ++ [.exec .read, .exec (.select .timeout)]) = some t ∧ ¬ NoLostWake t) := by
  constructor
  · intro hk
    exact (run_invariant_of (I := Awake) (awake_step hpfd) awake_initial hk h).noLostWake
  · intro hread hk
    obtain ⟨s', hs'⟩ := Option.isSome_iff_exists.mp hread
    obtain ⟨t, ht, hlost⟩ := lost_wake_of_read hs' hk
    refine ⟨t, ?_, hlost⟩
    rw [run_append _ h, run_cons, hs', Option.bind_some, run_cons, ht, Option.bind_some, run_nil]

/-- One producer and no handlers, with a pipe of the size Linux gives it. -/
def oneProducer : TaskConfig Unit := ⟨fun _ => none, 5, 6, 65536⟩

/-- The push of a signal falls between the last `pop` of `execTask` and its
`select`; its write comes later. -/
def lateWrite : List (TaskAction Unit) :=
  [.exec .enter, .exec .pop, .signal (some ()) (.call ⟨7, none, 0⟩), .signal (some ()) .push,
    .exec (.select .timeout), .signal (some ()) .wake]

/-- Both the push and the write fall between the last `pop` and the `select`. -/
def earlyWrite : List (TaskAction Unit) :=
  [.exec .enter, .exec .pop, .signal (some ()) (.call ⟨7, none, 0⟩), .signal (some ()) .push,
    .signal (some ()) .wake, .exec (.select .ready), .exec .read, .exec (.select .timeout)]

/-- The byte of a late write stays in the pipe. -/
theorem noLostWake_late_write :
    ∃ s, run (taskStep oneProducer) TaskState.initial lateWrite = some s ∧
      NoLostWake s ∧ s.queue.elems ≠ [] :=
  ⟨_, rfl, (noLostWake_of_keepsWake oneProducer (by decide) lateWrite _ rfl).1 (by decide),
    by decide⟩

/-- The byte of an early write is read, and the signal stays in the queue. -/
theorem lost_wake_early_write :
    ∃ s, run (taskStep oneProducer) TaskState.initial earlyWrite = some s ∧
      ¬ NoLostWake s ∧ s.exec = .out ∧ (∀ who, s.calls who = .idle) ∧ s.queue.elems ≠ [] ∧
      s.unread = 0 :=
  ⟨_, rfl, by decide⟩

end LinuxDemo

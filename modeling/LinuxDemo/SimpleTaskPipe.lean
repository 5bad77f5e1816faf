/-
LinuxDemo/SimpleTaskPipe.lean

When does the consumer of `SimpleTask` block on its own wake pipe?

A handler that calls `pushSignal` writes to the pipe that only its own thread
reads, and that reads it only after the queue is empty.  If the pipe is full at
that write, nothing will ever empty it.  So whoever calls `pushSignal` must find
room for the byte, and for the bytes of all calls that are under way: the
consumer always, and another thread while the consumer is inside a call
(`LeavesRoom`).

The invariant `Room` says that while the consumer is inside `pushSignal`, there
is room for its byte and for those of the others.  A call that leaves no room can
be followed by a run in which the others write first and fill the pipe.
-/
import LinuxDemo.SimpleTask
import Mathlib.Data.Finset.Card

namespace LinuxDemo

variable {Tid F : Type*} [Fintype Tid]

/-! ### The threads that are about to write -/

theorem SignalPc.made_ne_idle (ct : Cell) : SignalPc.made ct ≠ .idle := nofun

theorem SignalPc.pushed_ne_idle : SignalPc.pushed ≠ .idle := nofun

/-- The other threads that are inside `pushSignal`. -/
def insidePush (calls : Option Tid → SignalPc) : Finset Tid :=
  Finset.univ.filter fun t => calls (some t) ≠ .idle

theorem mem_insidePush {calls : Option Tid → SignalPc} {t : Tid} :
    t ∈ insidePush calls ↔ calls (some t) ≠ .idle := by
  rw [insidePush, Finset.mem_filter]
  exact and_iff_right (Finset.mem_univ t)

theorem mem_insidePush_of_made {calls : Option Tid → SignalPc} {t : Tid} {ct : Cell}
    (hmade : calls (some t) = .made ct) : t ∈ insidePush calls := by
  rw [mem_insidePush, hmade]
  exact SignalPc.made_ne_idle ct

theorem mem_insidePush_of_pushed {calls : Option Tid → SignalPc} {t : Tid}
    (hpushed : calls (some t) = .pushed) : t ∈ insidePush calls := by
  rw [mem_insidePush, hpushed]
  exact SignalPc.pushed_ne_idle

section Update

variable [DecidableEq Tid]

/-- A step of the consumer. -/
theorem insidePush_update_none (calls : Option Tid → SignalPc) (pc : SignalPc) :
    insidePush (Function.update calls none pc) = insidePush calls := by
  ext t
  have hne : some t ≠ none := Option.some_ne_none t
  rw [mem_insidePush, mem_insidePush, Function.update_of_ne hne]

/-- A thread that is inside afterwards. -/
theorem insidePush_update_of_ne (calls : Option Tid → SignalPc) (t : Tid) {pc : SignalPc}
    (hpc : pc ≠ .idle) :
    insidePush (Function.update calls (some t) pc) = insert t (insidePush calls) := by
  ext u
  rw [Finset.mem_insert, mem_insidePush, mem_insidePush]
  by_cases hu : u = t
  · subst hu
    rw [Function.update_self]
    exact iff_of_true hpc (.inl rfl)
  · rw [Function.update_of_ne fun heq => hu (Option.some.inj heq), or_iff_right hu]

/-- A thread that was inside before, too. -/
theorem insidePush_update_pushed {calls : Option Tid → SignalPc} {t : Tid}
    (hmem : t ∈ insidePush calls) :
    insidePush (Function.update calls (some t) .pushed) = insidePush calls := by
  rw [insidePush_update_of_ne calls t SignalPc.pushed_ne_idle, Finset.insert_eq_of_mem hmem]

/-- A thread that is not inside afterwards. -/
theorem insidePush_update_idle (calls : Option Tid → SignalPc) (t : Tid) :
    insidePush (Function.update calls (some t) .idle) = (insidePush calls).erase t := by
  ext u
  rw [Finset.mem_erase, mem_insidePush, mem_insidePush]
  by_cases hu : u = t
  · subst hu
    rw [Function.update_self]
    exact iff_of_false (fun hne => hne rfl) fun hne => hne.1 rfl
  · rw [Function.update_of_ne fun heq => hu (Option.some.inj heq), and_iff_right hu]

end Update

/-- The bytes in the pipe, and those that other threads are about to write. -/
def TaskState.load (s : TaskState Tid F) : ℕ := s.unread + (insidePush s.calls).card

/-- The consumer is at the pipe write of its own `pushSignal`, and the pipe is
full. -/
def Stuck (k : TaskConfig F) (s : TaskState Tid F) : Prop :=
  s.calls none = .pushed ∧ k.pfd1 > 0 ∧ k.capacity ≤ s.unread

/-- A thread that enters `pushSignal` finds room: the consumer for its byte, and
another thread for its own and for that of the consumer, if that is inside. -/
def LeavesRoom (k : TaskConfig F) (s : TaskState Tid F) : TaskAction Tid → Prop
  | .signal none _ => s.calls none = .idle → s.load < k.capacity
  | .signal (some t) _ =>
      s.calls (some t) = .idle → s.calls none ≠ .idle → s.load + 1 < k.capacity
  | .exec _ => True

instance [DecidableEq Tid] (k : TaskConfig F) (s : TaskState Tid F) :
    (a : TaskAction Tid) → Decidable (LeavesRoom k s a)
  | .signal none _ => inferInstanceAs (Decidable (_ → _))
  | .signal (some _) _ => inferInstanceAs (Decidable (_ → _ → _))
  | .exec _ => isTrue trivial

/-- The invariant. -/
def Room (k : TaskConfig F) (s : TaskState Tid F) : Prop :=
  s.calls none ≠ .idle → s.load < k.capacity

theorem room_initial (k : TaskConfig F) : Room k (TaskState.initial : TaskState Tid F) :=
  fun hne => absurd rfl hne

theorem Room.not_stuck {k : TaskConfig F} {s : TaskState Tid F} (hroom : Room k s) :
    ¬ Stuck k s := by
  rintro ⟨hpushed, -, hfull⟩
  have hlt := hroom (by rw [hpushed]; exact SignalPc.pushed_ne_idle)
  rw [TaskState.load] at hlt
  omega

/-! ### Steps -/

section Steps

variable [DecidableEq Tid]

/-- A step of the consumer's own call keeps the room. -/
theorem room_own {k : TaskConfig F} {s s' : TaskState Tid F} (hroom : Room k s)
    (hleaves : s.calls none = .idle → s.load < k.capacity) (h : SignalMoves k s none s') :
    Room k s' := by
  cases h with
  | call sig hidle hmay =>
    intro _
    have hlt := hleaves hidle
    simp only [TaskState.load, insidePush_update_none] at hlt ⊢
    exact hlt
  | push ct hmade =>
    intro _
    have hlt := hroom (by rw [hmade]; exact SignalPc.made_ne_idle ct)
    simp only [TaskState.load, insidePush_update_none] at hlt ⊢
    exact hlt
  | write hpushed hpfd hfits =>
    intro hne
    exact absurd (Function.update_self none .idle s.calls) hne
  | skip hpushed hpfd =>
    intro hne
    exact absurd (Function.update_self none .idle s.calls) hne

omit [Fintype Tid] in
/-- The consumer is where it was after a step of another thread. -/
theorem calls_none_other {k : TaskConfig F} {s s' : TaskState Tid F} {t : Tid}
    (h : SignalMoves k s (some t) s') : s'.calls none = s.calls none := by
  have hne : (none : Option Tid) ≠ some t := (Option.some_ne_none t).symm
  have hupdate : ∀ pc, Function.update s.calls (some t) pc none = s.calls none :=
    fun pc => Function.update_of_ne hne pc s.calls
  cases h with
  | call _ _ _ => simp only [hupdate]
  | push _ _ => exact hupdate .pushed
  | write _ _ _ => exact hupdate .idle
  | skip _ _ => exact hupdate .idle

/-- A step of another thread adds to the load when it enters only. -/
theorem load_other {k : TaskConfig F} {s s' : TaskState Tid F} {t : Tid}
    (h : SignalMoves k s (some t) s') :
    s'.load ≤ s.load + (if s.calls (some t) = .idle then 1 else 0) := by
  cases h with
  | call sig hidle hmay =>
    rw [if_pos hidle]
    simp only [TaskState.load, insidePush_update_of_ne s.calls t (SignalPc.made_ne_idle _)]
    have hcard := Finset.card_insert_le t (insidePush s.calls)
    omega
  | push ct hmade =>
    simp only [TaskState.load, insidePush_update_pushed (mem_insidePush_of_made hmade)]
    exact Nat.le_add_right _ _
  | write hpushed hpfd hfits =>
    have hcard := Finset.card_erase_add_one (mem_insidePush_of_pushed hpushed)
    simp only [TaskState.load, insidePush_update_idle]
    omega
  | skip hpushed hpfd =>
    have hcard := Finset.card_le_card (Finset.erase_subset t (insidePush s.calls))
    simp only [TaskState.load, insidePush_update_idle]
    omega

/-- **One step keeps the room**, if whoever enters `pushSignal` leaves it. -/
theorem room_step {k : TaskConfig F} (s : TaskState Tid F) (a : TaskAction Tid)
    (s' : TaskState Tid F) (hroom : Room k s) (hleaves : LeavesRoom k s a)
    (h : taskStep k s a = some s') : Room k s' := by
  cases a with
  | signal who a =>
    cases who with
    | none => exact room_own hroom hleaves (signalMoves h)
    | some t =>
      intro hne
      have hmoves := signalMoves h
      have hload := load_other hmoves
      rw [calls_none_other hmoves] at hne
      have hlt := hroom hne
      split at hload
      · rename_i hidle
        have hfits := hleaves hidle hne
        omega
      · omega
  | exec a =>
    -- the consumer takes from the pipe only
    have hkept : s'.calls = s.calls ∧ s'.unread ≤ s.unread := by
      cases execMoves h with
      | read _ _ => exact ⟨rfl, Nat.sub_le _ _⟩
      | enter | pop | popEmpty | dispatch | ret | free => exact ⟨rfl, Nat.le_refl _⟩
      | ready | timeout | error => exact ⟨rfl, Nat.le_refl _⟩
      | destroy | destroyPop | destroyEmpty | destroyFree => exact ⟨rfl, Nat.le_refl _⟩
    intro hne
    rw [hkept.1] at hne
    have hlt := hroom hne
    rw [TaskState.load] at hlt ⊢
    rw [hkept.1]
    omega

/-! ### How the pipe fills up -/

omit [Fintype Tid] in
/-- A thread that was not inside `pushSignal` has entered it. -/
theorem SignalMoves.entered {k : TaskConfig F} {s s' : TaskState Tid F} {who : Option Tid}
    (h : SignalMoves k s who s') (hidle : s.calls who = .idle) :
    ∃ ct, s'.calls = Function.update s.calls who (.made ct) ∧ s'.unread = s.unread := by
  cases h with
  | call sig _ _ => exact ⟨_, rfl, rfl⟩
  | push ct hmade => exact absurd (hmade.symm.trans hidle) (SignalPc.made_ne_idle ct)
  | write hpushed _ _ => exact absurd (hpushed.symm.trans hidle) SignalPc.pushed_ne_idle
  | skip hpushed _ => exact absurd (hpushed.symm.trans hidle) SignalPc.pushed_ne_idle

/-- A step that leaves no room leaves the consumer inside `pushSignal`, with more
bytes to be written than the pipe takes. -/
theorem no_room_step {k : TaskConfig F} {s s' : TaskState Tid F} {a : TaskAction Tid}
    (hleaves : ¬ LeavesRoom k s a) (h : taskStep k s a = some s') :
    s'.calls none ≠ .idle ∧ k.capacity ≤ s'.load := by
  cases a with
  | exec a => exact absurd trivial hleaves
  | signal who a =>
    have hmoves := signalMoves h
    cases who with
    | none =>
      obtain ⟨hidle, hfull⟩ := Classical.not_imp.mp hleaves
      obtain ⟨ct, hcalls, hunread⟩ := hmoves.entered hidle
      refine ⟨?_, ?_⟩
      · rw [hcalls, Function.update_self]
        exact SignalPc.made_ne_idle ct
      · rw [TaskState.load, hcalls, hunread, insidePush_update_none]
        exact Nat.not_lt.mp hfull
    | some t =>
      obtain ⟨hidle, hfull⟩ := Classical.not_imp.mp hleaves
      obtain ⟨hinside, hfull⟩ := Classical.not_imp.mp hfull
      obtain ⟨ct, hcalls, hunread⟩ := hmoves.entered hidle
      refine ⟨by rw [calls_none_other hmoves]; exact hinside, ?_⟩
      -- it was not counted before
      have hnew : t ∉ insidePush s.calls := fun hmem => mem_insidePush.mp hmem hidle
      rw [TaskState.load] at hfull
      rw [TaskState.load, hcalls, hunread,
        insidePush_update_of_ne s.calls t (SignalPc.made_ne_idle ct),
        Finset.card_insert_of_notMem hnew]
      omega

/-- Another thread may push the cell it has made. -/
theorem push_other {k : TaskConfig F} {s : TaskState Tid F} {t : Tid} {ct : Cell}
    (hmade : s.calls (some t) = .made ct) :
    ∃ s', taskStep k s (.signal (some t) .push) = some s' ∧ s'.calls (some t) = .pushed ∧
      s'.calls none = s.calls none ∧ s'.unread = s.unread ∧ s'.load = s.load := by
  refine ⟨{ s with
    queue := s.queue.push ct
    calls := Function.update s.calls (some t) .pushed
    pushed := s.pushed ++ [ct] }, ?_, Function.update_self (some t) .pushed s.calls,
    Function.update_of_ne (Option.some_ne_none t).symm .pushed s.calls, rfl, ?_⟩
  · simp only [taskStep, signalStep, hmade]
  · simp only [TaskState.load, insidePush_update_pushed (mem_insidePush_of_made hmade)]

/-- And write its byte, while there is room. -/
theorem write_other {k : TaskConfig F} (hpfd : 0 < k.pfd1) {s : TaskState Tid F} {t : Tid}
    (hpushed : s.calls (some t) = .pushed) (hroom : s.unread < k.capacity) :
    ∃ s', taskStep k s (.signal (some t) .wake) = some s' ∧
      s'.calls none = s.calls none ∧ s'.unread = s.unread + 1 ∧ s'.load = s.load := by
  have hcard := Finset.card_erase_add_one (mem_insidePush_of_pushed hpushed)
  refine ⟨{ s with
    unread := s.unread + 1
    calls := Function.update s.calls (some t) .idle }, ?_,
    Function.update_of_ne (Option.some_ne_none t).symm .idle s.calls, rfl, ?_⟩
  · simp only [taskStep, signalStep, hpushed, gt_iff_lt, if_pos hpfd, if_pos hroom]
  · simp only [TaskState.load, insidePush_update_idle]
    omega

/-- The consumer in a handler may call `pushSignal`. -/
theorem call_own (k : TaskConfig F) {s : TaskState Tid F} (sig : Signal)
    (hexec : s.exec = .handler) (hidle : s.calls none = .idle) :
    ∃ s', taskStep k s (.signal none (.call sig)) = some s' ∧ s'.exec = .handler ∧
      (∃ ct, s'.calls none = .made ct) ∧ s'.unread = s.unread := by
  have hcall : s.calls none = .idle ∧ mayCall s.exec (none : Option Tid) = true :=
    ⟨hidle, by rw [hexec]; rfl⟩
  refine ⟨{ s with
    calls := Function.update s.calls none
      (.made (sig.type, some (SimpleBuf.new s.called.length sig.data sig.len)))
    called := s.called ++ [sig] }, ?_, hexec, ⟨_, Function.update_self none _ s.calls⟩, rfl⟩
  simp only [taskStep, signalStep, if_pos hcall]

/-- And push its cell. -/
theorem push_own (k : TaskConfig F) {s : TaskState Tid F} {ct : Cell}
    (hmade : s.calls none = .made ct) :
    ∃ s', taskStep k s (.signal none .push) = some s' ∧ s'.exec = s.exec ∧
      s'.calls none = .pushed ∧ s'.unread = s.unread := by
  refine ⟨{ s with
    queue := s.queue.push ct
    calls := Function.update s.calls none .pushed
    pushed := s.pushed ++ [ct] }, ?_, rfl, Function.update_self none .pushed s.calls, rfl⟩
  simp only [taskStep, signalStep, hmade]

/-- And write its byte, while there is room. -/
theorem write_own {k : TaskConfig F} (hpfd : 0 < k.pfd1) {s : TaskState Tid F}
    (hpushed : s.calls none = .pushed) (hroom : s.unread < k.capacity) :
    ∃ s', taskStep k s (.signal none .wake) = some s' ∧ s'.exec = s.exec ∧
      s'.calls none = .idle ∧ s'.unread = s.unread + 1 := by
  refine ⟨{ s with
    unread := s.unread + 1
    calls := Function.update s.calls none .idle }, ?_, rfl,
    Function.update_self none .idle s.calls, rfl⟩
  simp only [taskStep, signalStep, hpushed, gt_iff_lt, if_pos hpfd, if_pos hroom]

/-- A consumer inside `pushSignal` comes to its write. -/
theorem reach_write (k : TaskConfig F) {s : TaskState Tid F} (hinside : s.calls none ≠ .idle) :
    ∃ bs s', run (taskStep k) s bs = some s' ∧ s'.calls none = .pushed ∧
      s'.unread = s.unread := by
  rcases hpc : s.calls none with _ | ct | _
  · exact absurd hpc hinside
  · obtain ⟨s', hstep, -, hpushed, hunread⟩ := push_own k hpc
    exact ⟨[.signal none .push], s', run_cons_eq_some.mpr ⟨s', hstep, rfl⟩, hpushed, hunread⟩
  · exact ⟨[], s, rfl, hpc, rfl⟩

/-- **The pipe fills up.**  With the consumer inside `pushSignal`, and no room for
its byte behind those of the others, the others can write until it is full. -/
theorem reach_stuck {k : TaskConfig F} (hpfd : 0 < k.pfd1) (n : ℕ) (s : TaskState Tid F)
    (hn : k.capacity - s.unread = n) (hinside : s.calls none ≠ .idle)
    (hload : k.capacity ≤ s.load) : ∃ bs t, run (taskStep k) s bs = some t ∧ Stuck k t := by
  induction n generalizing s with
  | zero =>
    obtain ⟨bs, t, hrun, hpushed, hunread⟩ := reach_write k hinside
    exact ⟨bs, t, hrun, hpushed, hpfd, by omega⟩
  | succ n ih =>
    have hroom : s.unread < k.capacity := by omega
    have hwriter : ∃ t, t ∈ insidePush s.calls := by
      apply Finset.card_pos.mp
      rw [TaskState.load] at hload
      omega
    obtain ⟨t, ht⟩ := hwriter
    have hwrites : ∀ s₁ : TaskState Tid F, s₁.calls (some t) = .pushed →
        s₁.calls none = s.calls none → s₁.unread = s.unread → s₁.load = s.load →
        ∃ bs u, run (taskStep k) s₁ bs = some u ∧ Stuck k u := by
      intro s₁ hpushed hnone hunread hsame
      obtain ⟨s₂, hstep, hnone₂, hunread₂, hload₂⟩ :=
        write_other hpfd hpushed (by rw [hunread]; exact hroom)
      obtain ⟨bs, u, hrun, hstuck⟩ := ih s₂ (by omega) (by rw [hnone₂, hnone]; exact hinside)
        (by omega)
      exact ⟨_ :: bs, u, run_cons_eq_some.mpr ⟨s₂, hstep, hrun⟩, hstuck⟩
    rcases hpc : s.calls (some t) with _ | ct | _
    · exact absurd hpc (mem_insidePush.mp ht)
    · -- it has still to push its cell
      obtain ⟨s₁, hstep, hpushed, hnone, hunread, hsame⟩ := push_other (k := k) hpc
      obtain ⟨bs, u, hrun, hstuck⟩ := hwrites s₁ hpushed hnone hunread hsame
      exact ⟨_ :: bs, u, run_cons_eq_some.mpr ⟨s₁, hstep, hrun⟩, hstuck⟩
    · exact hwrites s hpc rfl rfl rfl

/-- **When the consumer never blocks on its own pipe.**  In the runs in which
whoever enters `pushSignal` finds room, it is never stuck.  The condition is
exact: from any run whose next step breaks it, some further steps lead to a
consumer that is stuck. -/
theorem never_stuck_of_leavesRoom (k : TaskConfig F) (hpfd : 0 < k.pfd1)
    (as : List (TaskAction Tid)) (s : TaskState Tid F)
    (h : run (taskStep k) TaskState.initial as = some s) :
    (RunMeets (taskStep k) (fun s a _ => LeavesRoom k s a) TaskState.initial as →
        ¬ Stuck k s) ∧
      ∀ a, (taskStep k s a).isSome → ¬ LeavesRoom k s a →
        ∃ bs t, run (taskStep k) TaskState.initial (as ++ a :: bs) = some t ∧ Stuck k t := by
  constructor
  · intro hmeets
    exact (run_invariant_of (I := Room k) room_step (room_initial k) hmeets h).not_stuck
  · intro a hstep hleaves
    obtain ⟨s', hs'⟩ := Option.isSome_iff_exists.mp hstep
    obtain ⟨hinside, hload⟩ := no_room_step hleaves hs'
    obtain ⟨bs, t, hrun, hstuck⟩ := reach_stuck hpfd _ s' rfl hinside hload
    refine ⟨bs, t, ?_, hstuck⟩
    rw [run_append _ h]
    exact run_cons_eq_some.mpr ⟨s', hs', hrun⟩

/-! ### A handler that pushes -/

/-- A whole `pushSignal` of the consumer. -/
def selfPush : List (TaskAction Tid) :=
  [.signal none (.call ⟨7, none, 0⟩), .signal none .push, .signal none .wake]

theorem run_selfPush {k : TaskConfig F} (hpfd : 0 < k.pfd1) {s : TaskState Tid F}
    (hexec : s.exec = .handler) (hidle : s.calls none = .idle) (hroom : s.unread < k.capacity) :
    ∃ s', run (taskStep k) s selfPush = some s' ∧ s'.exec = .handler ∧
      s'.calls none = .idle ∧ s'.unread = s.unread + 1 := by
  obtain ⟨s₁, hcall, hexec₁, ⟨ct, hmade⟩, hunread₁⟩ := call_own k ⟨7, none, 0⟩ hexec hidle
  obtain ⟨s₂, hpush, hexec₂, hpushed, hunread₂⟩ := push_own k hmade
  obtain ⟨s₃, hwrite, hexec₃, hidle₃, hunread₃⟩ := write_own hpfd hpushed (by omega)
  refine ⟨s₃, ?_, by rw [hexec₃, hexec₂, hexec₁], hidle₃, by omega⟩
  rw [selfPush, run_cons, hcall, Option.bind_some, run_cons, hpush, Option.bind_some, run_cons,
    hwrite, Option.bind_some, run_nil]

/-- Any number of them, while there is room. -/
theorem run_selfPushes {k : TaskConfig F} (hpfd : 0 < k.pfd1) (n : ℕ) {s : TaskState Tid F}
    (hexec : s.exec = .handler) (hidle : s.calls none = .idle)
    (hroom : s.unread + n ≤ k.capacity) :
    ∃ s', run (taskStep k) s (List.replicate n selfPush).flatten = some s' ∧
      s'.exec = .handler ∧ s'.calls none = .idle ∧ s'.unread = s.unread + n := by
  induction n generalizing s with
  | zero => exact ⟨s, rfl, hexec, hidle, rfl⟩
  | succ n ih =>
    obtain ⟨s₁, hrun₁, hexec₁, hidle₁, hunread₁⟩ :=
      run_selfPush hpfd hexec hidle (by omega)
    obtain ⟨s₂, hrun₂, hexec₂, hidle₂, hunread₂⟩ := ih hexec₁ hidle₁ (by omega)
    refine ⟨s₂, ?_, hexec₂, hidle₂, by omega⟩
    rw [List.replicate_succ, List.flatten_cons, run_append _ hrun₁, hrun₂]

end Steps

/-- A handler for every signal, and a pipe of the size Linux gives it. -/
def selfPusher : TaskConfig Unit := ⟨fun _ => some (), 5, 6, 65536⟩

/-- A signal from outside, up to its handler. -/
def firstSignal : List (TaskAction Unit) :=
  [.signal (some ()) (.call ⟨7, none, 0⟩), .signal (some ()) .push, .signal (some ()) .wake,
    .exec .enter, .exec .pop, .exec .dispatch]

/-- A handler that pushes once finds room. -/
theorem never_stuck_one_push :
    ∃ s, run (taskStep selfPusher) TaskState.initial (firstSignal ++ selfPush) = some s ∧
      s.unread = 2 ∧ ¬ Stuck selfPusher s :=
  ⟨_, rfl, rfl, (never_stuck_of_leavesRoom selfPusher (by decide) (firstSignal ++ selfPush) _
    rfl).1 (by decide)⟩

/-- A handler that pushes 65536 times is stuck in the last write: the signal
from outside left one byte in the pipe. -/
theorem stuck_after_65536_pushes :
    ∃ s, run (taskStep selfPusher) TaskState.initial (firstSignal ++
        ((List.replicate 65535 selfPush).flatten ++
          [.signal none (.call ⟨7, none, 0⟩), .signal none .push])) = some s ∧
      Stuck selfPusher s := by
  obtain ⟨s, hrun, hexec, hidle, hunread⟩ :
      ∃ s, run (taskStep selfPusher) TaskState.initial firstSignal = some s ∧
        s.exec = .handler ∧ s.calls none = .idle ∧ s.unread = 1 := ⟨_, rfl, rfl, rfl, rfl⟩
  have hpfd : 0 < selfPusher.pfd1 := by decide
  have hcapacity : selfPusher.capacity = 65536 := rfl
  obtain ⟨s', hrun', hexec', hidle', hunread'⟩ :=
    run_selfPushes hpfd 65535 hexec hidle (by rw [hunread, hcapacity])
  obtain ⟨s₁, hcall, -, ⟨ct, hmade⟩, hunread₁⟩ :=
    call_own selfPusher ⟨7, none, 0⟩ hexec' hidle'
  obtain ⟨s₂, hpush, -, hpushed, hunread₂⟩ := push_own selfPusher hmade
  refine ⟨s₂, ?_, hpushed, hpfd, by omega⟩
  rw [run_append _ hrun, run_append _ hrun', run_cons, hcall, Option.bind_some, run_cons, hpush,
    Option.bind_some, run_nil]

end LinuxDemo

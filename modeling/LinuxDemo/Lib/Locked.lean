/-
LinuxDemo/Lib/Locked.lean

Objects that many threads use, and what a lock does for them.

A sequential object is a function: from a state and an operation to a result and
the state after it.  A history is what the threads see, their calls and returns
in the order of time.  It is linearizable if some order of the calls gives these
results one after the other, and keeps a call that had returned before another
one was made before it (`Linearizes`, `Linearizable`).  For a thread on its own
there is only one such order (`Linearizes.solo`).

An object behind a lock is a machine.  A thread calls an operation, takes the
lock, looks at the object, changes it, releases the lock and returns; each of
these is a step of its own, and the change is computed from what the thread saw
when it looked.  The lock is all that keeps others from changing the object in
between.  The order of the changes is an order of the calls that explains the
history (`run_linearizes`), and the results are those of the object itself
(`run_legal`).  So the history is linearizable with respect to any other object
that agrees with it at each change (`run_refines`).
-/
import LinuxDemo.Lib.Runs
import Mathlib.Data.List.Nodup
import Mathlib.Logic.Function.Basic

namespace LinuxDemo

variable {Tid S A Op Ret : Type*}

/-! ### Sequential objects -/

/-- The result of an operation, and the state after it. -/
abbrev SeqObject (S Op Ret : Type*) := S → Op → Ret × S

/-- A call with its result.  Calls are numbered. -/
structure Call (Op Ret : Type*) where
  id : ℕ
  op : Op
  ret : Ret

/-- The state after some calls. -/
def SeqObject.after (obj : SeqObject S Op Ret) (s : S) (calls : List (Call Op Ret)) : S :=
  calls.foldl (fun s c => (obj s c.op).2) s

/-- The calls have these results if they are made one after the other. -/
def SeqObject.Legal (obj : SeqObject S Op Ret) : S → List (Call Op Ret) → Prop
  | _, [] => True
  | s, c :: calls => c.ret = (obj s c.op).1 ∧ obj.Legal (obj s c.op).2 calls

theorem SeqObject.after_append (obj : SeqObject S Op Ret) (s : S) (xs ys : List (Call Op Ret)) :
    obj.after s (xs ++ ys) = obj.after (obj.after s xs) ys :=
  List.foldl_append

theorem SeqObject.legal_append (obj : SeqObject S Op Ret) (s : S) (xs ys : List (Call Op Ret)) :
    obj.Legal s (xs ++ ys) ↔ obj.Legal s xs ∧ obj.Legal (obj.after s xs) ys := by
  induction xs generalizing s with
  | nil => exact (iff_of_eq (true_and _)).symm
  | cons c xs ih =>
    show c.ret = (obj s c.op).1 ∧ obj.Legal (obj s c.op).2 (xs ++ ys) ↔ _
    rw [ih, ← and_assoc]
    rfl

/-! ### Histories -/

inductive Event (Tid Op Ret : Type*) where
  | call (who : Tid) (id : ℕ) (op : Op)
  | ret (who : Tid) (id : ℕ) (r : Ret)

/-- The numbers of some calls. -/
def ids (order : List (Call Op Ret)) : List ℕ := order.map Call.id

/-- The order explains the history: its calls were made, every call that returned
is in it with its result, and a call that had returned before another one was
made comes before it. -/
structure Linearizes (hist : List (Event Tid Op Ret)) (order : List (Call Op Ret)) : Prop where
  nodup : (ids order).Nodup
  called : ∀ c ∈ order, ∃ who, .call who c.id c.op ∈ hist
  returned : ∀ who id r, .ret who id r ∈ hist → ∃ c ∈ order, c.id = id ∧ c.ret = r
  realTime : ∀ past future who id r who' id' op, hist = past ++ .call who' id' op :: future →
    .ret who id r ∈ past → id' ∈ ids order → [id, id'].Sublist (ids order)

/-- Some order of the calls explains the history, with the results of `obj`. -/
def Linearizable (obj : SeqObject S Op Ret) (s₀ : S) (hist : List (Event Tid Op Ret)) : Prop :=
  ∃ order, Linearizes hist order ∧ obj.Legal s₀ order

theorem mem_ids {order : List (Call Op Ret)} {c : Call Op Ret} (hc : c ∈ order) :
    c.id ∈ ids order :=
  List.mem_map_of_mem hc

theorem ids_append (xs ys : List (Call Op Ret)) : ids (xs ++ ys) = ids xs ++ ids ys :=
  List.map_append

/-- The last event of a history is the one that is looked at, or comes after it. -/
theorem split_concat {α : Type*} {l past future : List α} {e a : α}
    (h : l ++ [e] = past ++ a :: future) :
    l = past ∧ e = a ∨ ∃ future', l = past ++ a :: future' := by
  rcases List.eq_nil_or_concat future with rfl | ⟨future', b, rfl⟩
  · obtain ⟨hl, he⟩ := List.append_inj' h rfl
    exact .inl ⟨hl, List.singleton_inj.mp he⟩
  · rw [List.concat_eq_append, ← List.cons_append, ← List.append_assoc] at h
    exact .inr ⟨future', (List.append_inj' h rfl).1⟩

namespace Linearizes

variable {hist : List (Event Tid Op Ret)} {order : List (Call Op Ret)}

theorem nil : Linearizes ([] : List (Event Tid Op Ret)) [] where
  nodup := List.nodup_nil
  called := nofun
  returned := nofun
  realTime := by
    intro past future who id r who' id' op h
    exact absurd h.symm (List.append_ne_nil_of_right_ne_nil _ (List.cons_ne_nil _ _))

/-- One more event, which is no call that is in the order already and no return that
the order does not explain. -/
theorem append (h : Linearizes hist order) {e : Event Tid Op Ret}
    (hcall : ∀ who id op, e = .call who id op → id ∉ ids order)
    (hret : ∀ who id r, e = .ret who id r → ∃ c ∈ order, c.id = id ∧ c.ret = r) :
    Linearizes (hist ++ [e]) order where
  nodup := h.nodup
  called := by
    intro c hc
    obtain ⟨w, hw⟩ := h.called c hc
    exact ⟨w, List.mem_append_left _ hw⟩
  returned := by
    intro w i r hmem
    rcases List.mem_append.mp hmem with hmem | hmem
    · exact h.returned w i r hmem
    · exact hret w i r (List.mem_singleton.mp hmem).symm
  realTime := by
    intro past future w i r w' i' o hsplit hpast hmem
    rcases split_concat hsplit with ⟨-, heq⟩ | ⟨future', hold⟩
    · -- the call that comes last is not in the order yet
      exact absurd hmem (hcall w' i' o heq)
    · exact h.realTime past future' w i r w' i' o hold hpast hmem

/-- A new call. -/
theorem call (h : Linearizes hist order) (who : Tid) {id : ℕ} (op : Op) (hid : id ∉ ids order) :
    Linearizes (hist ++ [.call who id op]) order := by
  apply h.append
  · intro w i o heq
    cases heq
    exact hid
  · intro w i r heq
    cases heq

/-- A return of a call that is in the order. -/
theorem ret (h : Linearizes hist order) (who : Tid) {c : Call Op Ret} (hc : c ∈ order) :
    Linearizes (hist ++ [.ret who c.id c.ret]) order := by
  apply h.append
  · intro w i o heq
    cases heq
  · intro w i r heq
    cases heq
    exact ⟨c, hc, rfl, rfl⟩

/-- A call that was made takes the last place in the order. -/
theorem concat (h : Linearizes hist order) {who : Tid} {c : Call Op Ret}
    (hcall : .call who c.id c.op ∈ hist) (hc : c.id ∉ ids order) :
    Linearizes hist (order ++ [c]) where
  nodup := by
    rw [ids_append]
    refine List.nodup_append.mpr ⟨h.nodup, List.pairwise_singleton _ c.id, ?_⟩
    rintro i hi j hj rfl
    rw [List.mem_singleton.mp hj] at hi
    exact hc hi
  called := by
    intro d hd
    rcases List.mem_append.mp hd with hd | hd
    · exact h.called d hd
    · rw [List.mem_singleton.mp hd]
      exact ⟨who, hcall⟩
  returned := by
    intro w i r hret
    obtain ⟨d, hd, hres⟩ := h.returned w i r hret
    exact ⟨d, List.mem_append_left _ hd, hres⟩
  realTime := by
    intro past future w i r w' i' o hsplit hpast hmem
    rw [ids_append] at hmem ⊢
    rcases List.mem_append.mp hmem with hmem | hmem
    · exact (h.realTime past future w i r w' i' o hsplit hpast hmem).trans
        (List.sublist_append_left _ _)
    · -- what had returned is in the order already
      rw [List.mem_singleton.mp hmem]
      have hret : .ret w i r ∈ hist := by
        rw [hsplit]
        exact List.mem_append_left _ hpast
      obtain ⟨d, hd, rfl, -⟩ := h.returned w i r hret
      exact (List.singleton_sublist.mpr (mem_ids hd)).append (List.Sublist.refl _)

end Linearizes

/-! ### The history of one thread -/

/-- One thread makes the calls one after the other. -/
def soloHistory (who : Tid) (calls : List (Call Op Ret)) : List (Event Tid Op Ret) :=
  calls.flatMap fun c => [.call who c.id c.op, .ret who c.id c.ret]

section Solo

variable {who : Tid} {calls order : List (Call Op Ret)}

theorem call_mem_solo {w : Tid} {id : ℕ} {op : Op}
    (h : .call w id op ∈ soloHistory who calls) : ∃ c ∈ calls, c.id = id ∧ c.op = op := by
  obtain ⟨c, hc, hmem⟩ := List.mem_flatMap.mp h
  rcases List.mem_pair.mp hmem with heq | heq
  · cases heq
    exact ⟨c, hc, rfl, rfl⟩
  · cases heq

theorem ret_mem_solo (who : Tid) {c : Call Op Ret} (hc : c ∈ calls) :
    .ret who c.id c.ret ∈ soloHistory who calls :=
  List.mem_flatMap.mpr ⟨c, hc, List.mem_cons_of_mem _ (List.mem_singleton_self _)⟩

/-- Calls with different numbers are known by them. -/
theorem eq_of_id_eq (h : (ids calls).Nodup) {c d : Call Op Ret} (hc : c ∈ calls) (hd : d ∈ calls)
    (heq : c.id = d.id) : c = d :=
  List.inj_on_of_nodup_map h hc hd heq

/-- Nothing comes both before and after another element. -/
theorem pair_sublist_asymm {α : Type*} {l : List α} (h : l.Nodup) {a b : α}
    (hab : [a, b].Sublist l) : ¬ [b, a].Sublist l := by
  induction l with
  | nil => cases hab
  | cons x l ih =>
    obtain ⟨hx, hl⟩ := List.nodup_cons.mp h
    intro hba
    cases hab with
    | cons _ hab =>
      cases hba with
      | cons _ hba => exact ih hl hab hba
      | cons_cons _ _ => exact hx (hab.subset (List.mem_cons_of_mem _ (List.mem_singleton_self _)))
    | cons_cons _ hb =>
      cases hba with
      | cons _ hba => exact hx (hba.subset (List.mem_cons_of_mem _ (List.mem_singleton_self _)))
      | cons_cons _ _ => exact hx (hb.subset (List.mem_singleton_self _))

/-- An order that explains the calls of the thread has them with their results. -/
theorem Linearizes.mem_of_solo (h : Linearizes (soloHistory who calls) order) {c : Call Op Ret}
    (hc : c ∈ order) : c ∈ calls := by
  obtain ⟨w, hw⟩ := h.called c hc
  obtain ⟨d, hd, hid, hop⟩ := call_mem_solo hw
  obtain ⟨e, he, heid, hret⟩ := h.returned who d.id d.ret (ret_mem_solo who hd)
  obtain rfl := eq_of_id_eq h.nodup he hc (heid.trans hid)
  have heq : e = d := by
    rcases e with ⟨i, o, r⟩
    rcases d with ⟨i', o', r'⟩
    obtain rfl : i = i' := heid
    obtain rfl : o' = o := hop
    obtain rfl : r = r' := hret
    rfl
  rw [heq]
  exact hd

/-- It has all of them. -/
theorem Linearizes.solo_mem (h : Linearizes (soloHistory who calls) order)
    (hcalls : (ids calls).Nodup) {c : Call Op Ret} (hc : c ∈ calls) : c ∈ order := by
  obtain ⟨d, hd, hid, -⟩ := h.returned who c.id c.ret (ret_mem_solo who hc)
  rw [← eq_of_id_eq hcalls (h.mem_of_solo hd) hc hid]
  exact hd

/-- A call of the thread returns before its next one is made. -/
theorem Linearizes.solo_pair (h : Linearizes (soloHistory who calls) order)
    (hcalls : (ids calls).Nodup) {c d : Call Op Ret} (hcd : [c, d].Sublist calls) :
    [c.id, d.id].Sublist (ids order) := by
  have hmem : d.id ∈ ids order :=
    mem_ids (h.solo_mem hcalls (hcd.subset (List.mem_cons_of_mem _ (List.mem_singleton_self d))))
  obtain ⟨before, after, rfl, hc, hd⟩ := List.cons_sublist_iff.mp hcd
  obtain ⟨mid, rest, rfl⟩ := List.append_of_mem (List.singleton_sublist.mp hd)
  refine h.realTime (soloHistory who (before ++ mid))
    (.ret who d.id d.ret :: soloHistory who rest) who c.id c.ret who d.id d.op ?_
    (ret_mem_solo who (List.mem_append_left _ hc)) hmem
  simp only [soloHistory, List.flatMap_append, List.flatMap_cons, List.append_assoc,
    List.cons_append, List.nil_append]

/-- **Only one order explains the calls of a thread on its own.** -/
theorem Linearizes.solo (h : Linearizes (soloHistory who calls) order)
    (hcalls : (ids calls).Nodup) : order = calls := by
  have hperm : order.Perm calls :=
    (List.perm_ext_iff_of_nodup (List.Nodup.of_map _ h.nodup) (List.Nodup.of_map _ hcalls)).mpr
      fun _ => ⟨h.mem_of_solo, h.solo_mem hcalls⟩
  have horder : order.Pairwise fun c d => [c.id, d.id].Sublist (ids order) :=
    List.pairwise_iff_forall_sublist.mpr fun {c d} hcd => hcd.map Call.id
  have hsolo : calls.Pairwise fun c d => [c.id, d.id].Sublist (ids order) :=
    List.pairwise_iff_forall_sublist.mpr fun {c d} hcd => h.solo_pair hcalls hcd
  refine hperm.eq_of_pairwise ?_ horder hsolo
  intro c d _ _ hcd hdc
  exact absurd hdc (pair_sublist_asymm h.nodup hcd)

end Solo

/-! ### An object behind a lock -/

/-- Where a thread is in its call. -/
inductive LockPc (S Op Ret : Type*) where
  | idle
  | waiting (id : ℕ) (op : Op)
  /-- It has the lock. -/
  | inside (id : ℕ) (op : Op)
  /-- It has seen the object. -/
  | loaded (id : ℕ) (op : Op) (seen : S)
  /-- It has changed the object. -/
  | stored (id : ℕ) (r : Ret)
  | unlocked (id : ℕ) (r : Ret)

structure LockState (Tid S Op Ret : Type*) where
  mtx : Option Tid
  obj : S
  pc : Tid → LockPc S Op Ret
  -- histories
  next : ℕ
  order : List (Call Op Ret)
  hist : List (Event Tid Op Ret)

def LockState.initial (s₀ : S) : LockState Tid S Op Ret where
  mtx := none
  obj := s₀
  pc := fun _ => .idle
  next := 0
  order := []
  hist := []

inductive LockAction (Tid Op : Type*) where
  | call (who : Tid) (op : Op)
  | lock (who : Tid)
  | load (who : Tid)
  | store (who : Tid)
  | unlock (who : Tid)
  | ret (who : Tid)

/-- One step of a thread. -/
def lockStep [DecidableEq Tid] (obj : SeqObject S Op Ret) (s : LockState Tid S Op Ret) :
    LockAction Tid Op → Option (LockState Tid S Op Ret)
  | .call who op =>
      match s.pc who with
      | .idle =>
          some { s with
            pc := Function.update s.pc who (.waiting s.next op)
            next := s.next + 1
            hist := s.hist ++ [.call who s.next op] }
      | _ => none
  | .lock who =>
      match s.pc who, s.mtx with
      | .waiting id op, none =>
          some { s with mtx := some who, pc := Function.update s.pc who (.inside id op) }
      | _, _ => none
  | .load who =>
      match s.pc who with
      | .inside id op => some { s with pc := Function.update s.pc who (.loaded id op s.obj) }
      | _ => none
  | .store who =>
      match s.pc who with
      | .loaded id op seen =>
          some { s with
            obj := (obj seen op).2
            pc := Function.update s.pc who (.stored id (obj seen op).1)
            order := s.order ++ [⟨id, op, (obj seen op).1⟩] }
      | _ => none
  | .unlock who =>
      match s.pc who with
      | .stored id r =>
          some { s with mtx := none, pc := Function.update s.pc who (.unlocked id r) }
      | _ => none
  | .ret who =>
      match s.pc who with
      | .unlocked id r =>
          some { s with
            pc := Function.update s.pc who .idle
            hist := s.hist ++ [.ret who id r] }
      | _ => none

variable [DecidableEq Tid]

/-- What a step does, with the guard it passed. -/
inductive LockMoves (obj : SeqObject S Op Ret) (s : LockState Tid S Op Ret) :
    LockAction Tid Op → LockState Tid S Op Ret → Prop
  | call (who : Tid) (op : Op) (hpc : s.pc who = .idle) :
      LockMoves obj s (.call who op) { s with
        pc := Function.update s.pc who (.waiting s.next op)
        next := s.next + 1
        hist := s.hist ++ [.call who s.next op] }
  | lock (who : Tid) (id : ℕ) (op : Op) (hpc : s.pc who = .waiting id op)
      (hfree : s.mtx = none) :
      LockMoves obj s (.lock who) { s with
        mtx := some who
        pc := Function.update s.pc who (.inside id op) }
  | load (who : Tid) (id : ℕ) (op : Op) (hpc : s.pc who = .inside id op) :
      LockMoves obj s (.load who) { s with
        pc := Function.update s.pc who (.loaded id op s.obj) }
  | store (who : Tid) (id : ℕ) (op : Op) (seen : S) (hpc : s.pc who = .loaded id op seen) :
      LockMoves obj s (.store who) { s with
        obj := (obj seen op).2
        pc := Function.update s.pc who (.stored id (obj seen op).1)
        order := s.order ++ [⟨id, op, (obj seen op).1⟩] }
  | unlock (who : Tid) (id : ℕ) (r : Ret) (hpc : s.pc who = .stored id r) :
      LockMoves obj s (.unlock who) { s with
        mtx := none
        pc := Function.update s.pc who (.unlocked id r) }
  | ret (who : Tid) (id : ℕ) (r : Ret) (hpc : s.pc who = .unlocked id r) :
      LockMoves obj s (.ret who) { s with
        pc := Function.update s.pc who .idle
        hist := s.hist ++ [.ret who id r] }

variable {obj : SeqObject S Op Ret} {s₀ : S} {s s' : LockState Tid S Op Ret}

theorem lockMoves {a : LockAction Tid Op} (h : lockStep obj s a = some s') :
    LockMoves obj s a s' := by
  cases a with
  | call who op =>
    simp only [lockStep] at h
    split at h
    · cases h
      exact .call who op ‹_›
    · cases h
  | lock who =>
    simp only [lockStep] at h
    split at h
    · cases h
      exact .lock who _ _ ‹_› ‹_›
    · cases h
  | load who =>
    simp only [lockStep] at h
    split at h
    · cases h
      exact .load who _ _ ‹_›
    · cases h
  | store who =>
    simp only [lockStep] at h
    split at h
    · cases h
      exact .store who _ _ _ ‹_›
    · cases h
  | unlock who =>
    simp only [lockStep] at h
    split at h
    · cases h
      exact .unlock who _ _ ‹_›
    · cases h
  | ret who =>
    simp only [lockStep] at h
    split at h
    · cases h
      exact .ret who _ _ ‹_›
    · cases h

/-! ### The lock -/

/-- The thread is between taking the lock and releasing it. -/
def LockPc.Holds : LockPc S Op Ret → Prop
  | .inside _ _ | .loaded _ _ _ | .stored _ _ => True
  | _ => False

/-- Only the thread that has the lock is inside, and what it has seen is the
object. -/
structure Excl (mtx : Option Tid) (x : S) (pc : Tid → LockPc S Op Ret) : Prop where
  holds : ∀ who, (pc who).Holds → mtx = some who
  seen : ∀ who id op v, pc who = .loaded id op v → v = x

omit [DecidableEq Tid] in
theorem excl_initial (s₀ : S) : Excl none s₀ fun _ : Tid => (.idle : LockPc S Op Ret) where
  holds := nofun
  seen := nofun

section Excl

variable {mtx : Option Tid} {x : S} {pc : Tid → LockPc S Op Ret}

omit [DecidableEq Tid] in
/-- No other thread is inside. -/
theorem Excl.alone (h : Excl mtx x pc) {who w : Tid} (hwho : (pc who).Holds)
    (hw : (pc w).Holds) : w = who :=
  Option.some.inj ((h.holds w hw).symm.trans (h.holds who hwho))

/-- One thread moves on.  The others that are inside keep the lock and what they
have seen. -/
theorem Excl.update (h : Excl mtx x pc) (who : Tid) (new : LockPc S Op Ret)
    {mtx' : Option Tid} {x' : S} (hholds : new.Holds → mtx' = some who)
    (hseen : ∀ id op v, new = .loaded id op v → v = x')
    (hothers : ∀ w, w ≠ who → (pc w).Holds → mtx' = some w ∧ x' = x) :
    Excl mtx' x' (Function.update pc who new) where
  holds := by
    intro w hw
    by_cases heq : w = who
    · rw [heq, Function.update_self] at hw
      rw [heq]
      exact hholds hw
    · rw [Function.update_of_ne heq] at hw
      exact (hothers w heq hw).1
  seen := by
    intro w id op v hw
    by_cases heq : w = who
    · rw [heq, Function.update_self] at hw
      exact hseen id op v hw
    · rw [Function.update_of_ne heq] at hw
      have hinside : (pc w).Holds := by
        rw [hw]
        trivial
      rw [(hothers w heq hinside).2]
      exact h.seen w id op v hw

end Excl

/-- **The lock keeps the threads apart.** -/
theorem excl_step {a : LockAction Tid Op} (h : Excl s.mtx s.obj s.pc)
    (hstep : lockStep obj s a = some s') : Excl s'.mtx s'.obj s'.pc := by
  have hothers : ∀ who w, w ≠ who → (s.pc w).Holds → s.mtx = some w ∧ s.obj = s.obj :=
    fun _ w _ hw => ⟨h.holds w hw, rfl⟩
  -- a thread that is inside is the only one
  have halone : ∀ who, (s.pc who).Holds → ∀ w, w ≠ who → (s.pc w).Holds → False :=
    fun who hwho w hne hw => hne (h.alone hwho hw)
  cases lockMoves hstep with
  | call who op hpc => exact h.update who _ nofun nofun (hothers who)
  | lock who id op hpc hfree =>
    refine h.update who _ (fun _ => rfl) nofun ?_
    intro w _ hw
    rw [h.holds w hw] at hfree
    cases hfree
  | load who id op hpc =>
    refine h.update who _ ?_ ?_ (hothers who)
    · intro _
      apply h.holds
      rw [hpc]
      trivial
    · intro id' op' v heq
      cases heq
      rfl
  | store who id op seen hpc =>
    have hwho : (s.pc who).Holds := by
      rw [hpc]
      trivial
    refine h.update who _ (fun _ => h.holds who hwho) nofun ?_
    intro w hne hw
    exact (halone who hwho w hne hw).elim
  | unlock who id r hpc =>
    have hwho : (s.pc who).Holds := by
      rw [hpc]
      trivial
    refine h.update who _ nofun nofun ?_
    intro w hne hw
    exact (halone who hwho w hne hw).elim
  | ret who id r hpc => exact h.update who _ nofun nofun (hothers who)

/-! ### The order of the changes -/

/-- A call that has not changed the object yet. -/
def LockPc.pending : LockPc S Op Ret → Option (ℕ × Op)
  | .waiting id op | .inside id op | .loaded id op _ => some (id, op)
  | _ => none

/-- A call that has changed the object and not returned. -/
def LockPc.done : LockPc S Op Ret → Option (ℕ × Ret)
  | .stored id r | .unlocked id r => some (id, r)
  | _ => none

/-- What the threads are about to do, and the order so far. -/
structure Journal (pending : Tid → Option (ℕ × Op)) (done : Tid → Option (ℕ × Ret)) (next : ℕ)
    (order : List (Call Op Ret)) (hist : List (Event Tid Op Ret)) : Prop where
  lin : Linearizes hist order
  fresh : ∀ who id op, .call who id op ∈ hist → id < next
  called : ∀ who id op, pending who = some (id, op) → .call who id op ∈ hist
  unordered : ∀ who id op, pending who = some (id, op) → id ∉ ids order
  distinct : ∀ who who' id op op', pending who = some (id, op) → pending who' = some (id, op') →
    who = who'
  ordered : ∀ who id r, done who = some (id, r) → ∃ c ∈ order, c.id = id ∧ c.ret = r

namespace Journal

variable {pending : Tid → Option (ℕ × Op)} {done : Tid → Option (ℕ × Ret)} {next : ℕ}
  {order : List (Call Op Ret)} {hist : List (Event Tid Op Ret)}

omit [DecidableEq Tid] in
theorem initial : Journal (fun _ : Tid => (none : Option (ℕ × Op)))
    (fun _ => (none : Option (ℕ × Ret))) 0 [] [] where
  lin := .nil
  fresh := nofun
  called := nofun
  unordered := nofun
  distinct := nofun
  ordered := nofun

omit [DecidableEq Tid] in
/-- A number that was not used is not in the order. -/
theorem next_notMem (h : Journal pending done next order hist) : next ∉ ids order := by
  intro hmem
  obtain ⟨c, hc, hid⟩ := List.mem_map.mp hmem
  obtain ⟨w, hw⟩ := h.lin.called c hc
  have hlt := h.fresh w c.id c.op hw
  rw [hid] at hlt
  exact Nat.lt_irrefl _ hlt

/-- A value of an updated function is the new one, or an old one of another thread. -/
theorem update_cases {α : Type*} {f : Tid → Option α} {who w : Tid} {new : Option α} {y : α}
    (h : Function.update f who new w = some y) : w = who ∧ new = some y ∨ w ≠ who ∧ f w = some y := by
  by_cases heq : w = who
  · rw [heq, Function.update_self] at h
    exact .inl ⟨heq, h⟩
  · rw [Function.update_of_ne heq] at h
    exact .inr ⟨heq, h⟩

theorem update_none {α : Type*} {f : Tid → Option α} {who w : Tid} {y : α}
    (h : Function.update f who none w = some y) : w ≠ who ∧ f w = some y := by
  rcases update_cases h with ⟨-, hnew⟩ | hold
  · cases hnew
  · exact hold

/-- A call. -/
theorem call (h : Journal pending done next order hist) (who : Tid) (op : Op) :
    Journal (Function.update pending who (some (next, op))) (Function.update done who none)
      (next + 1) order (hist ++ [.call who next op]) where
  lin := h.lin.call who op h.next_notMem
  fresh := by
    intro w i o hcall
    rcases List.mem_append.mp hcall with hcall | hcall
    · exact Nat.lt_succ_of_lt (h.fresh w i o hcall)
    · cases List.mem_singleton.mp hcall
      exact Nat.lt_succ_self next
  called := by
    intro w i o hw
    rcases update_cases hw with ⟨rfl, hnew⟩ | ⟨-, hold⟩
    · cases hnew
      exact List.mem_append_right _ (List.mem_singleton_self _)
    · exact List.mem_append_left _ (h.called w i o hold)
  unordered := by
    intro w i o hw
    rcases update_cases hw with ⟨-, hnew⟩ | ⟨-, hold⟩
    · cases hnew
      exact h.next_notMem
    · exact h.unordered w i o hold
  distinct := by
    intro w w' i o o' hw hw'
    -- an older call has a smaller number
    have hlt : ∀ v p, pending v = some (i, p) → i < next :=
      fun v p hv => h.fresh v i p (h.called v i p hv)
    rcases update_cases hw with ⟨rfl, hnew⟩ | ⟨-, hold⟩ <;>
      rcases update_cases hw' with ⟨rfl, hnew'⟩ | ⟨-, hold'⟩
    · rfl
    · cases hnew
      exact absurd (hlt w' o' hold') (Nat.lt_irrefl _)
    · cases hnew'
      exact absurd (hlt w o hold) (Nat.lt_irrefl _)
    · exact h.distinct w w' i o o' hold hold'
  ordered := fun w i r hw => h.ordered w i r (update_none hw).2

/-- A change of the object. -/
theorem store (h : Journal pending done next order hist) {who : Tid} {id : ℕ} {op : Op} (r : Ret)
    (hwho : pending who = some (id, op)) :
    Journal (Function.update pending who none) (Function.update done who (some (id, r))) next
      (order ++ [⟨id, op, r⟩]) hist where
  lin := h.lin.concat (h.called who id op hwho) (h.unordered who id op hwho)
  fresh := h.fresh
  called := fun w i o hw => h.called w i o (update_none hw).2
  unordered := by
    intro w i o hw
    obtain ⟨hne, hold⟩ := update_none hw
    rw [ids_append]
    intro hmem
    rcases List.mem_append.mp hmem with hmem | hmem
    · exact h.unordered w i o hold hmem
    · -- no other thread has the number of this call
      cases List.mem_singleton.mp hmem
      exact hne (h.distinct w who id o op hold hwho)
  distinct := fun w w' i o o' hw hw' =>
    h.distinct w w' i o o' (update_none hw).2 (update_none hw').2
  ordered := by
    intro w i r' hw
    rcases update_cases hw with ⟨-, hnew⟩ | ⟨-, hold⟩
    · cases hnew
      exact ⟨⟨id, op, r⟩, List.mem_append_right _ (List.mem_singleton_self _), rfl, rfl⟩
    · obtain ⟨c, hc, hres⟩ := h.ordered w i r' hold
      exact ⟨c, List.mem_append_left _ hc, hres⟩

/-- A return. -/
theorem ret (h : Journal pending done next order hist) {who : Tid} {id : ℕ} {r : Ret}
    (hwho : done who = some (id, r)) :
    Journal (Function.update pending who none) (Function.update done who none) next order
      (hist ++ [.ret who id r]) where
  lin := by
    obtain ⟨c, hc, rfl, rfl⟩ := h.ordered who id r hwho
    exact h.lin.ret who hc
  fresh := by
    intro w i o hcall
    rcases List.mem_append.mp hcall with hcall | hcall
    · exact h.fresh w i o hcall
    · cases List.mem_singleton.mp hcall
  called := fun w i o hw => List.mem_append_left _ (h.called w i o (update_none hw).2)
  unordered := fun w i o hw => h.unordered w i o (update_none hw).2
  distinct := fun w w' i o o' hw hw' =>
    h.distinct w w' i o o' (update_none hw).2 (update_none hw').2
  ordered := fun w i r' hw => h.ordered w i r' (update_none hw).2

end Journal

theorem pending_keep {pc : Tid → LockPc S Op Ret} {who : Tid} {new : LockPc S Op Ret}
    (h : new.pending = (pc who).pending) :
    LockPc.pending ∘ Function.update pc who new = LockPc.pending ∘ pc := by
  rw [Function.comp_update, h]
  exact Function.update_eq_self who (LockPc.pending ∘ pc)

theorem done_keep {pc : Tid → LockPc S Op Ret} {who : Tid} {new : LockPc S Op Ret}
    (h : new.done = (pc who).done) :
    LockPc.done ∘ Function.update pc who new = LockPc.done ∘ pc := by
  rw [Function.comp_update, h]
  exact Function.update_eq_self who (LockPc.done ∘ pc)

/-- **A step keeps the journal.** -/
theorem journal_step {a : LockAction Tid Op}
    (h : Journal (LockPc.pending ∘ s.pc) (LockPc.done ∘ s.pc) s.next s.order s.hist)
    (hstep : lockStep obj s a = some s') :
    Journal (LockPc.pending ∘ s'.pc) (LockPc.done ∘ s'.pc) s'.next s'.order s'.hist := by
  cases lockMoves hstep with
  | call who op hpc =>
    show Journal (_ ∘ Function.update _ _ _) (_ ∘ Function.update _ _ _) _ _ _
    rw [Function.comp_update, Function.comp_update]
    exact h.call who op
  | lock who id op hpc _ =>
    show Journal (_ ∘ Function.update _ _ _) (_ ∘ Function.update _ _ _) _ _ _
    rw [pending_keep (by rw [hpc]; rfl), done_keep (by rw [hpc]; rfl)]
    exact h
  | load who id op hpc =>
    show Journal (_ ∘ Function.update _ _ _) (_ ∘ Function.update _ _ _) _ _ _
    rw [pending_keep (by rw [hpc]; rfl), done_keep (by rw [hpc]; rfl)]
    exact h
  | store who id op seen hpc =>
    show Journal (_ ∘ Function.update _ _ _) (_ ∘ Function.update _ _ _) _ _ _
    rw [Function.comp_update, Function.comp_update]
    exact h.store (obj seen op).1 (congrArg LockPc.pending hpc)
  | unlock who id r hpc =>
    show Journal (_ ∘ Function.update _ _ _) (_ ∘ Function.update _ _ _) _ _ _
    rw [pending_keep (by rw [hpc]; rfl), done_keep (by rw [hpc]; rfl)]
    exact h
  | ret who id r hpc =>
    show Journal (_ ∘ Function.update _ _ _) (_ ∘ Function.update _ _ _) _ _ _
    rw [Function.comp_update, Function.comp_update]
    exact h.ret (congrArg LockPc.done hpc)

/-! ### Runs -/

/-- The invariant of the machine. -/
structure LockInv (obj : SeqObject S Op Ret) (s₀ : S) (s : LockState Tid S Op Ret) : Prop where
  excl : Excl s.mtx s.obj s.pc
  journal : Journal (LockPc.pending ∘ s.pc) (LockPc.done ∘ s.pc) s.next s.order s.hist
  legal : obj.Legal s₀ s.order
  after : obj.after s₀ s.order = s.obj

omit [DecidableEq Tid] in
theorem lockInv_initial (obj : SeqObject S Op Ret) (s₀ : S) :
    LockInv obj s₀ (LockState.initial s₀ : LockState Tid S Op Ret) where
  excl := excl_initial s₀
  journal := .initial
  legal := trivial
  after := rfl

/-- What a step does to the order and the object. -/
theorem lockStep_order {a : LockAction Tid Op} (h : Excl s.mtx s.obj s.pc)
    (hstep : lockStep obj s a = some s') :
    (s'.order = s.order ∧ s'.obj = s.obj) ∨
      ∃ who id op, a = .store who ∧ s.pc who = .loaded id op s.obj ∧
        s'.order = s.order ++ [⟨id, op, (obj s.obj op).1⟩] ∧ s'.obj = (obj s.obj op).2 := by
  cases lockMoves hstep with
  | store who id op seen hpc =>
    obtain rfl := h.seen who id op seen hpc
    exact .inr ⟨who, id, op, rfl, hpc, rfl, rfl⟩
  | call | lock | load | unlock | ret => exact .inl ⟨rfl, rfl⟩

/-- One more call. -/
theorem SeqObject.legal_concat {x : S} {order : List (Call Op Ret)} {r : Ret}
    (hlegal : obj.Legal s₀ order) (hafter : obj.after s₀ order = x) (id : ℕ) {op : Op}
    (hr : r = (obj x op).1) :
    obj.Legal s₀ (order ++ [⟨id, op, r⟩]) ∧
      obj.after s₀ (order ++ [⟨id, op, r⟩]) = (obj x op).2 := by
  rw [obj.legal_append, obj.after_append, hafter]
  exact ⟨⟨hlegal, hr, trivial⟩, rfl⟩

theorem lockInv_step (s : LockState Tid S Op Ret) (a : LockAction Tid Op)
    (s' : LockState Tid S Op Ret) (h : LockInv obj s₀ s) (hstep : lockStep obj s a = some s') :
    LockInv obj s₀ s' := by
  have hseq : obj.Legal s₀ s'.order ∧ obj.after s₀ s'.order = s'.obj := by
    rcases lockStep_order h.excl hstep with ⟨horder, hobj⟩ | ⟨who, id, op, -, -, horder, hobj⟩
    · rw [horder, hobj]
      exact ⟨h.legal, h.after⟩
    · rw [horder, hobj]
      exact SeqObject.legal_concat h.legal h.after id rfl
  exact ⟨excl_step h.excl hstep, journal_step h.journal hstep, hseq.1, hseq.2⟩

variable {as : List (LockAction Tid Op)}

theorem lockInv_run (h : run (lockStep obj) (.initial s₀) as = some s) : LockInv obj s₀ s :=
  run_invariant lockInv_step (lockInv_initial obj s₀) h

/-- **The order of the changes explains the history.** -/
theorem run_linearizes (h : run (lockStep obj) (.initial s₀) as = some s) :
    Linearizes s.hist s.order :=
  (lockInv_run h).journal.lin

/-- **The results are those of the object.** -/
theorem run_legal (h : run (lockStep obj) (.initial s₀) as = some s) :
    obj.Legal s₀ s.order ∧ obj.after s₀ s.order = s.obj :=
  ⟨(lockInv_run h).legal, (lockInv_run h).after⟩

/-- The condition holds of the object and the operation, if the step changes the
object. -/
def AtStore (P : S → Op → Prop) (s : LockState Tid S Op Ret) : LockAction Tid Op → Prop
  | .store who =>
      match s.pc who with
      | .loaded _ op _ => P s.obj op
      | _ => True
  | _ => True

instance (P : S → Op → Prop) [∀ x op, Decidable (P x op)] (s : LockState Tid S Op Ret) :
    (a : LockAction Tid Op) → Decidable (AtStore P s a)
  | .store who =>
      match hpc : s.pc who with
      | .loaded _ op _ => decidable_of_iff (P s.obj op) (by simp only [AtStore, hpc])
      | .idle | .waiting _ _ | .inside _ _ | .stored _ _ | .unlocked _ _ =>
          isTrue (by simp only [AtStore, hpc])
  | .call _ _ | .lock _ | .load _ | .unlock _ | .ret _ => isTrue trivial

/-- A step that breaks the condition changes the object. -/
theorem lockStep_of_not_atStore {P : S → Op → Prop} {a : LockAction Tid Op}
    (h : Excl s.mtx s.obj s.pc) (hstep : lockStep obj s a = some s') (hP : ¬ AtStore P s a) :
    ∃ who id op, ¬ P s.obj op ∧ s'.pc who = .stored id (obj s.obj op).1 ∧
      s'.obj = (obj s.obj op).2 ∧ s'.order = s.order ++ [⟨id, op, (obj s.obj op).1⟩] := by
  cases lockMoves hstep with
  | store who id op seen hpc =>
    obtain rfl := h.seen who id op seen hpc
    refine ⟨who, id, op, ?_, Function.update_self .., rfl, rfl⟩
    simpa only [AtStore, hpc] using hP
  | call | lock | load | unlock | ret => exact absurd trivial hP

/-- **Another object behind the lock.**  If the two agree at every change, the
results are those of the other object, too. -/
theorem run_refines {spec : SeqObject A Op Ret} {abs : S → A} {P : S → Op → Prop}
    (hsim : ∀ x op, P x op → spec (abs x) op = ((obj x op).1, abs (obj x op).2))
    (hmeets : RunMeets (lockStep obj) (fun s a _ => AtStore P s a) (.initial s₀) as)
    (h : run (lockStep obj) (.initial s₀) as = some s) :
    spec.Legal (abs s₀) s.order ∧ spec.after (abs s₀) s.order = abs s.obj := by
  have hinv := run_invariant_of (I := fun s => LockInv obj s₀ s ∧
    spec.Legal (abs s₀) s.order ∧ spec.after (abs s₀) s.order = abs s.obj) ?_
    ⟨lockInv_initial obj s₀, trivial, rfl⟩ hmeets h
  · exact hinv.2
  · rintro s a s' ⟨hlock, hlegal, hafter⟩ hstore hstep
    refine ⟨lockInv_step s a s' hlock hstep, ?_⟩
    rcases lockStep_order hlock.excl hstep with
      ⟨horder, hobj⟩ | ⟨who, id, op, rfl, hpc, horder, hobj⟩
    · rw [horder, hobj]
      exact ⟨hlegal, hafter⟩
    · have hagree : P s.obj op := by
        simpa only [AtStore, hpc] using hstore
      have hspec := hsim s.obj op hagree
      have hconcat : spec.Legal (abs s₀) (s.order ++ [⟨id, op, (obj s.obj op).1⟩]) ∧
          spec.after (abs s₀) (s.order ++ [⟨id, op, (obj s.obj op).1⟩]) =
            (spec (abs s.obj) op).2 :=
        SeqObject.legal_concat hlegal hafter id (congrArg Prod.fst hspec).symm
      rw [horder, hobj]
      refine ⟨hconcat.1, hconcat.2.trans ?_⟩
      exact congrArg Prod.snd hspec

/-- A thread that has changed the object can return. -/
theorem run_leave (obj : SeqObject S Op Ret) {who : Tid} {id : ℕ} {r : Ret}
    (hpc : s.pc who = .stored id r) :
    ∃ s', run (lockStep obj) s [.unlock who, .ret who] = some s' ∧
      s'.pc who = .idle ∧ s'.mtx = none ∧ s'.obj = s.obj ∧ s'.order = s.order := by
  simp [run, lockStep, hpc]

/-- A thread on its own can make a whole call while the lock is free. -/
theorem run_call (obj : SeqObject S Op Ret) (who : Tid) (op : Op) (hidle : s.pc who = .idle)
    (hfree : s.mtx = none) :
    ∃ s', run (lockStep obj) s
        [.call who op, .lock who, .load who, .store who, .unlock who, .ret who] = some s' ∧
      s'.pc who = .idle ∧ s'.mtx = none ∧ s'.obj = (obj s.obj op).2 ∧
      s'.order = s.order ++ [⟨s.next, op, (obj s.obj op).1⟩] := by
  simp [run, lockStep, hidle, hfree]

end LinuxDemo

/-
LinuxDemo/DBusConn.lean

The life of the connection in `DBusConn` of `inc/dbuscxx.h`.

An object is its field `conn`, with what it has asked of the library: the
connections it opened and closed, the references it was given with them, the
errors that are set, and whether the library was ever given a connection that is
not open.  A private connection comes with a reference, and closing it does not
drop that.  `free` closes the connection and clears `conn`, and `init` calls it
on its way out when a later step fails; the destructor does nothing.

So over any run the object owns what is in `conn`, closes nothing twice and gives
the library open connections only; but no reference is ever dropped, and what is
in `conn` at the end is left open (`run_disciplined`).
-/
import LinuxDemo.Lib.Handles
import LinuxDemo.Lib.Runs

namespace LinuxDemo

structure DBusConn (H : Type*) where
  conn : Option H
  log : List (HandleEvent H)
  /-- The references that were given and not dropped. -/
  refs : List H
  /-- How many errors are set and not freed. -/
  errors : ℕ
  /-- The library was given a connection that is not open. -/
  misused : Bool

namespace DBusConn

/-- The constructor. -/
def initial (H : Type*) : DBusConn H :=
  { conn := none, log := [], refs := [], errors := 0, misused := false }

/-- What the inner calls of `init` return. -/
inductive InitOutcome (H : Type*) where
  | openFails
  | registerFails (h : H)
  | requestNameFails (h : H)
  | succeeds (h : H)

/-- What a call gives back; an exception is an `int`. -/
inductive Answer (M : Type*) where
  | done
  | bool (b : Bool)
  | message (msg : Option M)
  | thrown (e : ℤ)

variable {H M : Type*} [DecidableEq H]

/-- `conn` is given to the library. -/
def pass (o : DBusConn H) : DBusConn H :=
  { o with misused := o.misused || !o.conn.any fun h => decide (IsOpen o.log h) }

/-- `dbus_connection_open_private`, with the connection `h`. -/
def opened (o : DBusConn H) (h : H) : DBusConn H :=
  { o with conn := some h, log := o.log ++ [.acquire h], refs := h :: o.refs }

/-- An error is set. -/
def setError (o : DBusConn H) : DBusConn H := { o with errors := o.errors + 1 }

/-- `dbus_error_free(&err)`. -/
def errorFree (o : DBusConn H) : DBusConn H := { o with errors := o.errors - 1 }

def free (o : DBusConn H) : DBusConn H :=
  match o.conn with
  | none => o
  | some h => { o.pass with conn := none, log := o.log ++ [.release h] }

def init (o : DBusConn H) (k : InitOutcome H) : Bool × DBusConn H :=
  if o.conn.isSome then (true, o)
  else
    match k with
    | .openFails => (false, o.setError.errorFree)
    -- a later step that fails sets the error, and closes what the first one opened
    | .registerFails h => (false, (o.opened h).pass.setError.errorFree.free)
    | .requestNameFails h => (false, (o.opened h).pass.pass.setError.errorFree.free)
    | .succeeds h => (true, (o.opened h).pass.pass)

/-- The library call in `addMatch` and `delMatch`, and what follows it. -/
def matchCall (o : DBusConn H) (fails : Bool) : DBusConn H :=
  if fails then o.pass.setError.errorFree else o.pass

def addMatch (o : DBusConn H) (fails : Bool) : Bool × DBusConn H :=
  if o.conn.isNone then (false, o) else (!fails, o.matchCall fails)

def delMatch (o : DBusConn H) (fails : Bool) : DBusConn H :=
  if o.conn.isNone then o else o.matchCall fails

/-- `popped` is what is read, unless the connection is lost. -/
def recvMsg (o : DBusConn H) (popped : Option (Option M)) : Answer M × DBusConn H :=
  if o.conn.isNone then (.thrown 0, o)
  else
    match popped with
    | none => (.thrown 0, o.pass)
    | some msg => (.message msg, o.pass.pass)

def sendMsg (o : DBusConn H) (sent : Bool) : Answer M × DBusConn H :=
  if o.conn.isNone then (.thrown 0, o) else (.bool sent, o.pass)

def sendWithReplyAndBlock (o : DBusConn H) (reply : Option M) : Answer M × DBusConn H :=
  if o.conn.isNone then (.thrown 0, o)
  else
    match reply with
    | none => (.message none, o.pass.setError.errorFree)
    | some msg => (.message (some msg), o.pass)

inductive Op (H M : Type*) where
  | init (k : InitOutcome H)
  | free
  | addMatch (fails : Bool)
  | delMatch (fails : Bool)
  | recvMsg (popped : Option (Option M))
  | sendMsg (sent : Bool)
  | sendWithReplyAndBlock (reply : Option M)

def apply (o : DBusConn H) : Op H M → Answer M × DBusConn H
  | .init k => ((o.init k).1 |> .bool, (o.init k).2)
  | .free => (.done, o.free)
  | .addMatch fails => ((o.addMatch fails).1 |> .bool, (o.addMatch fails).2)
  | .delMatch fails => (.done, o.delMatch fails)
  | .recvMsg popped => o.recvMsg popped
  | .sendMsg sent => o.sendMsg sent
  | .sendWithReplyAndBlock reply => o.sendWithReplyAndBlock reply

/-- The connection that `open_private` gives. -/
def InitOutcome.handle : InitOutcome H → Option H
  | .openFails => none
  | .registerFails h | .requestNameFails h | .succeeds h => some h

def Op.opens : Op H M → Option H
  | .init k => k.handle
  | _ => none

/-- One call, and what was given back so far.  A connection that is opened is not one that is
open. -/
def step (s : DBusConn H × List (Answer M)) (a : Op H M) :
    Option (DBusConn H × List (Answer M)) :=
  if a.opens.any fun h => decide (IsOpen s.1.log h) then none
  else some ((s.1.apply a).2, s.2 ++ [(s.1.apply a).1])

/-- What the object is for: it is connected or not. -/
def spec (s : Bool × List (Answer M)) : Op H M → Bool × List (Answer M)
  | .init (.succeeds _) => (true, s.2 ++ [.bool true])
  | .init _ => (s.1, s.2 ++ [.bool s.1])
  | .free => (false, s.2 ++ [.done])
  | .addMatch fails => (s.1, s.2 ++ [.bool (s.1 && !fails)])
  | .delMatch _ => (s.1, s.2 ++ [.done])
  | .recvMsg popped => (s.1, s.2 ++ [if s.1 then popped.elim (.thrown 0) .message else .thrown 0])
  | .sendMsg sent => (s.1, s.2 ++ [if s.1 then .bool sent else .thrown 0])
  | .sendWithReplyAndBlock reply => (s.1, s.2 ++ [if s.1 then .message reply else .thrown 0])

/-- Between two calls. -/
structure Good (o : DBusConn H) : Prop where
  owns : Owns o.log o.conn
  noneTwice : NoneTwice o.log
  refs : ∀ h, o.refs.count h = acquires o.log h
  errors : o.errors = 0
  misused : o.misused = false

variable {o o' : DBusConn H}

theorem good_initial : (initial H).Good := ⟨owns_nil, noneTwice_nil, fun _ => rfl, rfl, rfl⟩

/-- The object gives what it owns. -/
theorem Good.pass (h : o.Good) (hconn : o.conn.isNone = false) : o.pass = o := by
  rw [DBusConn.pass]
  cases hc : o.conn with
  | none =>
    rw [hc] at hconn
    cases hconn
  | some x =>
    have hopen : IsOpen o.log x := by
      have howns := h.owns
      rw [hc] at howns
      exact howns.isOpen
    have hany : (o.conn.any fun h => decide (IsOpen o.log h)) = true := by
      rw [hc]
      exact decide_eq_true hopen
    rw [← hc, hany, Bool.not_true, Bool.or_false]

theorem Good.opened (h : o.Good) (hconn : o.conn = none) (x : H) : (o.opened x).Good := by
  have howns := h.owns
  rw [hconn] at howns
  refine ⟨howns.acquire x, h.noneTwice.acquire x, fun y => ?_, h.errors, h.misused⟩
  -- one reference more, and one connection more that was opened
  show (x :: o.refs).count y = acquires (o.log ++ [.acquire x]) y
  rw [acquires_acquire, List.count_cons, h.refs]
  simp

/-- **`free` closes what there is.** -/
theorem Good.free (h : o.Good) : o.free.Good ∧ o.free.conn = none := by
  rw [DBusConn.free]
  cases hconn : o.conn with
  | none => exact ⟨h, hconn⟩
  | some x =>
    have howns := h.owns
    rw [hconn] at howns
    have hpass := h.pass (by rw [hconn]; rfl)
    dsimp only
    rw [hpass]
    refine ⟨⟨howns.release, h.noneTwice.release howns.isOpen, fun y => ?_, h.errors, h.misused⟩,
      rfl⟩
    show o.refs.count y = acquires (o.log ++ [.release x]) y
    rw [acquires_release, h.refs]

/-- `init` when a step after the first one fails: what was opened is closed again. -/
theorem Good.openedFree (h : o.Good) (hconn : o.conn = none) (x : H) :
    ((o.opened x).pass.setError.errorFree.free).Good ∧
      ((o.opened x).pass.setError.errorFree.free).conn = none := by
  have hopened := h.opened hconn x
  rw [hopened.pass rfl]
  exact hopened.free

theorem Good.init (h : o.Good) (k : InitOutcome H) :
    (o.init k).2.Good ∧ (o.init k).1 = (o.init k).2.conn.isSome ∧
      ((o.init k).1 = true ↔ o.conn.isSome = true ∨ ∃ x, k = .succeeds x) := by
  rw [DBusConn.init.eq_def]
  cases hconn : o.conn with
  | some x =>
    refine ⟨h, ?_, by simp⟩
    show true = o.conn.isSome
    rw [hconn]
    rfl
  | none =>
    rw [if_neg (by simp)]
    cases k with
    | openFails =>
      refine ⟨h, ?_, by simp⟩
      show false = o.conn.isSome
      rw [hconn]
      rfl
    | registerFails x =>
      obtain ⟨hgood, hnone⟩ := h.openedFree hconn x
      exact ⟨hgood, by rw [hnone]; rfl, by simp⟩
    | requestNameFails x =>
      obtain ⟨hgood, hnone⟩ := h.openedFree hconn x
      have hpass := (h.opened hconn x).pass rfl
      dsimp only
      rw [hpass]
      exact ⟨hgood, by rw [hnone]; rfl, by simp⟩
    | succeeds x =>
      have hopened := h.opened hconn x
      have hpass := hopened.pass rfl
      dsimp only
      rw [hpass, hpass]
      exact ⟨hopened, rfl, by simp⟩

/-- A call of the library with what the object owns changes nothing. -/
theorem Good.matchCall (h : o.Good) (hconn : o.conn.isNone = false) (fails : Bool) :
    o.matchCall fails = o := by
  rw [DBusConn.matchCall, h.pass hconn]
  cases fails <;> rfl

/-- With no connection there is no call. -/
theorem Good.cases (h : o.Good) :
    o.conn.isSome = false ∧ o.conn.isNone = true ∨
      o.conn.isSome = true ∧ o.conn.isNone = false ∧ o.pass = o ∧
        ∀ fails, o.matchCall fails = o := by
  cases hconn : o.conn with
  | none => exact .inl ⟨rfl, rfl⟩
  | some x =>
    have hsome : o.conn.isNone = false := by rw [hconn]; rfl
    exact .inr ⟨rfl, rfl, h.pass hsome, h.matchCall hsome⟩

theorem Good.addMatch (h : o.Good) (fails : Bool) :
    o.addMatch fails = (o.conn.isSome && !fails, o) := by
  rcases h.cases with ⟨hsome, hnone⟩ | ⟨hsome, hnone, -, hcall⟩
  · simp [DBusConn.addMatch, hsome, hnone]
  · simp [DBusConn.addMatch, hsome, hnone, hcall]

theorem Good.delMatch (h : o.Good) (fails : Bool) : o.delMatch fails = o := by
  rcases h.cases with ⟨-, hnone⟩ | ⟨-, hnone, -, hcall⟩
  · simp [DBusConn.delMatch, hnone]
  · simp [DBusConn.delMatch, hnone, hcall]

theorem Good.recvMsg (h : o.Good) (popped : Option (Option M)) :
    o.recvMsg popped =
      (if o.conn.isSome then popped.elim (.thrown 0) .message else .thrown 0, o) := by
  rcases h.cases with ⟨hsome, hnone⟩ | ⟨hsome, hnone, hpass, -⟩
  · simp [DBusConn.recvMsg, hsome, hnone]
  · cases popped with
    | none => simp [DBusConn.recvMsg, hsome, hnone, hpass]
    | some msg => simp [DBusConn.recvMsg, hsome, hnone, hpass]

theorem Good.sendMsg (h : o.Good) (sent : Bool) :
    o.sendMsg sent = ((if o.conn.isSome then .bool sent else .thrown 0 : Answer M), o) := by
  rcases h.cases with ⟨hsome, hnone⟩ | ⟨hsome, hnone, hpass, -⟩
  · simp [DBusConn.sendMsg, hsome, hnone]
  · simp [DBusConn.sendMsg, hsome, hnone, hpass]

theorem Good.sendWithReplyAndBlock (h : o.Good) (reply : Option M) :
    o.sendWithReplyAndBlock reply =
      (if o.conn.isSome then .message reply else .thrown 0, o) := by
  rcases h.cases with ⟨hsome, hnone⟩ | ⟨hsome, hnone, hpass, -⟩
  · simp [DBusConn.sendWithReplyAndBlock, hsome, hnone]
  · cases reply with
    | none => simp [DBusConn.sendWithReplyAndBlock, hsome, hnone, hpass, setError, errorFree]
    | some msg => simp [DBusConn.sendWithReplyAndBlock, hsome, hnone, hpass]

theorem Good.init_spec (h : o.Good) (k : InitOutcome H) (answers : List (Answer M)) :
    ((o.init k).2.conn.isSome, answers ++ [.bool (o.init k).1]) =
      spec (o.conn.isSome, answers) (.init k) := by
  obtain ⟨-, hsome, hiff⟩ := h.init k
  rw [← hsome]
  cases k with
  | succeeds x =>
    rw [hiff.mpr (.inr ⟨x, rfl⟩)]
    rfl
  | _ =>
    have heq : (o.init _).1 = o.conn.isSome := Bool.eq_iff_iff.mpr
      (hiff.trans (or_iff_left (by simp)))
    rw [heq]
    rfl

/-- **One call** keeps the object good, and does what it is for. -/
theorem good_step (s : DBusConn H × List (Answer M)) (a : Op H M)
    (s' : DBusConn H × List (Answer M)) (h : s.1.Good) (hstep : step s a = some s') :
    s'.1.Good ∧ (s'.1.conn.isSome, s'.2) = spec (s.1.conn.isSome, s.2) a := by
  obtain ⟨o, answers⟩ := s
  have hs' : s' = ((o.apply a).2, answers ++ [(o.apply a).1]) := by
    rw [step] at hstep
    split at hstep
    · cases hstep
    · exact (Option.some.inj hstep).symm
  rw [hs']
  cases a with
  | init k => exact ⟨(h.init k).1, h.init_spec k answers⟩
  | free =>
    obtain ⟨hgood, hnone⟩ := h.free
    refine ⟨hgood, ?_⟩
    show ((o.free).conn.isSome, _) = _
    rw [hnone]
    rfl
  | addMatch fails =>
    rw [apply, h.addMatch]
    exact ⟨h, rfl⟩
  | delMatch fails =>
    rw [apply, h.delMatch]
    exact ⟨h, rfl⟩
  | recvMsg popped =>
    rw [apply, h.recvMsg]
    exact ⟨h, rfl⟩
  | sendMsg sent =>
    rw [apply, h.sendMsg]
    exact ⟨h, rfl⟩
  | sendWithReplyAndBlock reply =>
    rw [apply, h.sendWithReplyAndBlock]
    exact ⟨h, rfl⟩

/-- **The object over any run of calls.**  It is connected or not, and gives back what that
says; it closes nothing twice, gives the library open connections only and frees its errors.  Every
reference it was given is still there, and its destructor leaves a connection open exactly if it
is connected. -/
theorem run_disciplined (as : List (Op H M)) {o : DBusConn H} {answers : List (Answer M)}
    (h : run step (initial H, []) as = some (o, answers)) :
    (o.conn.isSome, answers) = as.foldl spec (false, []) ∧ NoneTwice o.log ∧
      o.misused = false ∧ o.errors = 0 ∧ (∀ h, o.refs.count h = acquires o.log h) ∧
      (ClosedOnce o.log ↔ o.conn = none) := by
  have hinitial : (initial H, ([] : List (Answer M))).1.Good := good_initial
  obtain ⟨hgood, hspec⟩ := run_refines_fold good_step hinitial h
  refine ⟨hspec, hgood.noneTwice, hgood.misused, hgood.errors, hgood.refs, ?_⟩
  have howns := hgood.owns
  constructor
  · intro hclosed
    cases hconn : o.conn with
    | none => rfl
    | some x =>
      -- what the object owns is open, and the destructor does not close it
      rw [hconn] at howns
      exact absurd hclosed howns.isOpen.not_closedOnce
  · intro hconn
    rw [hconn] at howns
    exact howns.closedOnce

/-- The first connection is closed on the way out of `init`, the second one is left open. -/
theorem run_disciplined_left_open :
    ∃ (o : DBusConn ℕ) (answers : List (Answer ℕ)),
      run step (initial ℕ, []) [.recvMsg (some (some 7)), .init (.registerFails 1),
        .init (.succeeds 2), .recvMsg (some (some 7)), .addMatch true] = some (o, answers) ∧
      answers = [.thrown 0, .bool false, .bool true, .message (some 7), .bool false] ∧
      NoneTwice o.log ∧ ¬ ClosedOnce o.log := by
  obtain ⟨o, answers, hrun, hconn⟩ : ∃ (o : DBusConn ℕ) (answers : List (Answer ℕ)),
      run step (initial ℕ, []) [.recvMsg (some (some 7)), .init (.registerFails 1),
        .init (.succeeds 2), .recvMsg (some (some 7)), .addMatch true] = some (o, answers) ∧
      o.conn = some 2 := ⟨_, _, rfl, rfl⟩
  obtain ⟨hspec, hnone, -, -, -, hclosed⟩ := run_disciplined _ hrun
  refine ⟨o, answers, hrun, congrArg Prod.snd hspec, hnone, ?_⟩
  rw [hclosed, hconn]
  simp

end DBusConn

end LinuxDemo

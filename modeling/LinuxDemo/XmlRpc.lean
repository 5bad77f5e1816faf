/-
LinuxDemo/XmlRpc.lean

The life of the handle in `XmlRpcClient` of `inc/xmlrpc.h`.

An object is its field `client`, with what it has asked of the library: the
handles it created and destroyed, whether the library was ever given NULL or a
handle that is not open, and how often the global set-up was made and undone.

`free` destroys the handle and undoes the set-up, but leaves `client` as it is,
though `call` and the destructor take a `client` that is not NULL for a handle.
And `init` undoes nothing: neither its set-up if there is no handle after it,
nor an earlier handle.  So the handle is used properly if `init` gets one, and
only while there is none; and from a `free` on to the next `init` nothing else
happens (`Proper`).  The invariant is `Tracks o extra`: the object owns its
handle or none, and the set-up was made `extra` times too often.
-/
import LinuxDemo.Lib.Handles
import LinuxDemo.Lib.Runs

namespace LinuxDemo

structure XmlRpcClient (H : Type*) where
  client : Option H
  log : List (HandleEvent H)
  /-- The library was given NULL, or a handle that is not open. -/
  misused : Bool
  setups : ℕ
  teardowns : ℕ

namespace XmlRpcClient

/-- The constructor. -/
def initial (H : Type*) : XmlRpcClient H :=
  { client := none, log := [], misused := false, setups := 0, teardowns := 0 }

/-- What the inner calls of `init` return. -/
inductive InitOutcome (H : Type*) where
  | setupFails
  | createFails
  | created (h : H)

variable {H : Type*} [DecidableEq H]

/-- `client` is an open handle. -/
def live (o : XmlRpcClient H) : Bool := o.client.any fun h => decide (IsOpen o.log h)

def init (o : XmlRpcClient H) : InitOutcome H → Bool × XmlRpcClient H
  | .setupFails => (false, o)
  | .createFails => (false, { o with setups := o.setups + 1 })
  | .created h =>
      (true, { o with client := some h, log := o.log ++ [.acquire h], setups := o.setups + 1 })

/-- `xmlrpc_client_destroy(client)` and the teardown. -/
def free (o : XmlRpcClient H) : XmlRpcClient H :=
  { o with
    log := o.log ++ (o.client.map HandleEvent.release).toList
    misused := o.misused || !o.live
    teardowns := o.teardowns + 1 }

/-- The exception 1, or the result.  `ret` is what the remote function returns,
if there is no fault. -/
def call (o : XmlRpcClient H) (ret : Option ℤ) : Except ℤ Bool × XmlRpcClient H :=
  if o.client.isNone then (.error 1, o)
  else (.ok (ret = some 0), { o with misused := o.misused || !o.live })

def destructor (o : XmlRpcClient H) : XmlRpcClient H := if o.client.isSome then o.free else o

inductive Op (H : Type*) where
  | init (k : InitOutcome H)
  | call (ret : Option ℤ)
  | free

/-- One operation.  A handle that is created is not one that is open. -/
def step (o : XmlRpcClient H) : Op H → Option (XmlRpcClient H)
  | .init (.created h) => if IsOpen o.log h then none else some (o.init (.created h)).2
  | .init k => some (o.init k).2
  | .call ret => some (o.call ret).2
  | .free => some o.free

/-- Every handle is destroyed once, the library was given open handles only,
and the set-up is undone as often as it was made. -/
def Disciplined (o : XmlRpcClient H) : Prop :=
  ClosedOnce o.log ∧ o.misused = false ∧ o.setups = o.teardowns

/-- Between two operations, or before the destructor: `client` is NULL or an
open handle. -/
def Clean (o : XmlRpcClient H) : Prop := o.client = none ∨ o.live = true

/-- The operation is one that a proper use makes. -/
def Proper (o : XmlRpcClient H) : Op H → Prop
  | .init .setupFails => True
  | .init .createFails => False
  | .init (.created _) => o.live = false
  | .call _ => o.Clean
  | .free => o.live = true

instance (o : XmlRpcClient H) : Decidable o.Clean := inferInstanceAs (Decidable (_ ∨ _))

instance (o : XmlRpcClient H) : (a : Op H) → Decidable (o.Proper a)
  | .init .setupFails => isTrue trivial
  | .init .createFails => isFalse id
  | .init (.created _) => inferInstanceAs (Decidable (_ = _))
  | .call _ => inferInstanceAs (Decidable o.Clean)
  | .free => inferInstanceAs (Decidable (_ = _))

/-! ### The invariants -/

/-- The object owns its handle, or none, and the set-up was made `extra` times
too often. -/
inductive Tracks (o : XmlRpcClient H) (extra : ℕ) : Prop
  | live (h : H) (hclient : o.client = some h) (howns : Owns o.log (some h))
      (hsetups : o.setups = o.teardowns + 1 + extra)
  | idle (howns : Owns o.log none) (hsetups : o.setups = o.teardowns + extra)

/-- A handle is open that is no longer in `client`. -/
def Lost (o : XmlRpcClient H) : Prop := ∃ h, IsOpen o.log h ∧ o.client ≠ some h

def Good (o : XmlRpcClient H) : Prop := o.misused = false ∧ o.Tracks 0

/-- What no later operation makes good. -/
def Bad (o : XmlRpcClient H) : Prop :=
  o.misused = true ∨ o.Lost ∨ ∃ extra, o.Tracks (extra + 1)

variable {o o' : XmlRpcClient H} {extra : ℕ}

theorem good_initial : (initial H).Good := ⟨rfl, .idle owns_nil rfl⟩

theorem live_of_owns {h : H} (hclient : o.client = some h) (howns : Owns o.log (some h)) :
    o.live = true := by
  rw [live, hclient, Option.any_some, decide_eq_true_eq]
  exact howns.isOpen

theorem not_live_of_owns_none (howns : Owns o.log none) : o.live = false := by
  rw [live]
  rcases o.client with _ | h
  · rfl
  · rw [Option.any_some, decide_eq_false_iff_not, IsOpen, howns h]
    exact Nat.lt_irrefl _

/-! ### What one operation does -/

/-- An object that holds no open handle may get one. -/
theorem tracks_created (howns : Owns o.log none) (hsetups : o.setups = o.teardowns + extra)
    (h : H) : (o.init (.created h)).2.Tracks extra := by
  refine .live h rfl (howns.acquire h) ?_
  show o.setups + 1 = o.teardowns + 1 + extra
  omega

/-- A set-up without a handle. -/
theorem Tracks.createFails (ht : o.Tracks extra) : (o.init .createFails).2.Tracks (extra + 1) := by
  rcases ht with ⟨h, hclient, howns, hsetups⟩ | ⟨howns, hsetups⟩
  · exact .live h hclient howns (congrArg Nat.succ hsetups)
  · exact .idle howns (congrArg Nat.succ hsetups)

/-- A handle that is destroyed. -/
theorem tracks_free {h : H} (hclient : o.client = some h) (howns : Owns o.log (some h))
    (hsetups : o.setups = o.teardowns + 1 + extra) : o.free.Tracks extra := by
  refine .idle ?_ hsetups
  show Owns (o.log ++ (o.client.map HandleEvent.release).toList) none
  rw [hclient]
  exact howns.release

/-- A call of the library with an open handle. -/
theorem call_of_live (hlive : o.live = true) (ret : Option ℤ) : (o.call ret).2 = o := by
  have hsome : o.client.isNone = false := by
    rcases hclient : o.client with _ | h
    · rw [live, hclient] at hlive
      cases hlive
    · rfl
  simp only [call, hsome, hlive, Bool.false_eq_true, if_false, Bool.not_true, Bool.or_false]

/-- Without a handle there is no call of the library. -/
theorem call_of_none (hnone : o.client = none) (ret : Option ℤ) : (o.call ret).2 = o := by
  simp only [call, hnone, Option.isNone_none, if_true]

theorem call_of_clean (hclean : o.Clean) (ret : Option ℤ) : (o.call ret).2 = o :=
  hclean.elim (fun hnone => call_of_none hnone ret) fun hlive => call_of_live hlive ret

/-- With any other one it is misused. -/
theorem call_misused (hclean : ¬ o.Clean) (ret : Option ℤ) : (o.call ret).2.misused = true := by
  obtain ⟨hsome, hlive⟩ := not_or.mp hclean
  have hnone : o.client.isNone = false := by
    rw [← Bool.not_eq_true, Option.isNone_iff_eq_none]
    exact hsome
  rw [Bool.not_eq_true] at hlive
  simp only [call, hnone, hlive, Bool.false_eq_true, if_false, Bool.not_false, Bool.or_true]

theorem free_misused (hlive : o.live = false) : o.free.misused = true := by
  simp only [free, hlive, Bool.not_false, Bool.or_true]

theorem free_of_live (hlive : o.live = true) : o.free.misused = o.misused := by
  simp only [free, hlive, Bool.not_true, Bool.or_false]

/-- The handle that is created is not open. -/
theorem step_created {h : H} (hstep : step o (.init (.created h)) = some o') :
    ¬ IsOpen o.log h ∧ o' = (o.init (.created h)).2 := by
  rw [step] at hstep
  split at hstep
  · cases hstep
  · rename_i hfresh
    exact ⟨hfresh, (Option.some.inj hstep).symm⟩

/-- **A proper operation keeps the invariant.** -/
theorem good_step (o : XmlRpcClient H) (a : Op H) (o' : XmlRpcClient H) (hgood : o.Good)
    (hproper : o.Proper a) (hstep : step o a = some o') : o'.Good := by
  obtain ⟨hmisused, htracks⟩ := hgood
  cases a with
  | init k =>
    cases k with
    | setupFails =>
      cases hstep
      exact ⟨hmisused, htracks⟩
    | createFails => exact absurd hproper id
    | created h =>
      obtain ⟨-, rfl⟩ := step_created hstep
      refine ⟨hmisused, ?_⟩
      rcases htracks with ⟨g, hclient, howns, -⟩ | ⟨howns, hsetups⟩
      · have hlive : o.live = false := hproper
        rw [live_of_owns hclient howns] at hlive
        cases hlive
      · exact tracks_created howns hsetups h
  | call ret =>
    cases hstep
    rw [call_of_clean hproper]
    exact ⟨hmisused, htracks⟩
  | free =>
    cases hstep
    have hlive : o.live = true := hproper
    refine ⟨(free_of_live hlive).trans hmisused, ?_⟩
    rcases htracks with ⟨g, hclient, howns, hsetups⟩ | ⟨howns, -⟩
    · exact tracks_free hclient howns hsetups
    · rw [not_live_of_owns_none howns] at hlive
      cases hlive

/-- A handle that is replaced while it is open. -/
theorem lost_created {g h : H} (howns : Owns o.log (some g)) (hfresh : ¬ IsOpen o.log h) :
    (o.init (.created h)).2.Lost := by
  refine ⟨g, howns.isOpen.acquire h, ?_⟩
  show some h ≠ some g
  rintro heq
  rw [Option.some.inj heq] at hfresh
  exact hfresh howns.isOpen

/-- **An operation that is not proper** cannot be made good. -/
theorem bad_of_good_step (o : XmlRpcClient H) (a : Op H) (o' : XmlRpcClient H) (hgood : o.Good)
    (hproper : ¬ o.Proper a) (hstep : step o a = some o') : o'.Bad := by
  obtain ⟨-, htracks⟩ := hgood
  cases a with
  | init k =>
    cases k with
    | setupFails => exact absurd trivial hproper
    | createFails =>
      cases hstep
      exact .inr (.inr ⟨0, htracks.createFails⟩)
    | created h =>
      obtain ⟨hfresh, rfl⟩ := step_created hstep
      rcases htracks with ⟨g, -, howns, -⟩ | ⟨howns, -⟩
      · exact .inr (.inl (lost_created howns hfresh))
      · exact absurd (not_live_of_owns_none howns) hproper
  | call ret =>
    cases hstep
    exact .inl (call_misused hproper ret)
  | free =>
    cases hstep
    have hlive : o.live = false := Bool.not_eq_true _ ▸ hproper
    exact .inl (free_misused hlive)

theorem misused_step {a : Op H} (hmisused : o.misused = true) (hstep : step o a = some o') :
    o'.misused = true := by
  cases a with
  | init k =>
    cases k with
    | setupFails => cases hstep; exact hmisused
    | createFails => cases hstep; exact hmisused
    | created h =>
      obtain ⟨-, rfl⟩ := step_created hstep
      exact hmisused
  | call ret =>
    cases hstep
    by_cases hclean : o.Clean
    · rw [call_of_clean hclean, hmisused]
    · exact call_misused hclean ret
  | free =>
    cases hstep
    simp only [free, hmisused, Bool.true_or]

/-- A lost handle is not the one that `free` destroys. -/
theorem Lost.free (hlost : o.Lost) : o.free.Lost := by
  obtain ⟨h, hopen, hne⟩ := hlost
  refine ⟨h, ?_, hne⟩
  show IsOpen (o.log ++ (o.client.map HandleEvent.release).toList) h
  rcases hclient : o.client with _ | g
  · simpa using hopen
  · rw [hclient] at hne
    exact hopen.release fun heq => hne (congrArg some heq)

theorem lost_step {a : Op H} (hlost : o.Lost) (hstep : step o a = some o') : o'.Lost := by
  cases a with
  | init k =>
    cases k with
    | setupFails => cases hstep; exact hlost
    | createFails => cases hstep; exact hlost
    | created g =>
      obtain ⟨hfresh, rfl⟩ := step_created hstep
      obtain ⟨h, hopen, -⟩ := hlost
      refine ⟨h, hopen.acquire g, ?_⟩
      -- the new handle was not open before
      rintro heq
      rw [← Option.some.inj heq] at hopen
      exact hfresh hopen
  | call ret =>
    cases hstep
    simp only [call]
    split
    · exact hlost
    · exact hlost
  | free =>
    cases hstep
    exact hlost.free

/-- **What is bad stays bad.** -/
theorem bad_step (o : XmlRpcClient H) (a : Op H) (o' : XmlRpcClient H) (hbad : o.Bad)
    (hstep : step o a = some o') : o'.Bad := by
  rcases hbad with hmisused | hlost | ⟨extra, htracks⟩
  · exact .inl (misused_step hmisused hstep)
  · exact .inr (.inl (lost_step hlost hstep))
  · cases a with
    | init k =>
      cases k with
      | setupFails => cases hstep; exact .inr (.inr ⟨extra, htracks⟩)
      | createFails => cases hstep; exact .inr (.inr ⟨extra + 1, htracks.createFails⟩)
      | created h =>
        obtain ⟨hfresh, rfl⟩ := step_created hstep
        rcases htracks with ⟨g, -, howns, -⟩ | ⟨howns, hsetups⟩
        · exact .inr (.inl (lost_created howns hfresh))
        · exact .inr (.inr ⟨extra, tracks_created howns hsetups h⟩)
    | call ret =>
      cases hstep
      by_cases hclean : o.Clean
      · rw [call_of_clean hclean]
        exact .inr (.inr ⟨extra, htracks⟩)
      · exact .inl (call_misused hclean ret)
    | free =>
      cases hstep
      rcases htracks with ⟨g, hclient, howns, hsetups⟩ | ⟨howns, -⟩
      · exact .inr (.inr ⟨extra, tracks_free hclient howns hsetups⟩)
      · exact .inl (free_misused (not_live_of_owns_none howns))

/-! ### The destructor -/

theorem destructor_of_some {h : H} (hclient : o.client = some h) : o.destructor = o.free := by
  rw [destructor, hclient, Option.isSome_some, if_pos rfl]

theorem destructor_of_none (hclient : o.client = none) : o.destructor = o := by
  rw [destructor, hclient]
  rfl

/-- Owning nothing, with every set-up undone. -/
theorem Tracks.disciplined (htracks : o.Tracks extra) (hnone : Owns o.log none) :
    Disciplined o ↔ o.misused = false ∧ extra = 0 := by
  rcases htracks with ⟨h, -, howns, -⟩ | ⟨-, hsetups⟩
  · exact absurd (hnone h) (by rw [howns h]; simp)
  · rw [Disciplined, and_iff_right hnone.closedOnce, hsetups]
    exact and_congr_right fun _ => Nat.add_eq_left

/-- The destructor of an object that tracks its handle. -/
theorem disciplined_destructor_iff (htracks : o.Tracks extra) :
    Disciplined o.destructor ↔ o.misused = false ∧ o.Clean ∧ extra = 0 := by
  have hwhole := htracks
  rcases htracks with ⟨h, hclient, howns, hsetups⟩ | ⟨howns, -⟩
  · have hlive := live_of_owns hclient howns
    have hfree := tracks_free hclient howns hsetups
    have hnone : Owns o.free.log none := by
      rw [XmlRpcClient.free, hclient]
      exact howns.release
    rw [destructor_of_some hclient, hfree.disciplined hnone, free_of_live hlive,
      and_iff_right (a := o.Clean) (.inr hlive)]
  · rcases hclient : o.client with _ | h
    · rw [destructor_of_none hclient, hwhole.disciplined howns,
        and_iff_right (a := o.Clean) (.inl hclient)]
    · -- the handle was destroyed before
      have hlive := not_live_of_owns_none howns
      rw [destructor_of_some hclient]
      constructor
      · rintro ⟨-, hmisused, -⟩
        rw [free_misused hlive] at hmisused
        cases hmisused
      · rintro ⟨-, hnull | hopen, -⟩
        · rw [hclient] at hnull
          cases hnull
        · rw [hlive] at hopen
          cases hopen

theorem not_disciplined_of_bad (hbad : o.Bad) : ¬ Disciplined o.destructor := by
  rcases hbad with hmisused | hlost | ⟨extra, htracks⟩
  · intro hdisc
    have hkept : o.destructor.misused = true := by
      rw [destructor]
      split
      · simp only [free, hmisused, Bool.true_or]
      · exact hmisused
    rw [hdisc.2.1] at hkept
    cases hkept
  · intro hdisc
    have hkept : o.destructor.Lost := by
      rw [destructor]
      split
      · exact hlost.free
      · exact hlost
    obtain ⟨h, hopen, -⟩ := hkept
    exact hopen.not_closedOnce hdisc.1
  · rw [disciplined_destructor_iff htracks]
    rintro ⟨-, -, hzero⟩
    cases hzero

/-- **When the handle is used with discipline.**  Take any operations on an
object and then its destructor: every handle is destroyed once, the library gets
open handles only, and every set-up is undone, exactly if each operation is
proper and `client` is NULL or an open handle at the end. -/
theorem disciplined_iff {as : List (Op H)} (h : run step (initial H) as = some o) :
    Disciplined o.destructor ↔
      RunMeets step (fun o a _ => o.Proper a) (initial H) as ∧ o.Clean := by
  rcases run_invariant_or good_step bad_of_good_step bad_step good_initial h with
    ⟨hmeets, hmisused, htracks⟩ | ⟨hnot, hbad⟩
  · rw [disciplined_destructor_iff htracks, and_iff_right hmeets, and_iff_right hmisused,
      and_iff_left rfl]
  · exact iff_of_false (not_disciplined_of_bad hbad) fun hall => hnot hall.1

/-- A call before there is a handle, one handle, and another one after it. -/
theorem disciplined_two_handles :
    ∃ o, run step (initial ℕ) [.init .setupFails, .call none, .init (.created 1), .call (some 0),
        .free, .init (.created 2), .call (some 0)] = some o ∧
      o.destructor.log = [.acquire 1, .release 1, .acquire 2, .release 2] ∧
      Disciplined o.destructor := by
  obtain ⟨o, hrun, hlog⟩ : ∃ o, run step (initial ℕ) [.init .setupFails, .call none,
      .init (.created 1), .call (some 0), .free, .init (.created 2), .call (some 0)] = some o ∧
        o.client = some 2 ∧ o.live = true ∧
        o.destructor.log = [.acquire 1, .release 1, .acquire 2, .release 2] :=
    ⟨_, rfl, rfl, by decide, by decide⟩
  refine ⟨o, hrun, hlog.2.2, ?_⟩
  exact (disciplined_iff hrun).mpr ⟨by decide, .inr hlog.2.1⟩

/-- A `free` before the destructor destroys the handle twice, and a set-up without
a handle is never undone. -/
theorem undisciplined :
    (∃ o, run step (initial ℕ) [.init (.created 1), .free] = some o ∧
        o.destructor.log = [.acquire 1, .release 1, .release 1] ∧
        o.destructor.misused = true ∧ ¬ Disciplined o.destructor) ∧
      ∃ o, run step (initial ℕ) [.init .createFails] = some o ∧
        o.destructor.setups = 1 ∧ o.destructor.teardowns = 0 ∧ ¬ Disciplined o.destructor := by
  refine ⟨⟨_, rfl, by decide, by decide, ?_⟩, ⟨_, rfl, rfl, rfl, ?_⟩⟩
  · rintro ⟨-, hmisused, -⟩
    exact absurd hmisused (by decide)
  · rintro ⟨-, -, hsetups⟩
    exact absurd hsetups (by decide)

end XmlRpcClient

end LinuxDemo

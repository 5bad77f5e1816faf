/-
LinuxDemo/Lib/Handles.lean

Handles that are acquired and released, as a log of events.

A handle may be given out again after its release, so a log is read by
counting: a handle is open if it was acquired more often than released.
`ClosedOnce` says that nothing is open at the end, and `NoneTwice` that no
event of the log released a handle that was not open.  `Owns log o` is the
state of an owner of at most one handle: `o` is open, and nothing else is.
-/
import Mathlib.Data.List.Infix

namespace LinuxDemo

inductive HandleEvent (H : Type*) where
  | acquire (h : H)
  | release (h : H)
deriving DecidableEq

variable {H : Type*} [DecidableEq H]

def acquires (log : List (HandleEvent H)) (h : H) : ℕ := log.count (.acquire h)

def releases (log : List (HandleEvent H)) (h : H) : ℕ := log.count (.release h)

def IsOpen (log : List (HandleEvent H)) (h : H) : Prop := releases log h < acquires log h

instance (log : List (HandleEvent H)) (h : H) : Decidable (IsOpen log h) :=
  inferInstanceAs (Decidable (_ < _))

/-- Every handle was released as often as it was acquired. -/
def ClosedOnce (log : List (HandleEvent H)) : Prop :=
  ∀ h, releases log h = acquires log h

/-- At no point of the log was a handle released more often than acquired. -/
def NoneTwice (log : List (HandleEvent H)) : Prop :=
  ∀ pre, pre <+: log → ∀ h, releases pre h ≤ acquires pre h

/-- The handle `o` is open once, and no other one is. -/
def Owns (log : List (HandleEvent H)) (o : Option H) : Prop :=
  ∀ h, acquires log h = releases log h + if o = some h then 1 else 0

variable {log : List (HandleEvent H)} {h : H}

theorem owns_nil : Owns ([] : List (HandleEvent H)) none := fun _ => rfl

theorem noneTwice_nil : NoneTwice ([] : List (HandleEvent H)) := by
  intro pre hpre h
  rw [List.prefix_nil.mp hpre]
  rfl

theorem Owns.closedOnce (ho : Owns log none) : ClosedOnce log := fun h => (ho h).symm

theorem IsOpen.not_closedOnce (ho : IsOpen log h) : ¬ ClosedOnce log :=
  fun hc => (hc h).not_lt ho

/-- A log after one more event is one of its prefixes, or the whole. -/
theorem noneTwice_concat {e : HandleEvent H} (hn : NoneTwice log)
    (he : ∀ h, releases (log ++ [e]) h ≤ acquires (log ++ [e]) h) :
    NoneTwice (log ++ [e]) := by
  intro pre hpre
  rcases List.prefix_concat_iff.mp hpre with rfl | hpre
  · exact he
  · exact hn pre hpre

@[simp] theorem acquires_acquire (x y : H) :
    acquires (log ++ [.acquire x]) y = acquires log y + if x = y then 1 else 0 := by
  simp [acquires, List.count_singleton]

@[simp] theorem releases_acquire (x y : H) :
    releases (log ++ [.acquire x]) y = releases log y := by
  simp [releases]

@[simp] theorem acquires_release (x y : H) :
    acquires (log ++ [.release x]) y = acquires log y := by
  simp [acquires]

@[simp] theorem releases_release (x y : H) :
    releases (log ++ [.release x]) y = releases log y + if x = y then 1 else 0 := by
  simp [releases, List.count_singleton]

/-- An owner of nothing may acquire. -/
theorem Owns.acquire (x : H) (ho : Owns log none) : Owns (log ++ [.acquire x]) (some x) := by
  intro y
  have := ho y
  simp only [acquires_acquire, releases_acquire, Option.some.injEq]
  simp only [reduceCtorEq, if_false] at this
  omega

/-- An owner may release what it owns. -/
theorem Owns.release {x : H} (ho : Owns log (some x)) : Owns (log ++ [.release x]) none := by
  intro y
  have := ho y
  simp only [acquires_release, releases_release, reduceCtorEq, if_false]
  simp only [Option.some.injEq] at this
  omega

theorem NoneTwice.acquire (x : H) (hn : NoneTwice log) : NoneTwice (log ++ [.acquire x]) := by
  refine noneTwice_concat hn fun y => ?_
  have := hn log (List.prefix_refl log) y
  simp only [acquires_acquire, releases_acquire]
  omega

theorem NoneTwice.release {x : H} (hn : NoneTwice log) (ho : IsOpen log x) :
    NoneTwice (log ++ [.release x]) := by
  refine noneTwice_concat hn fun y => ?_
  have := hn log (List.prefix_refl log) y
  simp only [acquires_release, releases_release]
  split
  · rename_i heq
    subst heq
    exact ho
  · exact this

theorem Owns.isOpen {x : H} (ho : Owns log (some x)) : IsOpen log x := by
  have := ho x
  simp only [if_true] at this
  rw [IsOpen]
  omega

/-- What is open stays open until it is released. -/
theorem IsOpen.acquire (x : H) (ho : IsOpen log h) : IsOpen (log ++ [.acquire x]) h := by
  rw [IsOpen] at ho ⊢
  simp only [acquires_acquire, releases_acquire]
  omega

theorem IsOpen.release {x : H} (hne : x ≠ h) (ho : IsOpen log h) :
    IsOpen (log ++ [.release x]) h := by
  rw [IsOpen] at ho ⊢
  simp only [acquires_release, releases_release, if_neg hne]
  exact ho

/-- What is acquired while it is not released too often is open. -/
theorem NoneTwice.isOpen_acquire (x : H) (hn : NoneTwice log) :
    IsOpen (log ++ [.acquire x]) x := by
  have := hn log (List.prefix_refl log) x
  rw [IsOpen]
  simp only [acquires_acquire, releases_acquire, if_true]
  omega

end LinuxDemo

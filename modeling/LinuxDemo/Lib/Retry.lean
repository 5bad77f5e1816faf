/-
LinuxDemo/Lib/Retry.lean

A call that is made again while its outcome asks for it.

The outcomes that an environment will give are a list, and `retry` takes from
it what one such loop takes.  A list that ends before the loop does stands for
a loop that has not ended yet, so a statement about every finite list with a
result is one about every loop that ends.
-/
import Mathlib.Data.List.Basic
import Mathlib.Algebra.Order.Ring.Int

namespace LinuxDemo

variable {O : Type*}

/-- What a loop took: the outcomes it tried again after, the one it ended on,
and those it left. -/
structure Tried (O : Type*) where
  tried : List O
  last : O
  rest : List O

/-- Repeat while the outcome is `again` and, with a limit `tries`, while a
counter that starts there and goes down at each repetition is not negative. -/
def retry (again : O → Bool) (tries : Option ℤ) : List O → Option (Tried O)
  | [] => none
  | o :: os =>
      if again o ∧ tries.all (0 ≤ ·) then
        (retry again (tries.map (· - 1)) os).map fun r => { r with tried := o :: r.tried }
      else some ⟨[], o, os⟩

/-- **What `retry` takes.**  A piece of the list up to the first outcome that
ends the loop; without a limit only an outcome that does not ask for another
try ends it. -/
theorem retry_spec {again : O → Bool} {os : List O} {r : Tried O} {tries : Option ℤ}
    (h : retry again tries os = some r) :
    os = r.tried ++ r.last :: r.rest ∧ (∀ o ∈ r.tried, again o) ∧
      (tries = none → again r.last = false) := by
  induction os generalizing tries r with
  | nil => cases h
  | cons o os ih =>
    rw [retry] at h
    split at h
    · rename_i hagain
      obtain ⟨r', hr', rfl⟩ := Option.map_eq_some_iff.mp h
      obtain ⟨hos, hall, hlast⟩ := ih hr'
      refine ⟨by rw [hos]; rfl, ?_, fun ht => hlast (by rw [ht]; rfl)⟩
      intro t ht
      rcases List.mem_cons.mp ht with rfl | ht
      · exact hagain.1
      · exact hall t ht
    · rename_i hstop
      cases h
      refine ⟨rfl, nofun, fun ht => ?_⟩
      rw [ht] at hstop
      simpa using hstop

/-- Outcomes that ask for another try come first; without a limit they change
nothing else. -/
theorem retry_append {again : O → Bool} {pre : List O} (os : List O)
    (h : ∀ o ∈ pre, again o) :
    retry again none (pre ++ os) =
      (retry again none os).map fun r => { r with tried := pre ++ r.tried } := by
  induction pre with
  | nil => exact Option.map_id'.symm
  | cons o pre ih =>
    have ho : again o = true := h o (List.mem_cons_self ..)
    have hpre := ih fun t ht => h t (List.mem_cons_of_mem _ ht)
    rw [List.cons_append, retry, if_pos ⟨ho, rfl⟩]
    show (retry again none (pre ++ os)).map _ = _
    rw [hpre, Option.map_map]
    rfl

/-- An outcome that does not ask for another try ends the loop. -/
theorem retry_cons_last {again : O → Bool} {o : O} (tries : Option ℤ) (os : List O)
    (h : again o = false) : retry again tries (o :: os) = some ⟨[], o, os⟩ := by
  rw [retry, if_neg]
  rw [h]
  exact fun hagain => Bool.noConfusion hagain.1

/-- A loop that is given nothing else does not end. -/
theorem retry_all_again {again : O → Bool} {os : List O} (h : ∀ o ∈ os, again o) :
    retry again none os = none := by
  have hall := retry_append [] h
  rwa [List.append_nil] at hall

end LinuxDemo

/-
LinuxDemo/Lib/PrefixCode.lean

Codes that say where they end.

In a prefix code (`PrefixCode`) no code is the beginning of another, whatever
comes behind.  Words up to an end that is in none of them are told apart so
(`eq_of_ended`).  A text of codes, one behind the other, is of one list of words only
(`PrefixCode.flatMap_injective`).
-/
import Mathlib.Data.List.Basic

namespace LinuxDemo

variable {α β : Type*} {f : α → List β}

/-- A code, and what comes behind it, can be told apart. -/
def PrefixCode (f : α → List β) : Prop :=
  ∀ a b s t, f a ++ s = f b ++ t → a = b ∧ s = t

/-- Words up to an end that is in none of them. -/
theorem eq_of_ended {c : β} {v w s t : List β} (hv : c ∉ v) (hw : c ∉ w)
    (h : v ++ c :: s = w ++ c :: t) : v = w ∧ s = t := by
  induction v generalizing w with
  | nil =>
    cases w with
    | nil => exact ⟨rfl, (List.cons.inj h).2⟩
    | cons b w => exact absurd (List.mem_cons.mpr (.inl (List.cons.inj h).1)) hw
  | cons a v ih =>
    cases w with
    | nil => exact absurd (List.mem_cons.mpr (.inl (List.cons.inj h).1.symm)) hv
    | cons b w =>
      obtain ⟨hab, hrest⟩ := List.cons.inj h
      obtain ⟨hvw, hst⟩ := ih (fun hc => hv (.tail a hc)) (fun hc => hw (.tail b hc)) hrest
      exact ⟨by rw [hab, hvw], hst⟩

/-- **A text of codes is read in one way.** -/
theorem PrefixCode.flatMap_injective (h : PrefixCode f) (hne : ∀ a, f a ≠ []) :
    Function.Injective fun l : List α => l.flatMap f := by
  intro l l' heq
  induction l generalizing l' with
  | nil =>
    cases l' with
    | nil => rfl
    | cons b l' =>
      have hnil : f b ++ l'.flatMap f = [] := by simpa using heq.symm
      exact absurd (List.append_eq_nil_iff.mp hnil).1 (hne b)
  | cons a l ih =>
    cases l' with
    | nil =>
      have hnil : f a ++ l.flatMap f = [] := by simpa using heq
      exact absurd (List.append_eq_nil_iff.mp hnil).1 (hne a)
    | cons b l' =>
      have hcons : f a ++ l.flatMap f = f b ++ l'.flatMap f := by simpa using heq
      obtain ⟨hab, hl⟩ := h a b _ _ hcons
      rw [hab, ih hl]

end LinuxDemo

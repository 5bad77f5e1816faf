/-
LinuxDemo/Lib/LexCode.lean

Codes that carry a nested lexicographic order.

A comparison that goes through a tree, from the left and with the first
difference deciding, is the lexicographic order of the lists that the trees are
flattened to, if no code is a proper beginning of another.  `Sep x y lt eq` says
that of two codes: whatever follows them, the lists compare as `lt` and `eq`
say, and as what follows if `eq` holds.  So it is closed under concatenation
(`Sep.append`), and the laws of a linear order hold of the comparison because
they hold of lists (`Sep.lt_iff`, `Sep.eq_iff`).
-/
import Mathlib.Data.List.Lex
import Mathlib.Order.Lattice

namespace LinuxDemo.LexCode

variable {κ : Type*} [LinearOrder κ]

/-- The codes `x` and `y` tell the order, before whatever follows. -/
structure Sep (x y : List κ) (lt eq : Prop) : Prop where
  lt_append : ∀ s t, x ++ s < y ++ t ↔ lt ∨ eq ∧ s < t
  eq_append : ∀ s t, x ++ s = y ++ t ↔ eq ∧ s = t

variable {x y x' y' : List κ} {lt eq lt' eq' : Prop}

theorem Sep.lt_iff (h : Sep x y lt eq) : x < y ↔ lt := by
  have hlt := h.lt_append [] []
  rwa [List.append_nil, List.append_nil, or_iff_left (fun h => lt_irrefl _ h.2)] at hlt

theorem Sep.eq_iff (h : Sep x y lt eq) : x = y ↔ eq := by
  have heq := h.eq_append [] []
  rwa [List.append_nil, List.append_nil, and_iff_left rfl] at heq

theorem Sep.congr (h : Sep x y lt eq) (hlt : lt ↔ lt') (heq : eq ↔ eq') : Sep x y lt' eq' := by
  rw [propext hlt, propext heq] at h
  exact h

theorem sep_nil : Sep ([] : List κ) [] False True where
  lt_append s t := by simp
  eq_append s t := by simp

/-- A code of one atom. -/
theorem sep_atom (a b : κ) : Sep [a] [b] (a < b) (a = b) where
  lt_append s t := by
    rw [List.singleton_append, List.singleton_append]
    exact List.cons_lt_cons_iff
  eq_append s t := by
    rw [List.singleton_append, List.singleton_append]
    exact List.cons_eq_cons

/-- One code behind another: the second decides if the first do not differ. -/
theorem Sep.append (h : Sep x y lt eq) (h' : eq → Sep x' y' lt' eq') :
    Sep (x ++ x') (y ++ y') (lt ∨ eq ∧ lt') (eq ∧ eq') where
  lt_append s t := by
    rw [List.append_assoc, List.append_assoc, h.lt_append]
    constructor
    · rintro (hlt | ⟨heq, hlt⟩)
      · exact .inl (.inl hlt)
      · exact ((h' heq).lt_append s t).mp hlt |>.imp (fun hlt => .inr ⟨heq, hlt⟩)
          fun hlt => ⟨⟨heq, hlt.1⟩, hlt.2⟩
    · rintro ((hlt | ⟨heq, hlt⟩) | ⟨⟨heq, heq'⟩, hlt⟩)
      · exact .inl hlt
      · exact .inr ⟨heq, ((h' heq).lt_append s t).mpr (.inl hlt)⟩
      · exact .inr ⟨heq, ((h' heq).lt_append s t).mpr (.inr ⟨heq', hlt⟩)⟩
  eq_append s t := by
    rw [List.append_assoc, List.append_assoc, h.eq_append, and_assoc]
    exact and_congr_right fun heq => (h' heq).eq_append s t

theorem Sep.cons {a b : κ} (h : a = b → Sep x y lt eq) :
    Sep (a :: x) (b :: y) (a < b ∨ a = b ∧ lt) (a = b ∧ eq) := (sep_atom a b).append h

end LinuxDemo.LexCode

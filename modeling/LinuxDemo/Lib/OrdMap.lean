/-
LinuxDemo/Lib/OrdMap.lean

Ordered maps as lists of entries, the keys strictly increasing (`Sorted`).

The list is kept in the open, so that a type may have maps to itself: `find` is
`List.lookup`, `set` inserts an entry or replaces the one of its key, `slot`
inserts one where there is none, and `erase` takes one out.  What is found after each of them is stated without the
order of the keys where it does not need it.  A sorted map is determined by what
is found in it (`Sorted.ext`).
-/
import Mathlib.Order.Lattice
import Mathlib.Data.List.Perm.Basic
import Mathlib.Data.Prod.Basic

namespace LinuxDemo.OrdMap

variable {κ α β : Type*} [LinearOrder κ]

/-- The keys are strictly increasing. -/
def Sorted (m : List (κ × α)) : Prop := m.Pairwise fun a b => a.1 < b.1

instance (m : List (κ × α)) : Decidable (Sorted m) :=
  inferInstanceAs (Decidable (m.Pairwise _))

/-- The value of `k`. -/
def find (m : List (κ × α)) (k : κ) : Option α := m.lookup k

/-- The entry of `k` becomes `x`, or is inserted in its place. -/
def set (k : κ) (x : α) : List (κ × α) → List (κ × α)
  | [] => [(k, x)]
  | (k', x') :: m =>
      if k < k' then (k, x) :: (k', x') :: m
      else if k = k' then (k, x) :: m
      else (k', x') :: set k x m

/-- With an entry of `k`, which is `d` if there was none. -/
def slot (d : α) (k : κ) (m : List (κ × α)) : List (κ × α) :=
  if (find m k).isSome then m else set k d m

/-- Without the entry of `k`. -/
def erase (k : κ) (m : List (κ × α)) : List (κ × α) := m.filter fun e => e.1 ≠ k

variable {m : List (κ × α)} {k k' : κ} {x : α}

@[simp] theorem sorted_nil : Sorted ([] : List (κ × α)) := List.Pairwise.nil

theorem sorted_cons {e : κ × α} : Sorted (e :: m) ↔ (∀ e' ∈ m, e.1 < e'.1) ∧ Sorted m :=
  List.pairwise_cons

/-! ### Finding -/

theorem find_cons (e : κ × α) (m : List (κ × α)) (k : κ) :
    find (e :: m) k = if k = e.1 then some e.2 else find m k := by
  rw [find, List.lookup_cons]
  by_cases h : k = e.1
  · rw [if_pos h, beq_iff_eq.mpr h]
  · rw [if_neg h, beq_false_of_ne h]
    rfl

theorem find_cons_self : find ((k, x) :: m) k = some x := by
  rw [find_cons, if_pos rfl]

theorem find_cons_ne (h : k ≠ k') : find ((k', x) :: m) k = find m k := by
  rw [find_cons, if_neg h]

@[simp] theorem find_set_self (m : List (κ × α)) (k : κ) (x : α) :
    find (set k x m) k = some x := by
  induction m with
  | nil => exact find_cons_self
  | cons e m ih =>
    obtain ⟨k', x'⟩ := e
    rw [set]
    split
    · exact find_cons_self
    · split
      · exact find_cons_self
      · rename_i hne
        rw [find_cons_ne hne, ih]

theorem find_set_ne (m : List (κ × α)) (x : α) (h : k' ≠ k) :
    find (set k x m) k' = find m k' := by
  induction m with
  | nil => exact find_cons_ne h
  | cons e m ih =>
    obtain ⟨k₀, x₀⟩ := e
    rw [set]
    split
    · exact find_cons_ne h
    · split
      · rename_i heq
        subst heq
        rw [find_cons_ne h, find_cons_ne h]
      · rw [find_cons, find_cons, ih]

theorem find_slot (m : List (κ × α)) (d : α) (k k' : κ) :
    find (slot d k m) k' = if k' = k then some ((find m k).getD d) else find m k' := by
  rw [slot]
  split
  · rename_i h
    split
    · rename_i hk
      obtain ⟨x, hx⟩ := Option.isSome_iff_exists.mp h
      rw [hk, hx, Option.getD_some]
    · rfl
  · rename_i h
    split
    · rename_i hk
      rw [hk, find_set_self, Option.not_isSome_iff_eq_none.mp h, Option.getD_none]
    · rename_i hk
      exact find_set_ne _ _ hk

theorem find_erase (m : List (κ × α)) (k k' : κ) :
    find (erase k m) k' = if k' = k then none else find m k' := by
  induction m with
  | nil => simp [erase, find]
  | cons e m ih =>
    obtain ⟨k₀, x₀⟩ := e
    rw [erase] at ih ⊢
    by_cases hk : k₀ = k
    · rw [List.filter_cons_of_neg (by simpa using hk), ih]
      subst hk
      split
      · rfl
      · rename_i hne
        rw [find_cons_ne hne]
    · rw [List.filter_cons_of_pos (by simpa using hk), find_cons, find_cons, ih]
      by_cases hk' : k' = k₀
      · subst hk'
        simp [hk]
      · rw [if_neg hk', if_neg hk']

/-- Finding after a change of the values. -/
theorem find_map (m : List (κ × α)) (g : α → β) (k : κ) :
    find (m.map fun e => (e.1, g e.2)) k = (find m k).map g := by
  induction m with
  | nil => rfl
  | cons e m ih =>
    obtain ⟨k₀, x₀⟩ := e
    rw [List.map_cons, find_cons, find_cons, ih]
    split <;> rfl

theorem mem_of_find (h : find m k = some x) : (k, x) ∈ m := by
  induction m with
  | nil => cases h
  | cons e m ih =>
    obtain ⟨k₀, x₀⟩ := e
    by_cases hk : k = k₀
    · subst hk
      rw [find_cons_self] at h
      rw [Option.some.inj h]
      exact List.mem_cons_self
    · rw [find_cons_ne hk] at h
      exact List.mem_cons_of_mem _ (ih h)

theorem find_eq_none_of_forall_ne (h : ∀ e ∈ m, e.1 ≠ k) : find m k = none := by
  induction m with
  | nil => rfl
  | cons e m ih =>
    obtain ⟨k₀, x₀⟩ := e
    rw [find_cons_ne (h (k₀, x₀) List.mem_cons_self).symm]
    exact ih fun e he => h e (List.mem_cons_of_mem _ he)

theorem Sorted.find_eq (hm : Sorted m) (h : (k, x) ∈ m) : find m k = some x := by
  induction m with
  | nil => cases h
  | cons e m ih =>
    obtain ⟨hlt, hm⟩ := sorted_cons.mp hm
    rcases List.mem_cons.mp h with rfl | h
    · exact find_cons_self
    · rw [find_cons_ne (hlt _ h).ne', ih hm h]

/-- **A sorted map is what is found in it.** -/
theorem Sorted.ext {m m' : List (κ × α)} (hm : Sorted m) (hm' : Sorted m')
    (h : ∀ k, find m k = find m' k) : m = m' := by
  have hmem : ∀ e, e ∈ m ↔ e ∈ m' := fun ⟨k, x⟩ =>
    ⟨fun he => mem_of_find (h k ▸ hm.find_eq he), fun he => mem_of_find ((h k).symm ▸ hm'.find_eq he)⟩
  have hnodup {l : List (κ × α)} (hl : Sorted l) : l.Nodup :=
    List.Pairwise.imp (fun hlt heq => absurd (congrArg Prod.fst heq) hlt.ne) hl
  have hperm : m.Perm m' := (List.perm_ext_iff_of_nodup (hnodup hm) (hnodup hm')).mpr hmem
  exact hperm.eq_of_pairwise (fun _ _ _ _ hab hba => absurd hab (not_lt.mpr hba.le)) hm hm'

/-! ### The order of the keys -/

theorem mem_set {e : κ × α} (h : e ∈ set k x m) : e = (k, x) ∨ e ∈ m := by
  induction m with
  | nil => exact .inl (List.mem_singleton.mp h)
  | cons e' m ih =>
    obtain ⟨k', x'⟩ := e'
    rw [set] at h
    split at h
    · exact List.mem_cons.mp h
    · split at h
      · exact (List.mem_cons.mp h).imp id (List.mem_cons_of_mem _)
      · rcases List.mem_cons.mp h with rfl | h
        · exact .inr List.mem_cons_self
        · exact (ih h).imp id (List.mem_cons_of_mem _)

theorem Sorted.set (hm : Sorted m) (k : κ) (x : α) : Sorted (set k x m) := by
  induction m with
  | nil => exact List.pairwise_singleton _ _
  | cons e m ih =>
    obtain ⟨k', x'⟩ := e
    obtain ⟨hlt, hm'⟩ := sorted_cons.mp hm
    rw [OrdMap.set]
    split
    · rename_i hk
      refine sorted_cons.mpr ⟨fun e he => ?_, hm⟩
      rcases List.mem_cons.mp he with rfl | he
      · exact hk
      · exact hk.trans (hlt e he)
    · split
      · rename_i hk
        subst hk
        exact sorted_cons.mpr ⟨hlt, hm'⟩
      · rename_i hle hne
        refine sorted_cons.mpr ⟨fun e he => ?_, ih hm'⟩
        rcases mem_set he with rfl | he
        · exact lt_of_le_of_ne (not_lt.mp hle) (Ne.symm hne)
        · exact hlt e he

theorem Sorted.erase (hm : Sorted m) (k : κ) : Sorted (erase k m) := List.Pairwise.filter _ hm

theorem Sorted.map (hm : Sorted m) (g : α → β) : Sorted (m.map fun e => (e.1, g e.2)) :=
  List.Pairwise.map _ (fun _ _ h => h) hm

/-- A key behind all others. -/
theorem set_eq_append (h : ∀ e ∈ m, e.1 < k) : set k x m = m ++ [(k, x)] := by
  induction m with
  | nil => rfl
  | cons e m ih =>
    obtain ⟨k', x'⟩ := e
    have hk : k' < k := h _ List.mem_cons_self
    rw [set, if_neg hk.not_gt, if_neg hk.ne', ih fun e he => h e (List.mem_cons_of_mem _ he)]
    rfl

/-- The value of a key that is there already. -/
theorem set_set (m : List (κ × α)) (k : κ) (x y : α) : set k y (set k x m) = set k y m := by
  induction m with
  | nil => simp [set]
  | cons e m ih =>
    obtain ⟨k', x'⟩ := e
    by_cases hlt : k < k'
    · simp [set, hlt]
    · by_cases heq : k = k'
      · subst heq
        simp [set]
      · simp [set, hlt, heq, ih]

/-- An entry that is set after it was made sure to be there. -/
theorem set_slot (m : List (κ × α)) (d : α) (k : κ) (x : α) : set k x (slot d k m) = set k x m := by
  rw [slot]
  split
  · rfl
  · exact set_set m k d x

theorem Sorted.slot (hm : Sorted m) (d : α) (k : κ) : Sorted (slot d k m) := by
  rw [OrdMap.slot]
  split
  · exact hm
  · exact hm.set k d

/-- Making sure of an entry is setting it to what it is, or to the default. -/
theorem Sorted.slot_eq_set (hm : Sorted m) (d : α) (k : κ) :
    OrdMap.slot d k m = OrdMap.set k ((find m k).getD d) m := by
  apply Sorted.ext (hm.slot d k) (hm.set k _)
  intro k'
  rw [find_slot]
  split
  · rename_i hk
    rw [hk, find_set_self]
  · rename_i hk
    rw [find_set_ne _ _ hk]

/-- The entries of a sorted map, set in their order, give it back. -/
theorem Sorted.foldl_set (hm : Sorted m) :
    m.foldl (fun m' e => OrdMap.set e.1 e.2 m') [] = m := by
  have key : ∀ (m m₀ : List (κ × α)), Sorted (m₀ ++ m) →
      m.foldl (fun m' e => OrdMap.set e.1 e.2 m') m₀ = m₀ ++ m := by
    intro m
    induction m with
    | nil => exact fun m₀ _ => (List.append_nil m₀).symm
    | cons e m ih =>
      intro m₀ hs
      have hlt : ∀ e' ∈ m₀, e'.1 < e.1 := fun e' he' =>
        (List.pairwise_append.mp hs).2.2 e' he' e List.mem_cons_self
      rw [List.foldl_cons, set_eq_append hlt, ih _ (by simpa using hs), List.append_assoc]
      rfl
  exact key m [] hm

end LinuxDemo.OrdMap

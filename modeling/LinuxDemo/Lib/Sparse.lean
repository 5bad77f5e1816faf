/-
LinuxDemo/Lib/Sparse.lean

A list kept as a map of its entries.

A map from the indices may leave some out; with a default for these it stands
for a list, as long as its highest index says (`dense`).  What is done to the map
and what is done to the list are compared by length and lookup (`dense_eq_iff`).
An entry that is left out below the highest is a hole.  Setting an entry is
setting it in the list, padded if it is too short (`dense_set`); a map that is
cut off or closed up stands for the list that is, if no hole comes to be the last
(`dense_below_iff`, `dense_closeUp_iff`).
-/
import LinuxDemo.Lib.OrdMap
import Mathlib.Data.List.GetD

namespace LinuxDemo.Sparse

open OrdMap

variable {α : Type*}

/-- One more than the highest index. -/
def high (m : List (ℕ × α)) : ℕ := m.getLast?.elim 0 fun e => e.1 + 1

def get (d : α) (m : List (ℕ × α)) (i : ℕ) : α := (find m i).getD d

/-- The list that the map stands for. -/
def dense (d : α) (m : List (ℕ × α)) : List α := (List.range (high m)).map (get d m)

/-- A list of at least `n` entries. -/
def pad (d : α) (n : ℕ) (l : List α) : List α := l ++ List.replicate (n - l.length) d

variable {d : α} {m m' : List (ℕ × α)} {n i : ℕ} {x : α} {l : List α}

/-! ### Lengths -/

theorem lt_high (hm : Sorted m) {e : ℕ × α} (he : e ∈ m) : e.1 < high m := by
  obtain ⟨m, last, rfl⟩ := List.eq_nil_or_concat' m |>.resolve_left (List.ne_nil_of_mem he)
  rw [high, List.getLast?_concat]
  rcases List.mem_append.mp he with he | he
  · have hlt := (List.pairwise_append.mp hm).2.2 e he last List.mem_cons_self
    exact Nat.lt_succ_of_lt hlt
  · rw [List.mem_singleton.mp he]
    exact Nat.lt_succ_self _

theorem find_of_high_le (hm : Sorted m) (h : high m ≤ i) : find m i = none := by
  apply find_eq_none_of_forall_ne
  rintro e he rfl
  exact absurd (lt_high hm he) (not_lt.mpr h)

theorem find_last (hm : Sorted m) (h : high m ≠ 0) : (find m (high m - 1)).isSome = true := by
  obtain rfl | ⟨m, last, rfl⟩ := List.eq_nil_or_concat' m
  · exact absurd rfl h
  · have hfind := hm.find_eq (List.mem_append_right m (List.mem_singleton_self last))
    rw [high, List.getLast?_concat]
    show (find _ last.1).isSome = true
    rw [hfind]
    rfl

theorem high_le_of_find (hm : Sorted m) (h : ∀ i, n ≤ i → find m i = none) : high m ≤ n := by
  by_contra hlt
  have hlast := find_last hm (by omega)
  rw [h _ (by omega)] at hlast
  cases hlast

/-- The length is that of the entries that are there. -/
theorem high_eq_iff (hm : Sorted m) :
    high m = n ↔ (∀ i, n ≤ i → find m i = none) ∧ (n ≠ 0 → (find m (n - 1)).isSome = true) := by
  constructor
  · rintro rfl
    exact ⟨fun i => find_of_high_le hm, find_last hm⟩
  · rintro ⟨hnone, hsome⟩
    apply le_antisymm
    · exact high_le_of_find hm hnone
    · by_contra hlt
      have hlast := hsome (by omega)
      rw [find_of_high_le hm (by omega)] at hlast
      cases hlast

theorem length_dense : (dense d m).length = high m := by
  rw [dense, List.length_map, List.length_range]

theorem getD_dense (hm : Sorted m) (i : ℕ) : (dense d m).getD i d = get d m i := by
  by_cases hi : i < high m
  · rw [List.getD_eq_getElem _ _ (by rwa [length_dense])]
    simp [dense]
  · rw [List.getD_eq_default _ _ (by rw [length_dense]; exact not_lt.mp hi), get,
      find_of_high_le hm (not_lt.mp hi)]
    rfl

/-- **A list is its length and what is looked up in it.** -/
theorem dense_eq_iff (hm : Sorted m) :
    dense d m = l ↔ high m = l.length ∧ ∀ i, get d m i = l.getD i d := by
  constructor
  · rintro rfl
    exact ⟨length_dense.symm, fun i => (getD_dense hm i).symm⟩
  · rintro ⟨hlength, hget⟩
    apply List.ext_getElem
    · rw [length_dense, hlength]
    · intro i hi hi'
      rw [← List.getD_eq_getElem _ d hi, ← List.getD_eq_getElem _ d hi', getD_dense hm, hget]

/-! ### Operations -/

theorem length_pad : (pad d n l).length = max n l.length := by
  rw [pad, List.length_append, List.length_replicate]
  omega

theorem getD_pad (i : ℕ) : (pad d n l).getD i d = l.getD i d := by
  rw [pad]
  by_cases hi : i < l.length
  · rw [List.getD_append _ _ _ _ hi]
  · rw [List.getD_append_right _ _ _ _ (not_lt.mp hi), List.getD_eq_default _ _ (not_lt.mp hi)]
    by_cases hi' : i - l.length < n - l.length
    · rw [List.getD_eq_getElem _ _ (by rwa [List.length_replicate]), List.getElem_replicate]
    · rw [List.getD_eq_default _ _ (by rw [List.length_replicate]; exact not_lt.mp hi')]

theorem pad_of_le (h : n ≤ l.length) : pad d n l = l := by
  rw [pad, Nat.sub_eq_zero_of_le h, List.replicate_zero, List.append_nil]

theorem pad_succ (h : l.length ≤ n) : pad d (n + 1) l = pad d n l ++ [d] := by
  rw [pad, Nat.succ_sub h, List.replicate_succ', ← List.append_assoc]
  rfl

/-- Setting the entry behind a padded list. -/
theorem set_pad (h : l.length ≤ n) (x : α) : (pad d (n + 1) l).set n x = pad d n l ++ [x] := by
  have hlength : (pad d n l).length = n := by rw [length_pad, max_eq_left h]
  rw [pad_succ h, List.set_append_right _ _ hlength.le, hlength, Nat.sub_self]
  rfl

theorem get_set (m : List (ℕ × α)) (k : ℕ) (x : α) (i : ℕ) :
    get d (OrdMap.set k x m) i = if i = k then x else get d m i := by
  split
  · rename_i h
    rw [h, get, find_set_self]
    rfl
  · rename_i h
    rw [get, find_set_ne _ _ h]
    rfl

theorem high_set (hm : Sorted m) (k : ℕ) (x : α) :
    high (OrdMap.set k x m) = max (k + 1) (high m) := by
  refine (high_eq_iff (hm.set k x)).mpr ⟨fun i hi => ?_, fun hne => ?_⟩
  · rw [find_set_ne _ _ (by omega)]
    exact find_of_high_le hm (by omega)
  · by_cases hk : high m ≤ k + 1
    · rw [max_eq_left hk]
      exact (congrArg Option.isSome (find_set_self m k x)).trans rfl
    · have hlast := find_last hm (by omega)
      rw [max_eq_right (by omega), find_set_ne _ _ (by omega)]
      exact hlast

/-- An entry of the map is one of the list. -/
theorem dense_set (hm : Sorted m) (k : ℕ) (x : α) :
    dense d (OrdMap.set k x m) = (pad d (k + 1) (dense d m)).set k x := by
  refine (dense_eq_iff (hm.set k x)).mpr ⟨?_, fun i => ?_⟩
  · rw [high_set hm, List.length_set, length_pad, length_dense]
  · have hlen : k < (pad d (k + 1) (dense d m)).length := by
      rw [length_pad]
      omega
    rw [get_set, List.getD_eq_getElem?_getD, List.getElem?_set]
    by_cases hi : i = k
    · rw [if_pos hi, if_pos hi.symm, if_pos (hi ▸ hlen)]
      rfl
    · rw [if_neg hi, if_neg (Ne.symm hi), ← List.getD_eq_getElem?_getD, getD_pad, getD_dense hm]

/-- The entries below `n`. -/
def below (n : ℕ) (m : List (ℕ × α)) : List (ℕ × α) := m.filter fun e => e.1 < n

theorem sorted_below (hm : Sorted m) (n : ℕ) : Sorted (below n m) := List.Pairwise.filter _ hm

theorem find_below (m : List (ℕ × α)) (n k : ℕ) :
    find (below n m) k = if k < n then find m k else none := by
  induction m with
  | nil => simp [below, find]
  | cons e m ih =>
    rw [below] at ih ⊢
    by_cases he : e.1 < n
    · rw [List.filter_cons_of_pos (by simpa using he), find_cons, find_cons, ih]
      by_cases hk : k = e.1
      · simp [hk, he]
      · simp [hk]
    · rw [List.filter_cons_of_neg (by simpa using he), ih, find_cons]
      by_cases hk : k = e.1
      · simp [hk, he]
      · simp [hk]

theorem high_below_iff (hm : Sorted m) (n : ℕ) :
    high (below n m) = n ↔ n = 0 ∨ (find m (n - 1)).isSome = true := by
  have hbelow : ∀ i, n ≤ i → find (below n m) i = none := fun i hi => by
    rw [find_below, if_neg (not_lt.mpr hi)]
  rw [high_eq_iff (sorted_below hm n), and_iff_right hbelow, find_below]
  by_cases hzero : n = 0
  · simp [hzero]
  · rw [if_pos (by omega)]
    simp [hzero]

/-- A map that is cut off stands for the list that is, exactly if there is a last entry. -/
theorem dense_below_iff (hm : Sorted m) (hn : n ≤ high m) :
    dense d (below n m) = (dense d m).take n ↔ n = 0 ∨ (find m (n - 1)).isSome = true := by
  have hlen : ((dense d m).take n).length = n := by
    rw [List.length_take, length_dense, min_eq_left hn]
  have hget (i : ℕ) : get d (below n m) i = ((dense d m).take n).getD i d := by
    rw [get, find_below, List.getD_eq_getElem?_getD, List.getElem?_take]
    split
    · rw [← List.getD_eq_getElem?_getD, getD_dense hm]
      rfl
    · rfl
  rw [dense_eq_iff (sorted_below hm n), and_iff_left hget, hlen, high_below_iff hm]

/-- A map that is closed up over the entry `i` stands for the list that is, exactly if there is
a last entry. -/
theorem dense_closeUp_iff (hm : Sorted m) (hm' : Sorted m') (hi : i < high m)
    (hfind : ∀ k, find m' k =
      if k < i then find m k else if k + 1 < high m then some (get d m (k + 1)) else none) :
    dense d m' = (dense d m).eraseIdx i ↔
      i + 1 < high m ∨ i = 0 ∨ (find m (i - 1)).isSome = true := by
  have hlen : ((dense d m).eraseIdx i).length = high m - 1 := by
    rw [List.length_eraseIdx_of_lt (by rwa [length_dense]), length_dense]
  have hget (k : ℕ) : get d m' k = ((dense d m).eraseIdx i).getD k d := by
    rw [get, hfind, List.getD_eq_getElem?_getD, List.getElem?_eraseIdx]
    split
    · rw [← List.getD_eq_getElem?_getD, getD_dense hm]
      rfl
    · rw [← List.getD_eq_getElem?_getD, getD_dense hm]
      split
      · rfl
      · rw [get, find_of_high_le hm (by omega)]
  have habove : ∀ k, high m - 1 ≤ k → find m' k = none := fun k hk => by
    rw [hfind, if_neg (by omega), if_neg (by omega)]
  rw [dense_eq_iff hm', and_iff_left hget, hlen, high_eq_iff hm', and_iff_right habove, hfind]
  by_cases hlast : i + 1 < high m
  · rw [if_neg (by omega), if_pos (by omega)]
    simp [hlast]
  · simp only [hlast, false_or]
    by_cases hzero : i = 0
    · simp [hzero]
      omega
    · have heq : high m - 1 - 1 = i - 1 := by omega
      rw [heq, if_pos (by omega)]
      simp only [hzero, false_or]
      exact ⟨fun h => h (by omega), fun h _ => h⟩

end LinuxDemo.Sparse

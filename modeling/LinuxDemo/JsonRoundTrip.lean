/-
LinuxDemo/JsonRoundTrip.lean

What is read back after writing.

`readBack` is the value that a reader finds in what a writer wrote.  It is the
value itself exactly if that is `Exact` all through (`readBack_eq_iff`): small
integers have to be signed and large ones unsigned, an array must not have
holes, and a `double` must not be printed like an integer.  After one round trip
that is so, and another changes nothing (`exact_readBack`).

It does not matter which of the writers it was, but that two of them cut names
off at a NUL.
-/
import LinuxDemo.JsonComplete
import LinuxDemo.JsonStyledTree

namespace LinuxDemo.Json

open JsonGrammar

variable {ρ : Type*} {D : Doubles ρ}

/-- The value of the tree that is written. -/
def readBack (D : Doubles ρ) (v : Value ρ) : Value ρ := valueOf D (treeOf D id v)

/-- `%.17g` and `%lf` are inverse but for a NaN: 17 digits tell every `double` from
the others. -/
def Doubles.RoundTrips (D : Doubles ρ) : Prop :=
  ∀ x, ¬ (D.isfinite x = false ∧ D.isNaN x = true) → D.sscanf (valueToStringDouble D x) = some x

/-! ### Strings -/

/-- A quoted string is one token, and is decoded to what it was. -/
theorem readToken_quoted (r : OurReader ρ) {s q : List UInt8} (h : Quoted s q)
    (rest : List UInt8) :
    r.readToken (q ++ rest) = ⟨.tokenString, q ++ rest, rest⟩ ∧
      decodeString ⟨.tokenString, q ++ rest, rest⟩ = .ok s := by
  obtain ⟨next, hnext, hscan⟩ := OurReader.token_of_quoted (r := r) h rest
  refine ⟨?_, decodeString_eq h rest⟩
  rw [hnext]
  exact r.readToken_eq (skipSpaces_cons rfl next) hscan

/-- **Every string of bytes is one token when it is quoted, and is decoded to itself**; quoted as
a string of C, it is cut off at the NUL. -/
theorem decodeString_quoted (r : OurReader ρ) (s rest : List UInt8) :
    (r.readToken (valueToQuotedStringN s ++ rest) =
        ⟨.tokenString, valueToQuotedStringN s ++ rest, rest⟩ ∧
      decodeString ⟨.tokenString, valueToQuotedStringN s ++ rest, rest⟩ = .ok s) ∧
    (r.readToken (valueToQuotedString s ++ rest) =
        ⟨.tokenString, valueToQuotedString s ++ rest, rest⟩ ∧
      decodeString ⟨.tokenString, valueToQuotedString s ++ rest, rest⟩ = .ok (cstr s)) :=
  ⟨readToken_quoted r (quoted_valueToQuotedStringN s) rest,
    readToken_quoted r (quoted_valueToQuotedString s) rest⟩

/-! ### Integers -/

/-- A signed value keeps its type up to 2^31 - 1. -/
theorem readBack_intValue (n : Int64) :
    readBack D (.intValue n) =
      if n.toInt ≤ 2147483647 then .intValue n else .uintValue n.toUInt64 := by
  have hlow := n.le_toInt
  have hhigh := n.toInt_lt
  rw [readBack, treeOf, valueOf, numberValue, valueToStringInt_eq]
  by_cases hneg : n < 0
  · have hneg' : n.toInt < 0 := Int64.lt_iff_toInt_lt.mp hneg
    have habs : (-(n.toInt.natAbs : ℤ)) = n.toInt := by omega
    rw [if_pos hneg, integerValue_neg (by omega), if_pos (by omega), habs, Int64.ofInt_toInt]
    rfl
  · have hpos : 0 ≤ n.toInt := by
      have hnot := fun h => hneg (Int64.lt_iff_toInt_lt.mpr h)
      exact not_lt.mp hnot
    have habs : (n.toInt.natAbs : ℤ) = n.toInt := by omega
    have hunsigned := toNat_abs n
    rw [if_neg hneg] at hunsigned ⊢
    rw [integerValue_decimal (by omega)]
    split
    · rename_i hsmall
      rw [if_pos (by omega), Option.getD_some, ← Int64.ofInt_eq_ofNat, habs, Int64.ofInt_toInt]
    · rename_i hlarge
      rw [if_neg (by omega), Option.getD_some, ← hunsigned, UInt64.ofNat_toNat]

theorem readBack_uintValue (n : UInt64) :
    readBack D (.uintValue n) =
      if n.toNat ≤ 2147483647 then .intValue n.toInt64 else .uintValue n := by
  rw [readBack, treeOf, valueOf, numberValue, valueToStringUInt_eq,
    integerValue_decimal n.toNat_lt, UInt64.ofNat_toNat]
  split
  · rw [Option.getD_some, ← UInt64.toInt64_ofNat', UInt64.ofNat_toNat]
  · rfl

/-! ### Containers -/

theorem valueOfElems_eq (index n : ℕ) (tree : ℕ → Tree) :
    valueOfElems D index ((List.range' index n).map tree) =
      (List.range' index n).map fun i => (i, valueOf D (tree i)) := by
  induction n generalizing index with
  | zero => rfl
  | succ n ih => rw [List.range'_succ, List.map_cons, valueOfElems, ih]; rfl

theorem valueOfMembers_eq (m : List (List UInt8 × Value ρ)) (ms : List (List UInt8 × Tree)) :
    valueOfMembers D m ms =
      (ms.map fun e => (e.1, valueOf D e.2)).foldl (fun m e => OrdMap.set e.1 e.2 m) m := by
  induction ms generalizing m with
  | nil => rfl
  | cons e ms ih => rw [valueOfMembers, ih]; rfl

/-- An array is read back without holes. -/
theorem readBack_arrayValue (m : List (ℕ × Value ρ)) :
    readBack D (.arrayValue m) =
      .arrayValue ((List.range (Value.arrayValue m).size).map fun index =>
        (index, readBack D (Value.elem m index))) := by
  rw [readBack, treeOf_arrayValue, valueOf, List.range_eq_range', valueOfElems_eq]
  rfl

/-- An object is read back with its names. -/
theorem readBack_objectValue {m : List (List UInt8 × Value ρ)} (hm : OrdMap.Sorted m) :
    readBack D (.objectValue m) = .objectValue (m.map fun e => (e.1, readBack D e.2)) := by
  have hsorted := hm.map (readBack D)
  rw [readBack, treeOf_objectValue, valueOf, valueOfMembers_eq, List.map_map]
  exact congrArg Value.objectValue hsorted.foldl_set

/-! ### Exact values -/

/-- What is read back as it is, of itself. -/
def Exact (D : Doubles ρ) : Value ρ → Prop
  | .intValue int_ => int_.toInt ≤ 2147483647
  | .uintValue uint_ => 2147483647 < uint_.toNat
  | .realValue real_ => readBack D (.realValue real_) = .realValue real_
  | .arrayValue m => m.map Prod.fst = List.range (Value.arrayValue m).size
  | _ => True

/-- A value is read back unchanged exactly if it is exact all through. -/
theorem readBack_eq_iff {v : Value ρ} (hwf : v.WF) (hv : v.Everywhere Writable) :
    readBack D v = v ↔ v.Everywhere (Exact D) := by
  induction v with
  | nullValue => exact ⟨fun _ => trivial, fun _ => rfl⟩
  | intValue n =>
    have hexact : (Value.intValue n).Everywhere (Exact D) ↔ n.toInt ≤ 2147483647 := Iff.rfl
    rw [readBack_intValue, hexact]
    constructor
    · intro h
      by_contra hlarge
      rw [if_neg hlarge] at h
      cases h
    · exact fun h => if_pos h
  | uintValue n =>
    have hexact : (Value.uintValue n).Everywhere (Exact D) ↔ 2147483647 < n.toNat := Iff.rfl
    rw [readBack_uintValue, hexact]
    constructor
    · intro h
      by_contra hsmall
      rw [if_pos (not_lt.mp hsmall)] at h
      cases h
    · exact fun h => if_neg (not_le.mpr h)
  | realValue x => exact Iff.rfl
  | stringValue s =>
    obtain ⟨s, rfl⟩ := Option.isSome_iff_exists.mp hv
    exact ⟨fun _ => trivial, fun _ => rfl⟩
  | booleanValue b => exact ⟨fun _ => trivial, fun _ => rfl⟩
  | arrayValue m ih =>
    obtain ⟨hsorted, hwf⟩ := Value.everywhere_arrayValue.mp hwf
    obtain ⟨-, hv⟩ := Value.everywhere_arrayValue.mp hv
    have helem : ∀ e ∈ m, Value.elem m e.1 = e.2 := fun e he => by
      rw [Value.elem, OrdMap.Sorted.find_eq hsorted he, Option.getD_some]
    rw [readBack_arrayValue, Value.everywhere_arrayValue, Value.arrayValue.injEq]
    constructor
    · intro h
      refine ⟨?_, fun e he => (ih e he (hwf e he) (hv e he)).mp ?_⟩
      · have hkeys := congrArg (List.map Prod.fst) h
        rw [List.map_map] at hkeys
        exact hkeys.symm.trans (List.map_id _)
      · have hmem := he
        rw [← h] at hmem
        obtain ⟨index, -, heq⟩ := List.mem_map.mp hmem
        have hindex : index = e.1 := congrArg Prod.fst heq
        have hvalue : readBack D (Value.elem m index) = e.2 := congrArg Prod.snd heq
        rwa [hindex, helem e he] at hvalue
    · rintro ⟨hkeys, hm⟩
      have hkeys : m.map Prod.fst = List.range (Value.arrayValue m).size := hkeys
      rw [← hkeys, List.map_map]
      refine (List.map_congr_left fun e he => ?_).trans (List.map_id m)
      show (e.1, readBack D (Value.elem m e.1)) = e
      rw [helem e he, (ih e he (hwf e he) (hv e he)).mpr (hm e he)]
  | objectValue m ih =>
    obtain ⟨hsorted, hwf⟩ := Value.everywhere_objectValue.mp hwf
    obtain ⟨-, hv⟩ := Value.everywhere_objectValue.mp hv
    rw [readBack_objectValue hsorted, Value.everywhere_objectValue, Value.objectValue.injEq]
    constructor
    · intro h
      refine ⟨trivial, fun e he => (ih e he (hwf e he) (hv e he)).mp ?_⟩
      have heach := List.map_inj_left.mp (h.trans (List.map_id m).symm) e he
      exact congrArg Prod.snd heach
    · rintro ⟨-, hm⟩
      refine (List.map_congr_left fun e he => ?_).trans (List.map_id m)
      rw [(ih e he (hwf e he) (hv e he)).mpr (hm e he)]
      rfl

/-- A `double` is read back as null, as an integer or as it was. -/
theorem readBack_realValue (hround : D.RoundTrips) (x : ρ) :
    readBack D (.realValue x) = .nullValue ∨ readBack D (.realValue x) = .realValue x ∨
      ∃ t, integerValue t = some (readBack D (.realValue x)) := by
  rw [readBack, treeOf, realTree]
  split
  · exact .inl rfl
  · rename_i hnumber
    rw [valueOf, numberValue, hround x hnumber]
    rcases hint : integerValue (valueToStringDouble D x) with _ | v
    · exact .inr (.inl rfl)
    · exact .inr (.inr ⟨_, hint⟩)

/-- What a text is as an integer, is exact. -/
theorem exact_integerValue {t : List UInt8} {v : Value ρ} (h : integerValue t = some v) :
    v.Everywhere (Exact D) := by
  rw [integerValue] at h
  split at h
  · split at h
    · rename_i hdigits
      cases h
      show (Int64.ofInt _).toInt ≤ 2147483647
      rw [Int64.toInt_ofInt_of_le (by omega) (by omega)]
      omega
    · cases h
  · split at h
    · rename_i hdigits
      split at h
      · rename_i hsmall
        cases h
        show (Int64.ofNat _).toInt ≤ 2147483647
        rw [Int64.toInt_ofNat_of_lt (by omega)]
        omega
      · rename_i hlarge
        cases h
        show 2147483647 < (UInt64.ofNat _).toNat
        rw [UInt64.toNat_ofNat', Nat.mod_eq_of_lt hdigits.2]
        exact not_le.mp hlarge
    · cases h

theorem Value.size_lt (v : Value ρ) : v.size < 2 ^ 32 := by
  unfold Value.size
  split
  · rename_i m
    cases m.getLast? with
    | none => exact Nat.two_pow_pos 32
    | some e => exact Nat.mod_lt _ (Nat.two_pow_pos 32)
  · exact Nat.mod_lt _ (Nat.two_pow_pos 32)
  · exact Nat.two_pow_pos 32

/-- The size of an array without holes. -/
theorem Value.size_range {n : ℕ} (hn : n < 2 ^ 32) (f : ℕ → Value ρ) :
    (Value.arrayValue ((List.range n).map fun index => (index, f index))).size = n := by
  cases n with
  | zero => rfl
  | succ n =>
    rw [Value.size, List.getLast?_map, List.range_succ, List.getLast?_concat]
    exact Nat.mod_eq_of_lt hn

theorem Value.elem_range {n index : ℕ} (hindex : index < n) (f : ℕ → Value ρ) :
    Value.elem ((List.range n).map fun index => (index, f index)) index = f index := by
  have hsorted : OrdMap.Sorted ((List.range n).map fun index => (index, f index)) :=
    List.Pairwise.map _ (fun _ _ h => h) List.pairwise_lt_range
  rw [Value.elem, hsorted.find_eq (List.mem_map.mpr ⟨index, List.mem_range.mpr hindex, rfl⟩),
    Option.getD_some]

/-- One round trip makes a value exact. -/
theorem exact_readBack (hround : D.RoundTrips) {v : Value ρ} (hwf : v.WF) :
    (readBack D v).Everywhere (Exact D) := by
  induction v with
  | nullValue => trivial
  | intValue n =>
    rw [readBack_intValue]
    split
    · assumption
    · rename_i hlarge
      have hunsigned := toNat_abs n
      have hpos : ¬ n < 0 := fun hneg => by
        have hneg' : n.toInt < 0 := Int64.lt_iff_toInt_lt.mp hneg
        omega
      rw [if_neg hpos] at hunsigned
      show 2147483647 < n.toUInt64.toNat
      omega
  | uintValue n =>
    rw [readBack_uintValue]
    split
    · rename_i hsmall
      have hsigned : n.toInt64 = Int64.ofNat n.toNat := by
        rw [← UInt64.toInt64_ofNat', UInt64.ofNat_toNat]
      show n.toInt64.toInt ≤ 2147483647
      rw [hsigned, Int64.toInt_ofNat_of_lt (by omega)]
      omega
    · rename_i hlarge
      exact not_le.mp hlarge
  | realValue x =>
    rcases readBack_realValue hround x with hnull | hreal | ⟨t, hint⟩
    · rw [hnull]
      trivial
    · rw [hreal]
      exact hreal
    · exact exact_integerValue hint
  | stringValue s => trivial
  | booleanValue b => trivial
  | arrayValue m ih =>
    obtain ⟨hsorted, hwf⟩ := Value.everywhere_arrayValue.mp hwf
    have hsize := (Value.arrayValue m).size_lt
    rw [readBack_arrayValue, Value.everywhere_arrayValue]
    generalize (Value.arrayValue m).size = size at hsize
    refine ⟨?_, fun e he => ?_⟩
    · show List.map Prod.fst _ = List.range (Value.size _)
      rw [Value.size_range hsize, List.map_map]
      exact List.map_id _
    · obtain ⟨index, -, rfl⟩ := List.mem_map.mp he
      rcases Value.elem_cases m index with helem | ⟨e, he, helem⟩
      · show (readBack D (Value.elem m index)).Everywhere (Exact D)
        rw [helem]
        trivial
      · show (readBack D (Value.elem m index)).Everywhere (Exact D)
        rw [helem]
        exact ih e he (hwf e he)
  | objectValue m ih =>
    obtain ⟨hsorted, hwf⟩ := Value.everywhere_objectValue.mp hwf
    rw [readBack_objectValue hsorted, Value.everywhere_objectValue]
    refine ⟨trivial, fun e' he' => ?_⟩
    obtain ⟨e, he, rfl⟩ := List.mem_map.mp he'
    exact ih e he (hwf e he)

theorem everywhere_numberValue {P : Value ρ → Prop} (hnull : P .nullValue)
    (hint : ∀ n, P (.intValue n)) (huint : ∀ n, P (.uintValue n)) (hreal : ∀ x, P (.realValue x))
    (t : List UInt8) : (numberValue D t).Everywhere P := by
  rcases numberValue_cases D t with h | ⟨n, h⟩ | ⟨n, h⟩ | ⟨x, h⟩ <;> rw [h]
  · exact hnull
  · exact hint n
  · exact huint n
  · exact hreal x

/-- What is read back keeps what holds of scalars, of arrays without holes that are no
larger, and of objects with the names they had. -/
theorem everywhere_readBack {P : Value ρ → Prop} (hnull : P .nullValue)
    (hint : ∀ n, P (.intValue n)) (huint : ∀ n, P (.uintValue n)) (hreal : ∀ x, P (.realValue x))
    (hbool : ∀ b, P (.booleanValue b)) {v : Value ρ} (hwf : v.WF) (hv : v.Everywhere Writable)
    (hstring : ∀ s : List UInt8, s.length < 2 ^ 31 - 5 → P (.stringValue (some s)))
    (harray : ∀ (n : ℕ) (f : ℕ → Value ρ), n < 2 ^ 31 →
      P (.arrayValue ((List.range n).map fun index => (index, f index))))
    (hobject : ∀ (m : List (List UInt8 × Value ρ)) (f : Value ρ → Value ρ), OrdMap.Sorted m →
      m.length < 2 ^ 32 → P (.objectValue (m.map fun e => (e.1, f e.2)))) :
    (readBack D v).Everywhere P := by
  induction v with
  | nullValue => exact hnull
  | intValue n => exact everywhere_numberValue hnull hint huint hreal _
  | uintValue n => exact everywhere_numberValue hnull hint huint hreal _
  | realValue x =>
    rw [readBack, treeOf, realTree]
    split
    · exact hnull
    · exact everywhere_numberValue hnull hint huint hreal _
  | stringValue s =>
    obtain ⟨s, rfl⟩ := Option.isSome_iff_exists.mp hv
    exact hstring s hwf
  | booleanValue b => exact hbool b
  | arrayValue m ih =>
    obtain ⟨-, hwf⟩ := Value.everywhere_arrayValue.mp hwf
    obtain ⟨hsize, hv⟩ := Value.everywhere_arrayValue.mp hv
    rw [readBack_arrayValue, Value.everywhere_arrayValue]
    refine ⟨harray _ _ hsize, fun e he => ?_⟩
    obtain ⟨index, -, rfl⟩ := List.mem_map.mp he
    show (readBack D (Value.elem m index)).Everywhere P
    rcases Value.elem_cases m index with helem | ⟨e, he, helem⟩
    · rw [helem]
      exact hnull
    · rw [helem]
      exact ih e he (hwf e he) (hv e he)
  | objectValue m ih =>
    obtain ⟨hsorted, hwf⟩ := Value.everywhere_objectValue.mp hwf
    obtain ⟨hlength, hv⟩ := Value.everywhere_objectValue.mp hv
    rw [readBack_objectValue hsorted, Value.everywhere_objectValue]
    refine ⟨hobject m _ hsorted hlength, fun e' he' => ?_⟩
    obtain ⟨e, he, rfl⟩ := List.mem_map.mp he'
    exact ih e he (hwf e he) (hv e he)

theorem wf_readBack {v : Value ρ} (hwf : v.WF) (hv : v.Everywhere Writable) :
    (readBack D v).WF := by
  refine everywhere_readBack trivial (fun _ => trivial) (fun _ => trivial) (fun _ => trivial)
    (fun _ => trivial) hwf hv (fun s hs => hs) (fun n f _ => ?_) (fun m f hm _ => hm.map f)
  exact List.Pairwise.map _ (fun _ _ h => h) List.pairwise_lt_range

theorem writable_readBack {v : Value ρ} (hwf : v.WF) (hv : v.Everywhere Writable) :
    (readBack D v).Everywhere Writable := by
  refine everywhere_readBack trivial (fun _ => trivial) (fun _ => trivial) (fun _ => trivial)
    (fun _ => trivial) hwf hv (fun s _ => rfl) (fun n f hn => ?_) (fun m f _ hm => ?_)
  · show (Value.arrayValue _).size < 2 ^ 31
    rwa [Value.size_range (by omega)]
  · show (List.map _ m).length < 2 ^ 32
    rwa [List.length_map]

/-- A second round trip changes nothing. -/
theorem readBack_readBack (hround : D.RoundTrips) {v : Value ρ} (hwf : v.WF)
    (hv : v.Everywhere Writable) : readBack D (readBack D v) = readBack D v :=
  (readBack_eq_iff (wf_readBack hwf hv) (writable_readBack hwf hv)).mpr (exact_readBack hround hwf)

/-! ### How deep it is nested -/

theorem depth_treeOf_numberValue (t : List UInt8) :
    (treeOf D id (numberValue D t)).depth = 1 := by
  rcases numberValue_cases D t with h | ⟨n, h⟩ | ⟨n, h⟩ | ⟨x, h⟩ <;> rw [h]
  · rfl
  · rfl
  · rfl
  · rw [treeOf, realTree]
    split <;> rfl

/-- What is read back is nested as deep. -/
theorem depth_readBack {v : Value ρ} (hwf : v.WF) :
    (treeOf D id (readBack D v)).depth = (treeOf D id v).depth := by
  induction v with
  | nullValue => rfl
  | intValue n => exact depth_treeOf_numberValue _
  | uintValue n => exact depth_treeOf_numberValue _
  | realValue x =>
    rw [readBack, treeOf, realTree]
    split
    · rfl
    · exact depth_treeOf_numberValue _
  | stringValue s => rfl
  | booleanValue b => rfl
  | arrayValue m ih =>
    obtain ⟨-, hwf⟩ := Value.everywhere_arrayValue.mp hwf
    rw [readBack_arrayValue, treeOf_arrayValue, treeOf_arrayValue,
      Value.size_range (Value.arrayValue m).size_lt, Tree.depth, Tree.depth, Tree.depthElems_eq,
      Tree.depthElems_eq, List.map_map, List.map_map]
    refine congrArg (fun ds => List.foldr max 0 ds + 1) (List.map_congr_left fun index hindex => ?_)
    show (treeOf D id _).depth = (treeOf D id (Value.elem m index)).depth
    rw [Value.elem_range (List.mem_range.mp hindex)]
    rcases Value.elem_cases m index with helem | ⟨e, he, helem⟩
    · rw [helem]
      rfl
    · rw [helem]
      exact ih e he (hwf e he)
  | objectValue m ih =>
    obtain ⟨hsorted, hwf⟩ := Value.everywhere_objectValue.mp hwf
    rw [readBack_objectValue hsorted, treeOf_objectValue, treeOf_objectValue, Tree.depth, Tree.depth,
      Tree.depthMembers_eq, Tree.depthMembers_eq, List.map_map, List.map_map, List.map_map]
    refine congrArg (fun ds => List.foldr max 0 ds + 1) (List.map_congr_left fun e he => ?_)
    exact ih e he (hwf e he)

/-! ### Documents -/

/-- The names of a well-formed object are distinct. -/
theorem distinct_treeOf {v : Value ρ} (hwf : v.WF) : (treeOf D id v).Distinct := by
  induction v with
  | nullValue => exact .null
  | intValue n => exact .number _
  | uintValue n => exact .number _
  | realValue x =>
    rw [treeOf, realTree]
    split
    · exact .null
    · exact .number _
  | stringValue s => exact .string _
  | booleanValue b => exact .bool b
  | arrayValue m ih =>
    obtain ⟨-, hwf⟩ := Value.everywhere_arrayValue.mp hwf
    rw [treeOf_arrayValue]
    refine .array fun t ht => ?_
    obtain ⟨index, -, rfl⟩ := List.mem_map.mp ht
    rcases Value.elem_cases m index with helem | ⟨e, he, helem⟩
    · rw [helem]
      exact .null
    · rw [helem]
      exact ih e he (hwf e he)
  | objectValue m ih =>
    obtain ⟨hsorted, hwf⟩ := Value.everywhere_objectValue.mp hwf
    rw [treeOf_objectValue]
    refine .object ?_ fun e' he' => ?_
    · have hnames : (m.map Prod.fst).Nodup :=
        List.Pairwise.map _ (fun _ _ h => h.ne) hsorted
      rw [List.map_map]
      exact hnames
    · obtain ⟨e, he, rfl⟩ := List.mem_map.mp he'
      exact ih e he (hwf e he)

theorem isContainer_treeOf {v : Value ρ} (h : v.isArray = true ∨ v.isObject = true) :
    (treeOf D id v).IsContainer := by
  cases v with
  | arrayValue m => trivial
  | objectValue m => trivial
  | _ => rcases h with h | h <;> cases h

/-- An array with a hole, in an object. -/
def holed : Value Unit :=
  .objectValue [(ascii "a", .arrayValue [(0, .booleanValue true), (2, .realValue ())])]

theorem wf_holed : holed.WF := by
  simp [holed, Value.WF, Value.Everywhere, Value.EveryElem, Value.Local, OrdMap.Sorted]

theorem writable_holed : holed.Everywhere Writable := by
  simp [holed, Value.Everywhere, Value.EveryElem, Writable, Value.size]

theorem scans_half : Doubles.half.Scans := fun _ _ => rfl

theorem prints_half : Doubles.half.Prints := fun _ _ =>
  @NumberText.mk [] [0x30] [0x2E, 0x35] [] (.inl rfl) (.inl rfl)
    (.inr ⟨[0x35], rfl, nofun, fun _ hc => by rw [List.mem_singleton.mp hc]; rfl⟩) (.inl rfl)

/-- What a reader returns on a text of the value `v`. -/
def readsBack (r : OurReader ρ) (v : Value ρ) : Outcome (Bool × Value ρ × List ErrorInfo) :=
  if ((treeOf r.doubles id v).depth : ℤ) ≤ r.features_.stackLimit_ then
    .done (true, readBack r.doubles v, [])
  else .thrown stackLimitExceeded

theorem parse_of_tree {r : OurReader ρ} (hscan : r.doubles.Scans) {v : Value ρ} (hwf : v.WF)
    {document : List UInt8} (h : Derives (.around (treeOf r.doubles id v)) document)
    (hshort : document.length < 2 ^ 30)
    (hroot : r.features_.strictRoot_ = true → v.isArray = true ∨ v.isObject = true)
    (root : Value ρ) : r.parse document root = readsBack r v := by
  have hcontainer : ¬ (r.features_.strictRoot_ = true ∧ ¬ (treeOf r.doubles id v).IsContainer) :=
    fun hnot => hnot.2 (isContainer_treeOf (hroot hnot.1))
  rw [r.parse_of_derives hscan h hshort (fun _ => distinct_treeOf hwf) root, if_neg hcontainer]
  rfl

/-- What `FastWriter` writes is read back, unless it is nested too deep. -/
theorem parse_write {r : OurReader ρ} (hscan : r.doubles.Scans) (hprints : r.doubles.Prints)
    {w : FastWriter} (hnull : w.dropNullPlaceholders_ = false) {v : Value ρ} (hwf : v.WF)
    (hv : v.Everywhere Writable) (hshort : (w.write r.doubles v).length < 2 ^ 30)
    (hroot : r.features_.strictRoot_ = true → v.isArray = true ∨ v.isObject = true)
    (root : Value ρ) : r.parse (w.write r.doubles v) root = readsBack r v :=
  parse_of_tree hscan hwf (FastWriter.derives_write hprints hnull hv) hshort hroot root

/-- **What `FastWriter` writes is read back unchanged exactly if the value is exact all through**
and not nested too deep. -/
theorem parse_fastWriter {r : OurReader ρ} (hscan : r.doubles.Scans) (hprints : r.doubles.Prints)
    {w : FastWriter} (hnull : w.dropNullPlaceholders_ = false) {v : Value ρ} (hwf : v.WF)
    (hv : v.Everywhere Writable) (hshort : (w.write r.doubles v).length < 2 ^ 30)
    (hroot : r.features_.strictRoot_ = true → v.isArray = true ∨ v.isObject = true)
    (root : Value ρ) :
    r.parse (w.write r.doubles v) root = .done (true, v, []) ↔
      ((treeOf r.doubles id v).depth : ℤ) ≤ r.features_.stackLimit_ ∧
        v.Everywhere (Exact r.doubles) := by
  rw [parse_write hscan hprints hnull hwf hv hshort hroot root, readsBack,
    ← readBack_eq_iff hwf hv]
  split
  · rename_i hdepth
    constructor
    · intro h
      injection h with h
      exact ⟨hdepth, congrArg (fun res => res.2.1) h⟩
    · rintro ⟨-, hback⟩
      rw [hback]
  · rename_i hdepth
    exact ⟨nofun, fun h => absurd h.1 hdepth⟩

theorem parse_fastWriter_holed :
    (⟨.strictMode, true, 0, .half⟩ : OurReader Unit).parse
        ((⟨false, false, false⟩ : FastWriter).write .half holed) .nullValue =
      .done (true, holed, []) ↔
      ((treeOf .half id holed).depth : ℤ) ≤ 1000 ∧ holed.Everywhere (Exact .half) :=
  parse_fastWriter (r := ⟨.strictMode, true, 0, .half⟩) scans_half prints_half rfl wf_holed
    writable_holed (by decide +kernel) (fun _ => .inr rfl) .nullValue

/-- **What was read is read back unchanged**, when it is written again. -/
theorem parse_fastWriter_again {r : OurReader ρ} (hscan : r.doubles.Scans)
    (hprints : r.doubles.Prints) (hround : r.doubles.RoundTrips) {w : FastWriter}
    (hnull : w.dropNullPlaceholders_ = false) {v v' : Value ρ} (hwf : v.WF)
    (hv : v.Everywhere Writable) (hshort : (w.write r.doubles v).length < 2 ^ 30)
    (hroot : r.features_.strictRoot_ = true → v.isArray = true ∨ v.isObject = true)
    {root : Value ρ} {errors : List ErrorInfo}
    (hread : r.parse (w.write r.doubles v) root = .done (true, v', errors))
    (hshort' : (w.write r.doubles v').length < 2 ^ 30) (root' : Value ρ) :
    r.parse (w.write r.doubles v') root' = .done (true, v', []) := by
  rw [parse_write hscan hprints hnull hwf hv hshort hroot root, readsBack] at hread
  split at hread
  · rename_i hdepth
    injection hread with hread
    obtain rfl : readBack r.doubles v = v' := congrArg (fun res => res.2.1) hread
    have hroot' : r.features_.strictRoot_ = true →
        (readBack r.doubles v).isArray = true ∨ (readBack r.doubles v).isObject = true :=
      fun hstrict => (OurReader.isContainer_valueOf _ _).mpr (isContainer_treeOf (hroot hstrict))
    rw [parse_write hscan hprints hnull (wf_readBack hwf hv) (writable_readBack hwf hv) hshort'
      hroot' root', readsBack, depth_readBack hwf, if_pos hdepth, readBack_readBack hround hwf hv]
  · cases hread

theorem parse_fastWriter_again_holed :
    (⟨.strictMode, true, 0, .half⟩ : OurReader Unit).parse
        ((⟨false, false, false⟩ : FastWriter).write .half (readBack .half holed)) holed =
      .done (true, readBack .half holed, []) :=
  have hread := parse_write (r := ⟨.strictMode, true, 0, .half⟩) (w := ⟨false, false, false⟩)
    scans_half prints_half rfl wf_holed writable_holed (by decide +kernel) (fun _ => .inr rfl)
    .nullValue
  parse_fastWriter_again (r := ⟨.strictMode, true, 0, .half⟩) scans_half prints_half
    (fun _ _ => rfl) rfl wf_holed writable_holed (by decide +kernel) (fun _ => .inr rfl)
    (hread.trans (if_pos (by decide))) (by decide +kernel) holed

/-- **So is what `BuiltStyledStreamWriter` writes**, if it is indented with blanks. -/
theorem parse_builtStyledStreamWriter {r : OurReader ρ} (hscan : r.doubles.Scans)
    (hprints : r.doubles.Prints) {builder : StreamWriterBuilder} (hindent : Blank builder.indentation)
    (hnull : builder.dropNullPlaceholders = false) {p : Page}
    (hp : builder.commentStyleAll = true → p.childValues_ = []) {v : Value ρ} (hwf : v.WF)
    (hv : v.Everywhere Writable)
    (hshort : (BuiltStyledStreamWriter.write r.doubles builder p v).length < 2 ^ 30)
    (hroot : r.features_.strictRoot_ = true → v.isArray = true ∨ v.isObject = true)
    (root : Value ρ) :
    r.parse (BuiltStyledStreamWriter.write r.doubles builder p v) root = readsBack r v :=
  parse_of_tree hscan hwf (BuiltStyledStreamWriter.derives_write hprints hv hindent hnull hp)
    hshort hroot root

theorem parse_builtStyledStreamWriter_holed :
    (⟨.strictMode, true, 0, .half⟩ : OurReader Unit).parse (BuiltStyledStreamWriter.write .half
        ⟨[0x09], true, false, false⟩ ⟨[], [], [], false, true⟩ holed) .nullValue =
      readsBack ⟨.strictMode, true, 0, .half⟩ holed :=
  parse_builtStyledStreamWriter (r := ⟨.strictMode, true, 0, .half⟩) scans_half prints_half
    (fun _ hc => .inr (.inl (List.mem_singleton.mp hc))) rfl (fun _ => rfl) wf_holed
    writable_holed (by decide +kernel) (fun _ => .inr rfl) .nullValue

/-- No name has a NUL. -/
def NamesOfC : Value ρ → Prop
  | .objectValue m => ∀ e ∈ m, ∀ c ∈ e.1, c ≠ 0
  | _ => True

theorem treeOf_cstr {v : Value ρ} (hnames : v.Everywhere NamesOfC) :
    treeOf D cstr v = treeOf D id v := by
  induction v with
  | arrayValue m ih =>
    obtain ⟨-, hm⟩ := Value.everywhere_arrayValue.mp hnames
    rw [treeOf_arrayValue, treeOf_arrayValue]
    refine congrArg Tree.array (List.map_congr_left fun index _ => ?_)
    rcases Value.elem_cases m index with helem | ⟨e, he, helem⟩
    · rw [helem]
      rfl
    · rw [helem]
      exact ih e he (hm e he)
  | objectValue m ih =>
    obtain ⟨hname, hm⟩ := Value.everywhere_objectValue.mp hnames
    rw [treeOf_objectValue, treeOf_objectValue]
    refine congrArg Tree.object (List.map_congr_left fun e he => ?_)
    rw [ih e he (hm e he), cstr_unterminated (hname e he)]
    rfl
  | _ => rfl

/-- **So is what the other two styled writers write**, if no name has a NUL. -/
theorem parse_styledWriter {r : OurReader ρ} (hscan : r.doubles.Scans) (hprints : r.doubles.Prints)
    {indentation : List UInt8} (hindent : Blank indentation) (p p' : Page) {v : Value ρ}
    (hwf : v.WF) (hv : v.Everywhere Writable) (hnames : v.Everywhere NamesOfC)
    (hshort : (StyledWriter.write r.doubles p v).length < 2 ^ 30)
    (hshort' : (StyledStreamWriter.write r.doubles indentation p' v).length < 2 ^ 30)
    (hroot : r.features_.strictRoot_ = true → v.isArray = true ∨ v.isObject = true)
    (root : Value ρ) :
    r.parse (StyledWriter.write r.doubles p v) root = readsBack r v ∧
      r.parse (StyledStreamWriter.write r.doubles indentation p' v) root = readsBack r v := by
  have hstyled := StyledWriter.derives_write hprints hv p
  have hstream := StyledStreamWriter.derives_write hprints hv hindent p'
  rw [treeOf_cstr hnames] at hstyled hstream
  exact ⟨parse_of_tree hscan hwf hstyled hshort hroot root,
    parse_of_tree hscan hwf hstream hshort' hroot root⟩

theorem parse_styledWriter_holed :
    (⟨.strictMode, true, 0, .half⟩ : OurReader Unit).parse
        (StyledWriter.write .half ⟨[], [], [], false, true⟩ holed) .nullValue =
      readsBack ⟨.strictMode, true, 0, .half⟩ holed ∧
    (⟨.strictMode, true, 0, .half⟩ : OurReader Unit).parse
        (StyledStreamWriter.write .half [0x20] ⟨[], [], [], false, true⟩ holed) .nullValue =
      readsBack ⟨.strictMode, true, 0, .half⟩ holed :=
  parse_styledWriter (r := ⟨.strictMode, true, 0, .half⟩) scans_half prints_half blank_space _ _
    wf_holed writable_holed (by simp [holed, Value.Everywhere, Value.EveryElem, NamesOfC, ascii]; decide)
    (by decide +kernel) (by decide +kernel) (fun _ => .inr rfl) .nullValue

end LinuxDemo.Json

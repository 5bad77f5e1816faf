/-
LinuxDemo/JsonMembers.lean

Objects, and what is done to them by name.

A name is kept in a `CZString`, whose length has 30 bits; and `removeMember` of a
`std::string` goes through `c_str()`, which ends at the first NUL.  For every
other call, and every other name, an object is a finite map from byte strings to
values, over any run of calls and in all that they give back (`members_run`).
-/
import LinuxDemo.JsonArray
import LinuxDemo.Lib.CStr

namespace LinuxDemo.Json

/-- What a `CZString` keeps of a name. -/
def actualKey (key : List UInt8) : List UInt8 := key.take (key.length % 2 ^ 30)

namespace Value

variable {ρ : Type*}

/-- The map of an object; null becomes one. -/
def memberMap (message : String) : Value ρ → Except Halt (List (List UInt8 × Value ρ))
  | .nullValue => .ok []
  | .objectValue m => .ok m
  | _ => logicError message

/-- What the reference is to, and the object it is in: a null is inserted if there is nothing. -/
def resolveReference (v : Value ρ) (key : List UInt8) : Except Halt (Value ρ × Value ρ) :=
  (v.memberMap "in Json::Value::resolveReference(key, end): requires objectValue").map fun m =>
    let m := OrdMap.slot .nullValue (actualKey key) m
    ((OrdMap.find m (actualKey key)).getD .nullValue, .objectValue m)

/-- `resolveReference` with an assignment to the reference it returns. -/
def assignMember (v : Value ρ) (key : List UInt8) (value : Value ρ) : Except Halt (Value ρ) :=
  (v.memberMap "in Json::Value::resolveReference(key, end): requires objectValue").map fun m =>
    .objectValue (OrdMap.set (actualKey key) value (OrdMap.slot .nullValue (actualKey key) m))

def find (v : Value ρ) (key : List UInt8) : Except Halt (Option (Value ρ)) :=
  (v.memberMap "in Json::Value::find(key, end, found): requires objectValue or nullValue").map
    fun m => OrdMap.find m (actualKey key)

/-- What is removed, if the call returns true, and the value after. -/
def removeMember (v : Value ρ) (key : List UInt8) : Option (Value ρ) × Value ρ :=
  match v with
  | .objectValue m =>
      match OrdMap.find m (actualKey key) with
      | none => (none, v)
      | some removed => (some removed, .objectValue (OrdMap.erase (actualKey key) m))
  | _ => (none, v)

/-- `removeMember(const std::string &)`, which passes on `c_str()`. -/
def removeMemberKey (v : Value ρ) (key : List UInt8) : Except Halt (Value ρ × Value ρ) :=
  (v.memberMap "in Json::Value::removeMember(): requires objectValue").map fun _ =>
    let (removed, v') := v.removeMember (cstr key)
    (removed.getD .nullValue, v')

end Value

/-- What the interface offers; what the other calls give back is read off these. -/
inductive MemberOp (ρ : Type*) where
  | assign (key : List UInt8) (value : Value ρ)
  | resolve (key : List UInt8)
  | find (key : List UInt8)
  | removeMember (key : List UInt8)
  | removeMemberKey (key : List UInt8)
  | clear

namespace MemberOp

variable {ρ : Type*}

/-- What is given back, and the value after. -/
def apply (v : Value ρ) : MemberOp ρ → Except Halt (Option (Value ρ) × Value ρ)
  | .assign key value => (v.assignMember key value).map fun v' => (some value, v')
  | .resolve key => (v.resolveReference key).map fun r => (some r.1, r.2)
  | .find key => (v.find key).map fun found => (found, v)
  | .removeMember key => .ok (v.removeMember key)
  | .removeMemberKey key => (v.removeMemberKey key).map fun r => (some r.1, r.2)
  | .clear => v.clear.map fun v' => (none, v')

/-- What the operation is for. -/
def onMap (f : List UInt8 → Option (Value ρ)) :
    MemberOp ρ → Option (Value ρ) × (List UInt8 → Option (Value ρ))
  | .assign key value => (some value, Function.update f key (some value))
  | .resolve key =>
      let value := (f key).getD .nullValue
      (some value, Function.update f key (some value))
  | .find key => (f key, f)
  | .removeMember key => (f key, Function.update f key none)
  | .removeMemberKey key => (some ((f key).getD .nullValue), Function.update f key none)
  | .clear => (none, fun _ => none)

end MemberOp

namespace Value

variable {ρ : Type*} {v : Value ρ}

/-- The map of an object, and of null. -/
def members : Value ρ → List (List UInt8 × Value ρ)
  | .objectValue m => m
  | _ => []

/-- The finite map that an object stands for. -/
def member (v : Value ρ) (key : List UInt8) : Option (Value ρ) := OrdMap.find v.members key

/-- An object, or null, with its names in order and none longer than a `CZString` keeps. -/
structure IsMap (v : Value ρ) : Prop where
  type : v = .nullValue ∨ v.isObject = true
  sorted : OrdMap.Sorted v.members
  name : ∀ e ∈ v.members, e.1.length < 2 ^ 30

theorem actualKey_eq_iff {key : List UInt8} : actualKey key = key ↔ key.length < 2 ^ 30 := by
  constructor
  · intro h
    have hlength := congrArg List.length h
    rw [actualKey, List.length_take] at hlength
    omega
  · intro h
    rw [actualKey, Nat.mod_eq_of_lt h, List.take_length]

theorem length_actualKey (key : List UInt8) : (actualKey key).length < 2 ^ 30 := by
  rw [actualKey, List.length_take]
  omega

theorem IsMap.members_eq (h : v.IsMap) :
    v = .nullValue ∧ v.members = [] ∨ v = .objectValue v.members := by
  rcases h.type with rfl | hobject
  · exact .inl ⟨rfl, rfl⟩
  · cases v with
    | objectValue m => exact .inr rfl
    | _ => cases hobject

theorem IsMap.memberMap (h : v.IsMap) (message : String) :
    v.memberMap message = .ok v.members := by
  rcases h.members_eq with ⟨rfl, -⟩ | hobject
  · rfl
  · rw [hobject]
    rfl

/-- A long name is never there. -/
theorem IsMap.member_long (h : v.IsMap) {key : List UInt8} (hkey : ¬ key.length < 2 ^ 30) :
    v.member key = none := by
  apply OrdMap.find_eq_none_of_forall_ne
  rintro e he rfl
  exact hkey (h.name e he)

/-- What is set under a name that a `CZString` keeps. -/
theorem IsMap.set (h : v.IsMap) {key : List UInt8} (hkey : key.length < 2 ^ 30) (x : Value ρ) :
    (objectValue (OrdMap.set key x v.members)).IsMap ∧
      (objectValue (OrdMap.set key x v.members)).member =
        Function.update v.member key (some x) := by
  refine ⟨⟨.inr rfl, h.sorted.set key x, fun e he => ?_⟩, ?_⟩
  · rcases OrdMap.mem_set he with rfl | he
    · exact hkey
    · exact h.name e he
  · funext k
    by_cases hk : k = key
    · subst hk
      rw [Function.update_self]
      exact OrdMap.find_set_self _ k x
    · rw [Function.update_of_ne hk]
      exact OrdMap.find_set_ne _ x hk

theorem IsMap.erase (h : v.IsMap) (key : List UInt8) :
    (objectValue (OrdMap.erase key v.members)).IsMap ∧
      (objectValue (OrdMap.erase key v.members)).member = Function.update v.member key none := by
  refine ⟨⟨.inr rfl, h.sorted.erase key, fun e he => ?_⟩, ?_⟩
  · exact h.name e (List.mem_filter.mp he).1
  · funext k
    have hfind := OrdMap.find_erase v.members key k
    by_cases hk : k = key
    · subst hk
      rw [Function.update_self]
      exact hfind.trans (if_pos rfl)
    · rw [Function.update_of_ne hk]
      exact hfind.trans (if_neg hk)

theorem IsMap.assignMember (h : v.IsMap) (key : List UInt8) (value : Value ρ) :
    v.assignMember key value =
      .ok (.objectValue (OrdMap.set (actualKey key) value v.members)) := by
  rw [Value.assignMember, h.memberMap, Except.map, OrdMap.set_slot]

theorem IsMap.find (h : v.IsMap) (key : List UInt8) :
    v.find key = .ok (v.member (actualKey key)) := by
  rw [Value.find, h.memberMap]
  rfl

/-- A name that is looked up is there after, and is what it was or null. -/
theorem IsMap.resolveReference (h : v.IsMap) (key : List UInt8) :
    v.resolveReference key =
      .ok ((v.member (actualKey key)).getD .nullValue,
        .objectValue (OrdMap.set (actualKey key)
          ((v.member (actualKey key)).getD .nullValue) v.members)) := by
  have hslot := h.sorted.slot_eq_set .nullValue (actualKey key)
  have hfind := OrdMap.find_set_self v.members (actualKey key)
  rw [Value.resolveReference, h.memberMap, Except.map]
  simp only [hslot, hfind, Option.getD_some]
  rfl

/-- What `removeMember` gives back and leaves. -/
theorem IsMap.removeMember (h : v.IsMap) (key : List UInt8) :
    (v.removeMember key).1 = v.member (actualKey key) ∧ (v.removeMember key).2.IsMap ∧
      (v.removeMember key).2.member = Function.update v.member (actualKey key) none := by
  cases hfind : v.member (actualKey key) with
  | none =>
    have hsame : v.removeMember key = (none, v) := by
      rcases h.members_eq with ⟨rfl, -⟩ | hobject
      · rfl
      · rw [hobject] at hfind ⊢
        show (match OrdMap.find v.members (actualKey key) with
          | none => _ | some removed => _ : _ × _) = _
        rw [show OrdMap.find v.members (actualKey key) = none from hfind]
    rw [hsame]
    refine ⟨rfl, h, ?_⟩
    rw [← hfind, Function.update_eq_self]
  | some removed =>
    have herase : v.removeMember key =
        (some removed, .objectValue (OrdMap.erase (actualKey key) v.members)) := by
      rcases h.members_eq with ⟨rfl, -⟩ | hobject
      · cases hfind
      · rw [hobject] at hfind ⊢
        show (match OrdMap.find v.members (actualKey key) with
          | none => _ | some removed => _ : _ × _) = _
        rw [show OrdMap.find v.members (actualKey key) = some removed from hfind]
        rfl
    rw [herase]
    exact ⟨rfl, h.erase (actualKey key)⟩

end Value

namespace MemberOp

variable {ρ : Type*} {v : Value ρ}

/-- The name is one that a `CZString` and a C string keep, where they have to. -/
def Plain (v : Value ρ) : MemberOp ρ → Prop
  | .assign key _ => key.length < 2 ^ 30
  | .resolve key => key.length < 2 ^ 30
  | .find key => key.length < 2 ^ 30 ∨ v.member (actualKey key) = none
  | .removeMember key => key.length < 2 ^ 30 ∨ v.member (actualKey key) = none
  | .removeMemberKey key =>
      (∀ c ∈ key, c ≠ 0) ∧ key.length < 2 ^ 30 ∨
        v.member (actualKey (cstr key)) = none ∧ v.member key = none
  | .clear => True

/-- The object after the call, if it returns, and what was given back so far. -/
def step (s : Value ρ × List (Option (Value ρ))) (op : MemberOp ρ) :
    Option (Value ρ × List (Option (Value ρ))) :=
  (op.apply s.1).toOption.map fun r => (r.2, s.2 ++ [r.1])

/-- What is meant by it. -/
def spec (s : (List UInt8 → Option (Value ρ)) × List (Option (Value ρ))) (op : MemberOp ρ) :
    (List UInt8 → Option (Value ρ)) × List (Option (Value ρ)) :=
  ((op.onMap s.1).2, s.2 ++ [(op.onMap s.1).1])

/-- Removing is the same at two names exactly if they are one, or neither is there. -/
theorem update_none_eq_iff {κ α : Type*} [DecidableEq κ] {f : κ → Option α} {a b : κ} :
    Function.update f a none = Function.update f b none ↔ a = b ∨ f a = none ∧ f b = none := by
  constructor
  · intro h
    by_cases hab : a = b
    · exact .inl hab
    · have ha := congrFun h a
      have hb := congrFun h b
      rw [Function.update_self, Function.update_of_ne hab] at ha
      rw [Function.update_self, Function.update_of_ne (Ne.symm hab)] at hb
      exact .inr ⟨ha.symm, hb⟩
  · rintro (rfl | ⟨ha, hb⟩)
    · rfl
    · have hfa : Function.update f a none = f := by rw [← ha, Function.update_eq_self]
      have hfb : Function.update f b none = f := by rw [← hb, Function.update_eq_self]
      rw [hfa, hfb]

/-- What `removeMember` does is right exactly if the name is kept, or its part is not there. -/
theorem removeMember_iff (h : v.IsMap) (key : List UInt8) :
    v.member (actualKey key) = v.member key ∧
        Function.update v.member (actualKey key) none = Function.update v.member key none ↔
      key.length < 2 ^ 30 ∨ v.member (actualKey key) = none := by
  rw [update_none_eq_iff, Value.actualKey_eq_iff]
  by_cases hlength : key.length < 2 ^ 30
  · rw [Value.actualKey_eq_iff.mpr hlength]
    exact iff_of_true ⟨rfl, .inl hlength⟩ (.inl hlength)
  · simp only [h.member_long hlength, or_iff_right hlength, and_true, and_self]

theorem actualKey_cstr_eq_iff {key : List UInt8} :
    actualKey (cstr key) = key ↔ (∀ c ∈ key, c ≠ 0) ∧ key.length < 2 ^ 30 := by
  constructor
  · intro h
    have hne : ∀ c ∈ key, c ≠ 0 := fun c hc =>
      mem_cstr (List.mem_of_mem_take (h.symm ▸ hc : c ∈ actualKey (cstr key)))
    exact ⟨hne, h ▸ Value.length_actualKey _⟩
  · rintro ⟨hne, hlength⟩
    rw [cstr_unterminated hne, Value.actualKey_eq_iff.mpr hlength]

theorem removeMemberKey_iff (key : List UInt8) :
    (v.member (actualKey (cstr key))).getD .nullValue = (v.member key).getD .nullValue ∧
        Function.update v.member (actualKey (cstr key)) none =
          Function.update v.member key none ↔
      (∀ c ∈ key, c ≠ 0) ∧ key.length < 2 ^ 30 ∨
        v.member (actualKey (cstr key)) = none ∧ v.member key = none := by
  rw [update_none_eq_iff, actualKey_cstr_eq_iff]
  constructor
  · exact fun h => h.2
  · intro h
    refine ⟨?_, h⟩
    rcases h with hkept | ⟨hcut, hkey⟩
    · rw [actualKey_cstr_eq_iff.mpr hkept]
    · rw [hcut, hkey]

/-- What is set under a longer name is set under another. -/
theorem set_iff (h : v.IsMap) (key : List UInt8) (x y : Value ρ)
    (hxy : key.length < 2 ^ 30 → x = y) :
    (Value.objectValue (OrdMap.set (actualKey key) x v.members)).member =
        Function.update v.member key (some y) ↔ key.length < 2 ^ 30 := by
  rw [(h.set (Value.length_actualKey key) x).2]
  constructor
  · intro heq
    by_contra hlength
    have hne : key ≠ actualKey key := fun heq =>
      hlength (Value.actualKey_eq_iff.mp heq.symm)
    have hkey := congrFun heq key
    rw [Function.update_self, Function.update_of_ne hne, h.member_long hlength] at hkey
    cases hkey
  · intro hlength
    rw [Value.actualKey_eq_iff.mpr hlength, hxy hlength]

/-- What a call gives back and leaves is right exactly if it is plain. -/
theorem apply_iff (h : v.IsMap) (op : MemberOp ρ) :
    ∃ r v', op.apply v = .ok (r, v') ∧ v'.IsMap ∧
      (r = (op.onMap v.member).1 ∧ v'.member = (op.onMap v.member).2 ↔ op.Plain v) := by
  cases op with
  | assign key value =>
    refine ⟨some value, .objectValue (OrdMap.set (actualKey key) value v.members), ?_,
      (h.set (Value.length_actualKey key) value).1, ?_⟩
    · rw [apply, h.assignMember]
      rfl
    · exact (and_iff_right rfl).trans (set_iff h key value value fun _ => rfl)
  | resolve key =>
    refine ⟨some ((v.member (actualKey key)).getD .nullValue), _, ?_,
      (h.set (Value.length_actualKey key) ((v.member (actualKey key)).getD .nullValue)).1, ?_⟩
    · rw [apply, h.resolveReference]
      rfl
    · have hsame : key.length < 2 ^ 30 →
          (v.member (actualKey key)).getD .nullValue = (v.member key).getD .nullValue :=
        fun hlength => by rw [Value.actualKey_eq_iff.mpr hlength]
      have hset := set_iff h key _ _ hsame
      exact ⟨fun hr => hset.mp hr.2, fun hlength => ⟨congrArg some (hsame hlength), hset.mpr hlength⟩⟩
  | find key =>
    refine ⟨v.member (actualKey key), v, ?_, h, ?_⟩
    · rw [apply, h.find]
      rfl
    · refine (and_iff_left rfl).trans ?_
      show _ = v.member key ↔ key.length < 2 ^ 30 ∨ _
      by_cases hlength : key.length < 2 ^ 30
      · rw [Value.actualKey_eq_iff.mpr hlength]
        exact iff_of_true rfl (.inl hlength)
      · rw [h.member_long hlength, or_iff_right hlength]
  | removeMember key =>
    obtain ⟨hr, hmap, hmember⟩ := h.removeMember key
    refine ⟨(v.removeMember key).1, (v.removeMember key).2, rfl, hmap, ?_⟩
    rw [hr, hmember]
    exact removeMember_iff h key
  | removeMemberKey key =>
    obtain ⟨hr, hmap, hmember⟩ := h.removeMember (cstr key)
    refine ⟨some ((v.member (actualKey (cstr key))).getD .nullValue),
      (v.removeMember (cstr key)).2, ?_, hmap, ?_⟩
    · rw [apply, Value.removeMemberKey, h.memberMap, ← hr]
      rfl
    · rw [hmember]
      show some _ = some _ ∧ _ ↔ _
      rw [Option.some.injEq]
      exact removeMemberKey_iff key
  | clear =>
    have hplain (w : Value ρ) (hw : w.member = fun _ => none) :
        (none = ((clear : MemberOp ρ).onMap v.member).1 ∧
          w.member = ((clear : MemberOp ρ).onMap v.member).2 ↔ (clear : MemberOp ρ).Plain v) :=
      iff_of_true ⟨rfl, hw⟩ trivial
    rcases h.members_eq with ⟨rfl, -⟩ | hobject
    · exact ⟨none, .nullValue, rfl, h, hplain _ rfl⟩
    · refine ⟨none, .objectValue [], ?_, ⟨.inr rfl, List.Pairwise.nil, by simp [Value.members]⟩,
        hplain _ rfl⟩
      rw [hobject]
      rfl

end MemberOp

/-- **An object is a finite map, as long as its names are kept.**  All that is done to it up to
each point, and all that was given back, is what it is for a map from byte strings to values
exactly if every name was one that a `CZString` keeps, and one to remove had no NUL, or if it
made no difference. -/
theorem Value.members_run {ρ : Type*} {v : Value ρ} (h : v.IsMap) (ops : List (MemberOp ρ)) :
    (∀ before, before <+: ops → ∃ w answers, run MemberOp.step (v, []) before = some (w, answers) ∧
      (w.member, answers) = before.foldl MemberOp.spec (v.member, [])) ↔
    ∀ before op, before ++ [op] <+: ops →
      ∀ w answers, run MemberOp.step (v, []) before = some (w, answers) → op.Plain w := by
  have hgood (s : Value ρ × List (Option (Value ρ))) (op : MemberOp ρ) (hs : s.1.IsMap)
      (hop : op.Plain s.1) : ∃ s', MemberOp.step s op = some s' ∧ s'.1.IsMap ∧
        (s'.1.member, s'.2) = MemberOp.spec (s.1.member, s.2) op := by
    obtain ⟨r, v', happly, hmap, hiff⟩ := MemberOp.apply_iff hs op
    obtain ⟨hr, hmember⟩ := hiff.mpr hop
    refine ⟨(v', s.2 ++ [r]), ?_, hmap, ?_⟩
    · rw [MemberOp.step, happly]
      rfl
    · rw [MemberOp.spec, hr, hmember]
  have hbad (s : Value ρ × List (Option (Value ρ))) (op : MemberOp ρ)
      (s' : Value ρ × List (Option (Value ρ))) (hs : s.1.IsMap) (hop : ¬ op.Plain s.1)
      (hs' : MemberOp.step s op = some s') :
      (s'.1.member, s'.2) ≠ MemberOp.spec (s.1.member, s.2) op := by
    obtain ⟨r, v', happly, -, hiff⟩ := MemberOp.apply_iff hs op
    rw [MemberOp.step, happly] at hs'
    obtain rfl := Option.some.inj hs'
    intro heq
    obtain ⟨hmember, hanswers⟩ := Prod.mk.inj heq
    have hr : r = (op.onMap s.1.member).1 := by simpa using hanswers
    exact hop (hiff.mp ⟨hr, hmember⟩)
  have hrun := run_refines_iff hgood hbad (s := (v, [])) h ops
  constructor
  · intro hall before op hb w answers hw
    refine hrun.mp (fun before hbefore => ?_) before op hb (w, answers) hw
    obtain ⟨w, answers, hw, habs⟩ := hall before hbefore
    exact ⟨(w, answers), hw, habs⟩
  · intro hall before hbefore
    obtain ⟨⟨w, answers⟩, hw, habs⟩ := hrun.mpr
      (fun before op hb s hs => hall before op hb s.1 s.2 hs) before hbefore
    exact ⟨w, answers, hw, habs⟩

/-- A name with a NUL is not removed, and another is. -/
theorem Value.members_run_nul :
    let v : Value ℤ := .objectValue [([97], .booleanValue true), ([97, 0, 98], .nullValue)]
    ¬ ∀ before, before <+: [MemberOp.removeMemberKey [97, 0, 98]] → ∃ w answers,
      run MemberOp.step (v, []) before = some (w, answers) ∧
        (w.member, answers) = before.foldl MemberOp.spec (v.member, []) := by
  intro v hall
  have hmap : v.IsMap := by
    refine ⟨.inr rfl, by decide, ?_⟩
    simp [v, members]
  have hplain := (members_run hmap _).mp hall [] _ (List.prefix_refl _) v [] rfl
  rcases hplain with ⟨hne, -⟩ | ⟨hnone, -⟩
  · exact absurd rfl (hne 0 (by decide))
  · cases hnone

end LinuxDemo.Json

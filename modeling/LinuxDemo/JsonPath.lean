/-
LinuxDemo/JsonPath.lean

Paths into a value.

A path is read from its text by `makePath`: indices in brackets, and names that a
dot may stand before.  A path that is written so is read back; a NUL where an
argument would begin is a name of no bytes, which is read for ever
(`makePath_text`).  Behind the `[%` of an index that is given as an argument, the
`]` is read as a name.

`make` goes along a path and inserts what is missing, `resolve` goes along it and
gives up where something is missing.  What is assigned through `make` is what
`resolve` finds then, and what it found off the path stays (`assign_resolve`).
-/
import LinuxDemo.JsonArray
import LinuxDemo.JsonMembers
import LinuxDemo.Lib.Decimal

namespace LinuxDemo.Json

inductive PathArgument where
  | kindNone
  | kindIndex (index_ : UInt32)
  | kindKey (key_ : List UInt8)
deriving DecidableEq

namespace PathArgument

/-- `PathArgument(const std::string &)`. -/
def ofString (key : List UInt8) : PathArgument := .kindKey (cstr key)

def isIndex : PathArgument → Bool
  | .kindIndex _ => true
  | _ => false

def isKey : PathArgument → Bool
  | .kindKey _ => true
  | _ => false

end PathArgument

namespace Path

/-! ### From a text -/

/-- `itInArg` is always at the first argument: nothing moves it on. -/
def addPathInArg (kind : PathArgument → Bool) (in_ args_ : List PathArgument) :
    List PathArgument :=
  match in_.head? with
  | none => args_
  | some arg => if kind arg then args_ ++ [arg] else args_

/-- The digits of an index, and what is behind them; an `ArrayIndex` wraps. -/
def readIndex (index : UInt32) : List UInt8 → UInt32 × List UInt8
  | [] => (index, [])
  | c :: current =>
      if isDecDigit c then readIndex (index * 10 + (c - 0x30).toUInt32) current
      else (index, c :: current)

/-- `strchr("[.", c)`, which finds the NUL behind its characters too. -/
def endsName (c : UInt8) : Bool := c = 0x5B ∨ c = 0x2E ∨ c = 0

/-- The loop of `makePath`, in at most `n` rounds. -/
def makePathLoop (in_ : List PathArgument) :
    ℕ → List UInt8 → List PathArgument → Option (List PathArgument)
  | _, [], args_ => some args_
  | 0, _ :: _, _ => none
  | n + 1, c :: current, args_ =>
      if c = 0x5B then
        -- `invalidPath` does nothing, so what is taken for a ']' may be another byte
        if current.headD 0 = 0x25 then
          makePathLoop in_ n current.tail (addPathInArg PathArgument.isIndex in_ args_)
        else
          makePathLoop in_ n (readIndex 0 current).2.tail
            (args_ ++ [.kindIndex (readIndex 0 current).1])
      else if c = 0x25 then
        makePathLoop in_ n current (addPathInArg PathArgument.isKey in_ args_)
      else if c = 0x2E then makePathLoop in_ n current args_
      else
        makePathLoop in_ n ((c :: current).dropWhile fun c => !endsName c)
          (args_ ++ [.ofString ((c :: current).takeWhile fun c => !endsName c)])

/-- `args_`, if the loop ends in `n` rounds. -/
def makePath (n : ℕ) (path : List UInt8) (in_ : List PathArgument) : Option (List PathArgument) :=
  makePathLoop in_ n path []

/-- The text of a path. -/
def argText : PathArgument → List UInt8
  | .kindNone => []
  | .kindIndex index_ => 0x5B :: (decimal index_.toNat ++ [0x5D])
  | .kindKey key_ => 0x2E :: key_

/-- An index, or a name that can be written. -/
def Written : PathArgument → Prop
  | .kindNone => False
  | .kindIndex _ => True
  | .kindKey key_ => key_ ≠ [] ∧ (∀ c ∈ key_, endsName c = false) ∧ key_.head? ≠ some 0x25

theorem readIndex_append (t rest : List UInt8) (ht : t.all isDecDigit = true)
    (hrest : ∀ c ∈ rest.head?, isDecDigit c = false) (v : ℕ) :
    readIndex (UInt32.ofNat v) (t ++ rest) = (UInt32.ofNat (valueFrom v t), rest) := by
  induction t generalizing v with
  | nil =>
    cases rest with
    | nil => rfl
    | cons c rest =>
      rw [List.nil_append, readIndex, if_neg (by rw [hrest c rfl]; decide)]
      rfl
  | cons c t ih =>
    rw [List.all_cons, Bool.and_eq_true] at ht
    have hc := isDecDigit_iff.mp ht.1
    have hstep : UInt32.ofNat v * 10 + (c - 0x30).toUInt32 =
        UInt32.ofNat (v * 10 + (c.toNat - 48)) := by
      apply UInt32.toNat.inj
      have hsub : (c - 0x30).toNat = c.toNat - 48 := by
        have hle : (0x30 : UInt8) ≤ c := UInt8.le_iff_toNat_le.mpr hc.1
        rw [UInt8.toNat_sub_of_le _ _ hle]
        rfl
      rw [UInt32.toNat_add, UInt32.toNat_mul, UInt8.toNat_toUInt32, hsub]
      simp only [UInt32.toNat_ofNat']
      show (v % 2 ^ 32 * 10 % 2 ^ 32 + (c.toNat - 48)) % 2 ^ 32 = _
      omega
    rw [List.cons_append, readIndex, if_pos ht.1, hstep, ih ht.2, valueFrom_cons]

/-- The name goes up to the next argument. -/
theorem endsName_head {path : List PathArgument} (h : ∀ arg ∈ path, Written arg) :
    ∀ c ∈ (path.flatMap argText).head?, endsName c = true := by
  intro c hc
  cases path with
  | nil => cases hc
  | cons arg path =>
    cases arg with
    | kindNone => exact absurd (h _ (.head path)) id
    | kindIndex index_ =>
      obtain rfl := Option.some.inj hc
      rfl
    | kindKey key_ =>
      obtain rfl := Option.some.inj hc
      rfl

theorem takeWhile_name {key_ rest : List UInt8} (hkey : ∀ c ∈ key_, endsName c = false)
    (hrest : ∀ c ∈ rest.head?, endsName c = true) :
    ((key_ ++ rest).takeWhile fun c => !endsName c) = key_ ∧
      ((key_ ++ rest).dropWhile fun c => !endsName c) = rest := by
  have hall : ∀ c ∈ key_, (!endsName c) = true := fun c hc => by rw [hkey c hc]; rfl
  rw [List.takeWhile_append_of_pos hall, List.dropWhile_append_of_pos hall]
  cases rest with
  | nil => simp
  | cons c rest => simp [hrest c rfl]

/-- How many rounds an argument takes. -/
def rounds : PathArgument → ℕ
  | .kindKey _ => 2
  | _ => 1

/-- **One argument** is read, up to what does not go on with its name. -/
theorem makePathLoop_arg (in_ : List PathArgument) {arg : PathArgument} (h : Written arg)
    {rest : List UInt8} (hrest : ∀ c ∈ rest.head?, endsName c = true) (n : ℕ)
    (args_ : List PathArgument) :
    makePathLoop in_ (n + rounds arg) (argText arg ++ rest) args_ =
      makePathLoop in_ n rest (args_ ++ [arg]) := by
  cases arg with
  | kindNone => exact h.elim
  | kindIndex index_ =>
    have hdigits : (decimal index_.toNat).all isDecDigit = true :=
      List.all_eq_true.mpr fun _ hc => isDecDigit_of_mem_decimal hc
    have hread := readIndex_append (decimal index_.toNat) (0x5D :: rest) hdigits
      (fun c hc => by obtain rfl := Option.some.inj hc; rfl) 0
    have hzero : UInt32.ofNat 0 = 0 := rfl
    rw [valueFrom_decimal, UInt32.ofNat_toNat, hzero] at hread
    have hhead : (decimal index_.toNat ++ 0x5D :: rest).headD 0 ≠ 0x25 := by
      obtain ⟨d, ds, hd⟩ := List.exists_cons_of_ne_nil (decimal_ne_nil index_.toNat)
      rw [hd, List.cons_append, List.headD_cons]
      rintro rfl
      have hdigit := isDecDigit_of_mem_decimal (hd ▸ List.mem_cons_self : (0x25 : UInt8) ∈ _)
      cases hdigit
    have htext : argText (.kindIndex index_) ++ rest =
        0x5B :: (decimal index_.toNat ++ 0x5D :: rest) := by
      simp [argText]
    rw [htext]
    show makePathLoop in_ (n + 1) _ args_ = _
    rw [makePathLoop, if_pos rfl, if_neg hhead, hread, List.tail_cons]
  | kindKey key_ =>
    obtain ⟨hne, hname, hpercent⟩ := h
    obtain ⟨c, key, rfl⟩ := List.exists_cons_of_ne_nil hne
    have hc := hname c (.head key)
    have hbracket : c ≠ 0x5B := by
      rintro rfl
      cases hc
    have hdot : c ≠ 0x2E := by
      rintro rfl
      cases hc
    have hc25 : c ≠ 0x25 := by
      rintro rfl
      exact hpercent rfl
    obtain ⟨htake, hdrop⟩ := takeWhile_name hname hrest
    have hcstr : cstr (c :: key) = c :: key := cstr_unterminated fun x hx => by
      rintro rfl
      cases hname 0 hx
    -- the dot, and then the name
    show makePathLoop in_ (n + 2) (0x2E :: (c :: key ++ rest)) args_ = _
    rw [makePathLoop, if_neg (by decide), if_neg (by decide), if_pos rfl, List.cons_append,
      makePathLoop, if_neg hbracket, if_neg hc25, if_neg hdot, ← List.cons_append, htake, hdrop,
      PathArgument.ofString, hcstr]

/-- **A text of arguments** is read one after the other. -/
theorem makePathLoop_text (in_ : List PathArgument) {path : List PathArgument}
    (h : ∀ arg ∈ path, Written arg) (rest : List UInt8)
    (hrest : ∀ c ∈ rest.head?, endsName c = true) (n : ℕ) (args_ : List PathArgument) :
    makePathLoop in_ (n + (path.map rounds).sum) (path.flatMap argText ++ rest) args_ =
      makePathLoop in_ n rest (args_ ++ path) := by
  induction path generalizing args_ with
  | nil => rw [List.append_nil]; rfl
  | cons arg path ih =>
    have hpath : ∀ arg ∈ path, Written arg := fun a ha => h a (.tail arg ha)
    have hhead : ∀ c ∈ (path.flatMap argText ++ rest).head?, endsName c = true := by
      cases path with
      | nil => exact hrest
      | cons arg' path =>
        intro c hc
        apply endsName_head hpath c
        cases arg' with
        | kindNone => exact (hpath _ (.head path)).elim
        | kindIndex => exact hc
        | kindKey => exact hc
    rw [List.flatMap_cons, List.append_assoc, List.map_cons, List.sum_cons,
      Nat.add_comm (rounds arg), ← Nat.add_assoc, makePathLoop_arg in_ (h arg (.head path)) hhead,
      ih hpath, List.append_assoc]
    rfl

/-- More rounds do not change what is read. -/
theorem makePathLoop_mono (in_ : List PathArgument) {n : ℕ} {current : List UInt8}
    {args_ res : List PathArgument} (h : makePathLoop in_ n current args_ = some res) (k : ℕ) :
    makePathLoop in_ (n + k) current args_ = some res := by
  induction n generalizing current args_ with
  | zero =>
    cases current with
    | nil =>
      rw [makePathLoop] at h ⊢
      exact h
    | cons c current => cases h
  | succ n ih =>
    cases current with
    | nil =>
      rw [makePathLoop] at h ⊢
      exact h
    | cons c current =>
      rw [Nat.add_right_comm, makePathLoop]
      rw [makePathLoop] at h
      split_ifs at h ⊢
      all_goals exact ih h

/-- A NUL where an argument would begin is a name of no bytes, which is read again and again. -/
theorem makePathLoop_nul (in_ : List PathArgument) (n : ℕ) (rest : List UInt8)
    (args_ : List PathArgument) : makePathLoop in_ n (0 :: rest) args_ = none := by
  induction n generalizing args_ with
  | zero => rfl
  | succ n ih =>
    have hdrop : ((0 : UInt8) :: rest).dropWhile (fun c => !endsName c) = 0 :: rest := rfl
    rw [makePathLoop, if_neg (by decide), if_neg (by decide), if_neg (by decide), hdrop]
    exact ih _

/-- **A path is read back from its text**, and with a NUL behind the text it is never read. -/
theorem makePath_text (in_ : List PathArgument) {path : List PathArgument}
    (h : ∀ arg ∈ path, Written arg) :
    (∃ n, makePath n (path.flatMap argText) in_ = some path) ∧
      ∀ n rest, makePath n (path.flatMap argText ++ 0 :: rest) in_ = none := by
  constructor
  · refine ⟨0 + (path.map rounds).sum, ?_⟩
    have htext := makePathLoop_text in_ h [] (fun _ hc => by cases hc) 0 []
    rw [List.append_nil] at htext
    rw [makePath, htext, makePathLoop, List.nil_append]
  · intro n rest
    have htext := makePathLoop_text in_ h (0 :: rest)
      (fun c hc => by obtain rfl := Option.some.inj hc; rfl) n []
    rw [makePathLoop_nul] at htext
    cases hres : makePath n (path.flatMap argText ++ 0 :: rest) in_ with
    | none => rfl
    | some res =>
      -- with more rounds it would read the arguments, and then the NUL
      have hmore := makePathLoop_mono in_ hres (path.map rounds).sum
      rw [htext] at hmore
      cases hmore

/-- A '%' that does not begin a name is part of it. -/
theorem makePath_text_mixed :
    ∃ n, makePath n (ascii "[2].a%[10]") [.kindIndex 7] =
      some [.kindIndex 2, .kindKey (ascii "a%"), .kindIndex 10] := by
  have hname : (ascii "a%").all (fun c => !endsName c) = true := rfl
  have h : ∀ arg ∈ [PathArgument.kindIndex 2, .kindKey (ascii "a%"), .kindIndex 10],
      Written arg := by
    intro arg harg
    simp only [List.mem_cons, List.not_mem_nil, or_false] at harg
    rcases harg with rfl | rfl | rfl
    · trivial
    · exact ⟨by decide, fun c hc => by simpa using List.all_eq_true.mp hname c hc, by decide⟩
    · trivial
  exact (makePath_text [.kindIndex 7] h).1

/-! ### In a value -/

variable {ρ : Type*}

def resolve (defaultValue : Value ρ) : List PathArgument → Value ρ → Value ρ
  | [], node => node
  | .kindNone :: args_, node => resolve defaultValue args_ node
  | .kindIndex index_ :: args_, node =>
      if !node.isArray || !decide (index_.toNat < node.size) then defaultValue
      else resolve defaultValue args_ (Value.elem node.elements index_.toNat)
  | .kindKey key_ :: args_, node =>
      if !node.isObject then defaultValue
      else
        match node.find key_ with
        | .ok (some child) => resolve defaultValue args_ child
        | _ => defaultValue

/-- `make`, with an assignment to the reference it returns. -/
def assign : List PathArgument → Value ρ → Value ρ → Except Halt (Value ρ)
  | [], _, value => .ok value
  | .kindNone :: args_, node, value => assign args_ node value
  | .kindIndex index_ :: args_, node, value =>
      (node.arrayMap "in Json::Value::operator[](ArrayIndex): requires arrayValue").bind fun m =>
        (assign args_ (Value.elem m index_.toNat) value).bind fun child =>
          node.assign index_.toNat child
  | .kindKey key_ :: args_, node, value =>
      (node.resolveReference key_).bind fun ref =>
        (assign args_ ref.1 value).bind fun child => ref.2.assignMember key_ child

/-- What is on the way is missing, or is of the kind that is asked for. -/
def Typed : List PathArgument → Value ρ → Prop
  | [], _ => True
  | .kindNone :: args_, node => Typed args_ node
  | .kindIndex index_ :: args_, node =>
      (node = .nullValue ∨ node.isArray = true) ∧
        Typed args_ (Value.elem node.elements index_.toNat)
  | .kindKey key_ :: args_, node =>
      (node = .nullValue ∨ node.isObject = true) ∧
        Typed args_ ((node.member (actualKey key_)).getD .nullValue)

/-- The same, of maps in order; no index is the largest. -/
def Fits : List PathArgument → Value ρ → Prop
  | [], _ => True
  | .kindNone :: args_, node => Fits args_ node
  | .kindIndex index_ :: args_, node =>
      index_.toNat < 2 ^ 32 - 1 ∧ node.IsList ∧
        Fits args_ (Value.elem node.elements index_.toNat)
  | .kindKey key_ :: args_, node =>
      node.IsMap ∧ Fits args_ ((node.member (actualKey key_)).getD .nullValue)

/-- The two go to different places, neither of them inside the other. -/
def Apart : List PathArgument → List PathArgument → Prop
  | .kindIndex i :: p, .kindIndex j :: q => i ≠ j ∨ Apart p q
  | .kindKey k :: p, .kindKey l :: q => actualKey k ≠ actualKey l ∨ Apart p q
  | _, _ => False

/-- The default is not asked for. -/
def Found (path : List PathArgument) (root : Value ρ) : Prop :=
  ∀ d d' : Value ρ, resolve d path root = resolve d' path root

/-- What is the default for every default is not found. -/
theorem not_found {path : List PathArgument} {root : Value ρ}
    (h : ∀ d, resolve d path root = d) : ¬ Found path root := by
  intro hfound
  have heq := hfound .nullValue (.booleanValue true)
  rw [h, h] at heq
  cases heq

theorem resolve_index {m : List (ℕ × Value ρ)} (hm : (Value.arrayValue m).IsList) (d : Value ρ)
    (i : UInt32) (path : List PathArgument) :
    resolve d (.kindIndex i :: path) (.arrayValue m) =
      if i.toNat < Sparse.high m then resolve d path (Value.elem m i.toNat) else d := by
  have hsize : (Value.arrayValue m).size = Sparse.high m := hm.size_eq
  rw [resolve, hsize]
  by_cases hlt : i.toNat < Sparse.high m
  · simp [hlt, Value.isArray, Value.elements]
  · simp [hlt, Value.isArray]

theorem resolve_key {m : List (List UInt8 × Value ρ)} (d : Value ρ) (key : List UInt8)
    (path : List PathArgument) :
    resolve d (.kindKey key :: path) (.objectValue m) =
      (OrdMap.find m (actualKey key)).elim d (resolve d path) := by
  rw [resolve]
  have hfind : (Value.objectValue m).find key = .ok (OrdMap.find m (actualKey key)) := rfl
  rw [hfind]
  cases OrdMap.find m (actualKey key) <;> simp [Value.isObject]

/-- What is found by an index is found in the entry. -/
theorem Found.index {root : Value ρ} (hroot : root.IsList) {i : UInt32} {path : List PathArgument}
    (h : Found (.kindIndex i :: path) root) :
    i.toNat < Sparse.high root.elements ∧ Found path (Value.elem root.elements i.toNat) ∧
      ∀ d, resolve d (.kindIndex i :: path) root =
        resolve d path (Value.elem root.elements i.toNat) := by
  rcases hroot.elements_eq with ⟨rfl, -⟩ | harray
  · exact absurd h (not_found fun d => rfl)
  · have hresolve := fun d => resolve_index (harray ▸ hroot) d i path
    rw [← harray] at hresolve
    by_cases hlt : i.toNat < Sparse.high root.elements
    · simp only [if_pos hlt] at hresolve
      refine ⟨hlt, fun d d' => ?_, hresolve⟩
      rw [← hresolve, ← hresolve]
      exact h d d'
    · simp only [if_neg hlt] at hresolve
      exact absurd h (not_found hresolve)

/-- What is found by a name is found in the member. -/
theorem Found.key {root : Value ρ} (hroot : root.IsMap) {key : List UInt8}
    {path : List PathArgument} (h : Found (.kindKey key :: path) root) :
    ∃ child, root.member (actualKey key) = some child ∧ Found path child ∧
      ∀ d, resolve d (.kindKey key :: path) root = resolve d path child := by
  rcases hroot.members_eq with ⟨rfl, -⟩ | hobject
  · exact absurd h (not_found fun d => rfl)
  · have hresolve : ∀ d, resolve d (.kindKey key :: path) root =
        (root.member (actualKey key)).elim d (resolve d path) := fun d => by
      have heq := resolve_key (m := root.members) d key path
      rw [← hobject] at heq
      exact heq
    cases hmember : root.member (actualKey key) with
    | none =>
      rw [hmember] at hresolve
      exact absurd h (not_found hresolve)
    | some child =>
      rw [hmember] at hresolve
      refine ⟨child, rfl, fun d d' => ?_, hresolve⟩
      have heq := h d d'
      rw [hresolve, hresolve] at heq
      exact heq

theorem bind_isOk {ε α β : Type*} {x : Except ε α} {f : α → Except ε β} :
    (∃ b, x.bind f = .ok b) ↔ ∃ a, x = .ok a ∧ ∃ b, f a = .ok b := by
  cases x with
  | error e =>
    constructor
    · rintro ⟨b, hb⟩
      cases hb
    · rintro ⟨a, ha, -⟩
      cases ha
  | ok a =>
    constructor
    · exact fun hb => ⟨a, rfl, hb⟩
    · rintro ⟨a', ha, hb⟩
      cases ha
      exact hb

theorem arrayMap_eq_ok {node : Value ρ} (message : String) {m : List (ℕ × Value ρ)} :
    node.arrayMap message = .ok m ↔
      (node = .nullValue ∨ node.isArray = true) ∧ node.elements = m := by
  cases node <;> simp [Value.arrayMap, logicError, Value.isArray, Value.elements]

theorem memberMap_eq_ok {node : Value ρ} (message : String)
    {m : List (List UInt8 × Value ρ)} :
    node.memberMap message = .ok m ↔
      (node = .nullValue ∨ node.isObject = true) ∧ node.members = m := by
  cases node <;> simp [Value.memberMap, logicError, Value.isObject, Value.members]

theorem resolveReference_eq_ok {node : Value ρ} {key : List UInt8} {ref : Value ρ × Value ρ} :
    node.resolveReference key = .ok ref ↔
      (node = .nullValue ∨ node.isObject = true) ∧
        ((node.member (actualKey key)).getD .nullValue,
          Value.objectValue (OrdMap.slot .nullValue (actualKey key) node.members)) = ref := by
  have hfind := OrdMap.find_slot node.members .nullValue (actualKey key) (actualKey key)
  rw [if_pos rfl] at hfind
  rw [Value.resolveReference]
  cases hmap : node.memberMap
      "in Json::Value::resolveReference(key, end): requires objectValue" with
  | error e =>
    refine iff_of_false (by simp [Except.map]) fun h => ?_
    rw [(memberMap_eq_ok _).mpr ⟨h.1, rfl⟩] at hmap
    cases hmap
  | ok m =>
    obtain ⟨htype, rfl⟩ := (memberMap_eq_ok _).mp hmap
    simp only [Except.map, hfind, Option.getD_some, Except.ok.injEq, htype, true_and]
    rfl

/-- **Assigning through a path** goes on exactly as long as what is on the way is missing or of the
kind that is asked for. -/
theorem assign_isOk {path : List PathArgument} {root value : Value ρ} :
    (∃ root', assign path root value = .ok root') ↔ Typed path root := by
  induction path generalizing root with
  | nil => exact iff_of_true ⟨value, rfl⟩ trivial
  | cons arg path ih =>
    cases arg with
    | kindNone => exact ih
    | kindIndex i =>
      rw [assign, bind_isOk]
      constructor
      · rintro ⟨m, hm, hrest⟩
        obtain ⟨htype, rfl⟩ := (arrayMap_eq_ok _).mp hm
        obtain ⟨child, hchild, -⟩ := bind_isOk.mp hrest
        exact ⟨htype, ih.mp ⟨child, hchild⟩⟩
      · rintro ⟨htype, htyped⟩
        obtain ⟨child, hchild⟩ := ih.mpr htyped
        have hmap := fun message => (arrayMap_eq_ok message).mpr ⟨htype, rfl⟩
        refine ⟨root.elements, hmap _, bind_isOk.mpr ⟨child, hchild, ?_⟩⟩
        rw [Value.assign, hmap]
        exact ⟨_, rfl⟩
    | kindKey key =>
      rw [assign, bind_isOk]
      constructor
      · rintro ⟨ref, href, hrest⟩
        obtain ⟨htype, rfl⟩ := resolveReference_eq_ok.mp href
        obtain ⟨child, hchild, -⟩ := bind_isOk.mp hrest
        exact ⟨htype, ih.mp ⟨child, hchild⟩⟩
      · rintro ⟨htype, htyped⟩
        obtain ⟨child, hchild⟩ := ih.mpr htyped
        exact ⟨_, resolveReference_eq_ok.mpr ⟨htype, rfl⟩, bind_isOk.mpr ⟨child, hchild, _, rfl⟩⟩

/-- What is assigned is found then, and what was found apart from the path is found as before. -/
theorem Fits.assigned {path : List PathArgument} {root : Value ρ} (h : Fits path root)
    (value : Value ρ) :
    ∃ root', assign path root value = .ok root' ∧ (∀ d, resolve d path root' = value) ∧
      ∀ path', Apart path path' → Found path' root →
        ∀ d, resolve d path' root' = resolve d path' root := by
  induction path generalizing root with
  | nil => exact ⟨value, rfl, fun _ => rfl, fun _ hapart => hapart.elim⟩
  | cons arg path ih =>
    cases arg with
    | kindNone =>
      obtain ⟨root', hassign, hresolve, -⟩ := ih h
      exact ⟨root', hassign, hresolve, fun path' hapart => hapart.elim⟩
    | kindIndex i =>
      obtain ⟨hi, hlist, hfits⟩ := h
      obtain ⟨child, hassign, hresolve, hframe⟩ := ih hfits
      have hindex := hlist.index
      have hhigh := Sparse.high_set hlist.sorted i.toNat child
      have hset : (Value.arrayValue (OrdMap.set i.toNat child root.elements)).IsList :=
        Value.isList_arrayValue (hlist.sorted.set _ _) (by omega)
      have helem (j : ℕ) : Value.elem (OrdMap.set i.toNat child root.elements) j =
          if j = i.toNat then child else Value.elem root.elements j := Sparse.get_set _ _ _ _
      -- the array is at least as large as before, and holds the index
      refine ⟨.arrayValue (OrdMap.set i.toNat child root.elements), ?_, fun d => ?_, ?_⟩
      · rw [assign, hlist.arrayMap]
        show ((assign path (Value.elem root.elements i.toNat) value).bind _) = _
        rw [hassign]
        exact hlist.assign i.toNat child
      · rw [resolve_index hset, if_pos (by omega), helem, if_pos rfl]
        exact hresolve d
      · intro path' hapart hfound d
        cases path' with
        | nil => exact hapart.elim
        | cons arg' path' =>
          cases arg' with
          | kindNone => exact hapart.elim
          | kindKey key => exact hapart.elim
          | kindIndex j =>
            obtain ⟨hj, hfoundj, hresolvej⟩ := hfound.index hlist
            rw [hresolvej, resolve_index hset, if_pos (by omega), helem]
            by_cases hji : j.toNat = i.toNat
            · -- the same entry, so the two part further on
              obtain rfl := UInt32.toNat.inj hji
              rw [if_pos rfl]
              exact hframe path' (hapart.resolve_left fun hne => hne rfl) hfoundj d
            · rw [if_neg hji]
    | kindKey key =>
      obtain ⟨hmap, hfits⟩ := h
      obtain ⟨child, hassign, hresolve, hframe⟩ := ih hfits
      refine ⟨.objectValue (OrdMap.set (actualKey key) child root.members), ?_, fun d => ?_, ?_⟩
      · rw [assign, hmap.resolveReference]
        show ((assign path _ value).bind _) = _
        rw [hassign]
        show Except.ok (Value.objectValue (OrdMap.set _ child (OrdMap.slot _ _ _))) = _
        rw [OrdMap.set_slot, OrdMap.set_set]
      · rw [resolve_key, OrdMap.find_set_self]
        exact hresolve d
      · intro path' hapart hfound d
        cases path' with
        | nil => exact hapart.elim
        | cons arg' path' =>
          cases arg' with
          | kindNone => exact hapart.elim
          | kindIndex j => exact hapart.elim
          | kindKey key' =>
            obtain ⟨x, hx, hfoundx, hresolvex⟩ := hfound.key hmap
            rw [hresolvex, resolve_key]
            by_cases hkey : actualKey key' = actualKey key
            · -- the same member, which was there
              rw [hkey] at hx ⊢
              rw [hx, Option.getD_some] at hframe
              rw [OrdMap.find_set_self]
              exact hframe path' (hapart.resolve_left fun hne => hne hkey.symm) hfoundx d
            · have hsame := OrdMap.find_set_ne root.members child hkey
              rw [hsame, show OrdMap.find root.members (actualKey key') = some x from hx]
              rfl

/-- **Assigning through a path** succeeds exactly as long as what is on the way is missing or of the
kind that is asked for.  What is assigned is what is found then, and what was found apart from the
path is found as before. -/
theorem assign_resolve (path : List PathArgument) (root value : Value ρ) :
    ((∃ root', assign path root value = .ok root') ↔ Typed path root) ∧
      (Fits path root → ∀ root', assign path root value = .ok root' →
        (∀ d, resolve d path root' = value) ∧
          ∀ path', Apart path path' → Found path' root →
            ∀ d, resolve d path' root' = resolve d path' root) := by
  refine ⟨assign_isOk, fun hfits root' h => ?_⟩
  obtain ⟨res, hassign, hres⟩ := hfits.assigned value
  obtain rfl := Except.ok.inj (hassign.symm.trans h)
  exact hres

/-- What is missing is inserted, and another member stays. -/
theorem assign_resolve_missing :
    ∃ root' : Value ℤ,
      assign [.kindKey (ascii "a"), .kindIndex 1] (.objectValue [(ascii "b", .intValue 5)])
          (.booleanValue true) = .ok root' ∧
        resolve .nullValue [.kindKey (ascii "a"), .kindIndex 1] root' = .booleanValue true ∧
        resolve .nullValue [.kindKey (ascii "b")] root' = .intValue 5 := by
  have hmap : (Value.objectValue [(ascii "b", .intValue 5)] : Value ℤ).IsMap := by
    refine ⟨.inr rfl, by decide, fun e he => ?_⟩
    rw [List.mem_singleton.mp he]
    decide
  have hfits : Fits [.kindKey (ascii "a"), .kindIndex 1]
      (.objectValue [(ascii "b", .intValue 5)] : Value ℤ) :=
    ⟨hmap, by decide, ⟨.inl rfl, by decide, by decide⟩, trivial⟩
  have hmissing : Typed [.kindKey (ascii "a"), .kindIndex 1]
      (.objectValue [(ascii "b", .intValue 5)] : Value ℤ) := ⟨.inr rfl, .inl rfl, trivial⟩
  obtain ⟨hok, hspec⟩ := assign_resolve [.kindKey (ascii "a"), .kindIndex 1]
    (.objectValue [(ascii "b", .intValue 5)] : Value ℤ) (.booleanValue true)
  obtain ⟨root', hassign⟩ := hok.mpr hmissing
  obtain ⟨hresolve, hframe⟩ := hspec hfits root' hassign
  refine ⟨root', hassign, hresolve _, ?_⟩
  exact hframe [.kindKey (ascii "b")] (.inl (by decide)) (fun _ _ => rfl) .nullValue

end Path

end LinuxDemo.Json

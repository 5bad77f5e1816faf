/-
LinuxDemo/Lib/JsonGrammar.lean

The grammar of JSON texts, over bytes.

`Derives node text` says that `text` is a text of `node`, a value or the
elements of an array or the members of an object.  A string is what its escapes
stand for, in UTF-8; a byte from 0x20 on that needs no escape stands for itself,
so the texts are a few more than those in valid UTF-8, and the escapes of
unpaired surrogates are not among them.  A number is its text.  The members of
an object are in the order of the text, names and all.

No reader is in sight here: a reader of JSON is right about a text if it
finds the tree that the text is derived from.
-/
import LinuxDemo.Lib.CStr
import LinuxDemo.Lib.Decimal

namespace LinuxDemo.JsonGrammar

abbrev Text := List UInt8

/-! ### Tokens -/

def Blank (t : Text) : Prop := ∀ c ∈ t, c = 0x20 ∨ c = 0x09 ∨ c = 0x0D ∨ c = 0x0A

/-- The value of one digit. -/
def digitValue (c : UInt8) : Option ℕ :=
  if 48 ≤ c.toNat ∧ c.toNat ≤ 57 then some (c.toNat - 48)
  else if 65 ≤ c.toNat ∧ c.toNat ≤ 70 then some (c.toNat - 55)
  else if 97 ≤ c.toNat ∧ c.toNat ≤ 102 then some (c.toNat - 87)
  else none

/-- What the digits make of the value before them. -/
def hexFrom (v : ℕ) : Text → Option ℕ
  | [] => some v
  | c :: t => (digitValue c).bind fun d => hexFrom (v * 16 + d) t

/-- The four digits of an escape. -/
def HexText (n : ℕ) (t : Text) : Prop := t.length = 4 ∧ hexFrom 0 t = some n

/-- The letter of an escape and what it stands for. -/
def shortEscapes : List (UInt8 × UInt8) :=
  [(0x22, 0x22), (0x5C, 0x5C), (0x2F, 0x2F), (0x62, 0x08), (0x66, 0x0C), (0x6E, 0x0A),
    (0x72, 0x0D), (0x74, 0x09)]

/-- The text of one character of a string, and the character.  The escape of one half of a
surrogate pair without the other stands for no character and is left out, though the grammar
of JSON has it. -/
inductive CharText : Text → Text → Prop
  | plain {b : UInt8} (hcontrol : 0x20 ≤ b) (hquote : b ≠ 0x22) (hescape : b ≠ 0x5C) :
      CharText [b] [b]
  | short {e b : UInt8} (h : (e, b) ∈ shortEscapes) : CharText [0x5C, e] [b]
  | unicode {c : Char} {ds : Text} (h : HexText c.toNat ds) :
      CharText (0x5C :: 0x75 :: ds) (String.utf8EncodeChar c)
  | pair {c : Char} {ds ds' : Text} (hc : 0x10000 ≤ c.toNat)
      (h : HexText (0xD800 + (c.toNat - 0x10000) / 0x400) ds)
      (h' : HexText (0xDC00 + (c.toNat - 0x10000) % 0x400) ds') :
      CharText (0x5C :: 0x75 :: (ds ++ 0x5C :: 0x75 :: ds')) (String.utf8EncodeChar c)

/-- The text between the quotes of a string. -/
inductive CharsText : Text → Text → Prop
  | nil : CharsText [] []
  | cons {t s t' s' : Text} (h : CharText t s) (h' : CharsText t' s') :
      CharsText (t ++ t') (s ++ s')

/-- A string with its quotes. -/
def Quoted (s q : Text) : Prop := ∃ t, CharsText t s ∧ q = 0x22 :: (t ++ [0x22])

def Digits (t : Text) : Prop := ∀ c ∈ t, isDecDigit c

/-- No leading zeros. -/
def IntText (t : Text) : Prop :=
  t = [0x30] ∨ ∃ d ds, t = d :: ds ∧ isDecDigit d ∧ d ≠ 0x30 ∧ Digits ds

def FracText (t : Text) : Prop := t = [] ∨ ∃ ds, t = 0x2E :: ds ∧ ds ≠ [] ∧ Digits ds

def ExpText (t : Text) : Prop :=
  t = [] ∨ ∃ e sign ds, t = e :: (sign ++ ds) ∧ (e = 0x65 ∨ e = 0x45) ∧
    (sign = [] ∨ sign = [0x2B] ∨ sign = [0x2D]) ∧ ds ≠ [] ∧ Digits ds

/-- A number: an integer, a fraction and an exponent. -/
inductive NumberText : Text → Prop
  | mk {sign int frac exp : Text} (hsign : sign = [] ∨ sign = [0x2D]) (hint : IntText int)
      (hfrac : FracText frac) (hexp : ExpText exp) : NumberText (sign ++ (int ++ (frac ++ exp)))

/-! ### Values -/

inductive Tree where
  | null
  | bool (b : Bool)
  | number (t : Text)
  | string (s : Text)
  | array (vs : List Tree)
  | object (ms : List (Text × Tree))

inductive Node where
  | value (v : Tree)
  | around (v : Tree)
  | elements (vs : List Tree)
  | members (ms : List (Text × Tree))

/-- A text of a value, of a value between blanks, and of what stands between the
brackets of a container that is not empty. -/
inductive Derives : Node → Text → Prop
  | null : Derives (.value .null) (ascii "null")
  | bool (b : Bool) :
      Derives (.value (.bool b)) (if b then ascii "true" else ascii "false")
  | number {t : Text} (h : NumberText t) : Derives (.value (.number t)) t
  | string {s q : Text} (h : Quoted s q) : Derives (.value (.string s)) q
  | emptyArray {b : Text} (hb : Blank b) : Derives (.value (.array [])) (0x5B :: (b ++ [0x5D]))
  | array {vs : List Tree} {t : Text} (h : Derives (.elements vs) t) :
      Derives (.value (.array vs)) (0x5B :: (t ++ [0x5D]))
  | emptyObject {b : Text} (hb : Blank b) : Derives (.value (.object [])) (0x7B :: (b ++ [0x7D]))
  | object {ms : List (Text × Tree)} {t : Text} (h : Derives (.members ms) t) :
      Derives (.value (.object ms)) (0x7B :: (t ++ [0x7D]))
  | around {b t b' : Text} {v : Tree} (hb : Blank b) (h : Derives (.value v) t) (hb' : Blank b') :
      Derives (.around v) (b ++ (t ++ b'))
  | element {v : Tree} {t : Text} (h : Derives (.around v) t) : Derives (.elements [v]) t
  | elements {v : Tree} {vs : List Tree} {t t' : Text} (h : Derives (.around v) t)
      (h' : Derives (.elements vs) t') : Derives (.elements (v :: vs)) (t ++ 0x2C :: t')
  | member {s q b b' t : Text} {v : Tree} (hb : Blank b) (hq : Quoted s q) (hb' : Blank b')
      (h : Derives (.around v) t) :
      Derives (.members [(s, v)]) (b ++ (q ++ (b' ++ 0x3A :: t)))
  | members {s q b b' t t' : Text} {v : Tree} {ms : List (Text × Tree)} (hb : Blank b)
      (hq : Quoted s q) (hb' : Blank b') (h : Derives (.around v) t)
      (h' : Derives (.members ms) t') :
      Derives (.members ((s, v) :: ms)) (b ++ (q ++ (b' ++ 0x3A :: (t ++ 0x2C :: t'))))

namespace Tree

mutual

/-- How deep the containers are nested, with the value itself. -/
def depth : Tree → ℕ
  | .array vs => depthElems vs + 1
  | .object ms => depthMembers ms + 1
  | _ => 1

def depthElems : List Tree → ℕ
  | [] => 0
  | v :: vs => max (depth v) (depthElems vs)

def depthMembers : List (Text × Tree) → ℕ
  | [] => 0
  | (_, v) :: ms => max (depth v) (depthMembers ms)

end

theorem depthElems_eq (vs : List Tree) : depthElems vs = (vs.map depth).foldr max 0 := by
  induction vs with
  | nil => rfl
  | cons v vs ih => rw [depthElems, ih]; rfl

theorem depthMembers_eq (ms : List (Text × Tree)) :
    depthMembers ms = (ms.map fun e => depth e.2).foldr max 0 := by
  induction ms with
  | nil => rfl
  | cons e ms ih => rw [depthMembers, ih]; rfl

/-- No object has two members of one name. -/
inductive Distinct : Tree → Prop
  | null : Distinct .null
  | bool (b : Bool) : Distinct (.bool b)
  | number (t : Text) : Distinct (.number t)
  | string (s : Text) : Distinct (.string s)
  | array {vs : List Tree} (h : ∀ v ∈ vs, Distinct v) : Distinct (.array vs)
  | object {ms : List (Text × Tree)} (hnames : (ms.map Prod.fst).Nodup)
      (h : ∀ e ∈ ms, Distinct e.2) : Distinct (.object ms)

def IsContainer : Tree → Prop
  | .array _ => True
  | .object _ => True
  | _ => False

instance : DecidablePred IsContainer
  | .array _ => .isTrue trivial
  | .object _ => .isTrue trivial
  | .null => .isFalse id
  | .bool _ => .isFalse id
  | .number _ => .isFalse id
  | .string _ => .isFalse id

end Tree

/-! ### Hexadecimal digits -/

theorem digitValue_lt {c : UInt8} {d : ℕ} (h : digitValue c = some d) : d < 16 := by
  rw [digitValue] at h
  split at h
  · obtain rfl := Option.some.inj h
    omega
  · split at h
    · obtain rfl := Option.some.inj h
      omega
    · split at h
      · obtain rfl := Option.some.inj h
        omega
      · cases h

theorem hexFrom_lt {v n : ℕ} {t : Text} (h : hexFrom v t = some n) :
    n < (v + 1) * 16 ^ t.length := by
  induction t generalizing v with
  | nil =>
    obtain rfl := Option.some.inj h
    simp
  | cons c t ih =>
    obtain ⟨d, hd, h⟩ := Option.bind_eq_some_iff.mp h
    have hd16 := digitValue_lt hd
    calc n < (v * 16 + d + 1) * 16 ^ t.length := ih h
      _ ≤ ((v + 1) * 16) * 16 ^ t.length := Nat.mul_le_mul_right _ (by omega)
      _ = (v + 1) * 16 ^ (t.length + 1) := by rw [Nat.pow_succ', Nat.mul_assoc]

/-- Four digits are less than 0x10000. -/
theorem HexText.lt {n : ℕ} {t : Text} (h : HexText n t) : n < 0x10000 := by
  have hlt := hexFrom_lt h.2
  rwa [h.1] at hlt

/-! ### How texts begin -/

theorem Blank.append {t t' : Text} (h : Blank t) (h' : Blank t') : Blank (t ++ t') :=
  List.forall_mem_append.mpr ⟨h, h'⟩

/-- What a number may go on with. -/
def Stops (rest : Text) : Prop :=
  ∀ c ∈ rest.head?, isDecDigit c = false ∧ c ≠ 0x2E ∧ c ≠ 0x65 ∧ c ≠ 0x45

theorem stops_nil : Stops [] := nofun

theorem Blank.stops {b rest : Text} (hb : Blank b) (h : Stops rest) : Stops (b ++ rest) := by
  cases b with
  | nil => exact h
  | cons c b =>
    intro c' hc'
    obtain rfl := Option.some.inj hc'
    rcases hb c List.mem_cons_self with rfl | rfl | rfl | rfl <;> decide

theorem Stops.not_digit {rest : Text} (h : Stops rest) :
    ∀ c ∈ rest.head?, isDecDigit c = false := fun c hc => (h c hc).1

theorem ExpText.not_digit {exp rest : Text} (hexp : ExpText exp) (hrest : Stops rest) :
    ∀ c ∈ (exp ++ rest).head?, isDecDigit c = false ∧ c ≠ 0x2E := by
  rcases hexp with rfl | ⟨e, sign, ds, rfl, rfl | rfl, -, -, -⟩
  · exact fun c hc => ⟨(hrest c hc).1, (hrest c hc).2.1⟩
  · exact fun c hc => by cases hc; exact ⟨rfl, by decide⟩
  · exact fun c hc => by cases hc; exact ⟨rfl, by decide⟩

theorem Digits.cons {t : Text} (h : Digits t) {d : UInt8} (hd : isDecDigit d) : Digits (d :: t) := by
  intro c hc
  rcases List.mem_cons.mp hc with rfl | hc
  · exact hd
  · exact h c hc

theorem IntText.cons {t : Text} (h : IntText t) :
    ∃ d ds, t = d :: ds ∧ isDecDigit d ∧ Digits ds := by
  rcases h with rfl | ⟨d, ds, rfl, hd, -, hds⟩
  · exact ⟨_, [], rfl, rfl, nofun⟩
  · exact ⟨d, ds, rfl, hd, hds⟩

theorem NumberText.head {t : Text} (h : NumberText t) :
    ∃ c t', t = c :: t' ∧ (c = 0x2D ∨ isDecDigit c) := by
  obtain ⟨hsign, hint, -, -⟩ := h
  rcases hsign with rfl | rfl
  · obtain ⟨c, t', rfl, hc, -⟩ := hint.cons
    exact ⟨c, _, rfl, .inr hc⟩
  · exact ⟨_, _, rfl, .inl rfl⟩

/-- The first byte of a value: no blank, no separator, no closing bracket. -/
theorem Derives.head {v : Tree} {t : Text} (h : Derives (.value v) t) :
    ∃ c t', t = c :: t' ∧ c ∉ [0x20, 0x09, 0x0D, 0x0A, 0x5D] := by
  cases h with
  | null => exact ⟨_, _, rfl, by decide⟩
  | bool b => cases b <;> exact ⟨_, _, rfl, by decide⟩
  | number h =>
    obtain ⟨c, t', rfl, hc⟩ := h.head
    refine ⟨c, t', rfl, ?_⟩
    rcases hc with rfl | hc
    · decide
    · have hno : ([0x20, 0x09, 0x0D, 0x0A, 0x5D] : Text).any isDecDigit = false := rfl
      intro hmem
      exact List.any_eq_false.mp hno c hmem hc
  | string h =>
    obtain ⟨t, -, rfl⟩ := h
    exact ⟨_, _, rfl, by decide⟩
  | emptyArray | array | emptyObject | object => exact ⟨_, _, rfl, by decide⟩

/-! ### How texts are put together -/

theorem blank_nil : Blank [] := nofun

theorem blank_space : Blank [0x20] := fun _ hc => .inl (List.mem_singleton.mp hc)

theorem blank_newline : Blank [0x0A] := fun _ hc => .inr (.inr (.inr (List.mem_singleton.mp hc)))

theorem NumberText.ofInt {t : Text} (h : IntText t) : NumberText t := by
  have hmk := NumberText.mk (.inl rfl) h (.inl rfl) (.inl rfl)
  rwa [List.nil_append, List.append_nil, List.append_nil] at hmk

theorem NumberText.ofNeg {t : Text} (h : IntText t) : NumberText (0x2D :: t) := by
  have hmk := NumberText.mk (.inr rfl) h (.inl rfl) (.inl rfl)
  rwa [List.append_nil, List.append_nil] at hmk

theorem intText_decimal (n : ℕ) : IntText (decimal n) := by
  by_cases hn : n = 0
  · exact .inl (by rw [hn, decimal_of_lt (by decide)]; rfl)
  · obtain ⟨d, ds, hd⟩ := List.exists_cons_of_ne_nil (decimal_ne_nil n)
    have hdigits : ∀ c ∈ decimal n, isDecDigit c := fun c hc => isDecDigit_of_mem_decimal hc
    have hhead := decimal_head hn
    rw [hd] at hdigits hhead ⊢
    refine .inr ⟨d, ds, rfl, hdigits d List.mem_cons_self, fun h => hhead (by rw [h]; rfl), ?_⟩
    exact fun c hc => hdigits c (List.mem_cons_of_mem _ hc)

theorem Derives.ofValue {v : Tree} {t : Text} (h : Derives (.value v) t) : Derives (.around v) t := by
  have haround := Derives.around blank_nil h blank_nil
  rwa [List.nil_append, List.append_nil] at haround

theorem Derives.padLeft {b t : Text} {v : Tree} (hb : Blank b) (h : Derives (.around v) t) :
    Derives (.around v) (b ++ t) := by
  cases h with | around hb₁ h hb₂ =>
  rw [← List.append_assoc]
  exact .around (hb.append hb₁) h hb₂

theorem Derives.padRight {b t : Text} {v : Tree} (hb : Blank b) (h : Derives (.around v) t) :
    Derives (.around v) (t ++ b) := by
  cases h with | around hb₁ h hb₂ =>
  rw [List.append_assoc, List.append_assoc]
  exact .around hb₁ h (hb₂.append hb)

theorem Derives.elementsLeft {b t : Text} {vs : List Tree} (hb : Blank b)
    (h : Derives (.elements vs) t) : Derives (.elements vs) (b ++ t) := by
  cases h with
  | element h => exact .element (h.padLeft hb)
  | elements h h' =>
    rw [← List.append_assoc]
    exact .elements (h.padLeft hb) h'

/-- Blanks behind the elements of an array. -/
theorem Derives.elementsRight {b t : Text} {vs : List Tree} (hb : Blank b)
    (h : Derives (.elements vs) t) : Derives (.elements vs) (t ++ b) := by
  generalize hnode : Node.elements vs = node at h
  induction h generalizing vs with
  | element h =>
    cases hnode
    exact .element (h.padRight hb)
  | elements h _ _ ih =>
    cases hnode
    rw [List.append_assoc, List.cons_append]
    exact .elements h (ih rfl)
  | _ => cases hnode

/-- A member in front of others. -/
theorem Derives.membersCons {e : Text × Tree} {ms : List (Text × Tree)} {t t' : Text}
    (h : Derives (.members [e]) t) (h' : Derives (.members ms) t') :
    Derives (.members (e :: ms)) (t ++ 0x2C :: t') := by
  cases h with
  | member hb hq hb' h =>
    have hcons := Derives.members hb hq hb' h h'
    simpa only [List.append_assoc, List.cons_append] using hcons
  | members _ _ _ _ h => cases h

/-- Blanks behind the members of an object. -/
theorem Derives.membersRight {b t : Text} {ms : List (Text × Tree)} (hb : Blank b)
    (h : Derives (.members ms) t) : Derives (.members ms) (t ++ b) := by
  generalize hnode : Node.members ms = node at h
  induction h generalizing ms with
  | member hb₁ hq hb' h =>
    cases hnode
    simp only [List.append_assoc, List.cons_append]
    exact .member hb₁ hq hb' (h.padRight hb)
  | members hb₁ hq hb' h _ _ ih =>
    cases hnode
    simp only [List.append_assoc, List.cons_append]
    exact .members hb₁ hq hb' h (ih rfl)
  | _ => cases hnode

/-- The elements of an array, with commas and blanks between them. -/
theorem derives_join {b : Text} (hb : Blank b) (es : List (Tree × Text)) (hne : es ≠ [])
    (h : ∀ e ∈ es, Derives (.value e.1) e.2) :
    Derives (.elements (es.map Prod.fst)) (List.intercalate (0x2C :: b) (es.map Prod.snd)) := by
  induction es with
  | nil => exact absurd rfl hne
  | cons e es ih =>
    have he := (h e List.mem_cons_self).ofValue
    cases es with
    | nil =>
      simp only [List.map_cons, List.map_nil, List.intercalate_singleton]
      exact .element he
    | cons e' es =>
      have hrest := ih (List.cons_ne_nil _ _) fun e he => h e (List.mem_cons_of_mem _ he)
      simp only [List.map_cons, List.intercalate_cons_cons, List.append_assoc,
        List.cons_append] at hrest ⊢
      exact .elements he (hrest.elementsLeft hb)

/-- The members of an object, with commas between them. -/
theorem derives_joinMembers (es : List ((Text × Tree) × Text)) (hne : es ≠ [])
    (h : ∀ e ∈ es, Derives (.members [e.1]) e.2) :
    Derives (.members (es.map Prod.fst)) (List.intercalate [0x2C] (es.map Prod.snd)) := by
  induction es with
  | nil => exact absurd rfl hne
  | cons e es ih =>
    have he := h e List.mem_cons_self
    cases es with
    | nil =>
      simp only [List.map_cons, List.map_nil, List.intercalate_singleton]
      exact he
    | cons e' es =>
      have hrest := ih (List.cons_ne_nil _ _) fun e he => h e (List.mem_cons_of_mem _ he)
      simp only [List.map_cons, List.intercalate_cons_cons, List.append_assoc,
        List.singleton_append] at hrest ⊢
      exact he.membersCons hrest

end LinuxDemo.JsonGrammar

/-
LinuxDemo/JsonComplete.lean

The reader finds what the grammar derives.

`valueOf` is the value that a tree of the grammar stands for.  On a document of
the grammar the reader returns that value, whatever its features are, or throws
if the document is nested deeper than the stack limit (`parse_of_derives`); only
`strictRoot_` and `rejectDupKeys_` have to be satisfied.  The induction is on
the derivation, with a statement for each function of the reader (`Accepts`).

That the C library reads every number of the grammar is the assumption
`Doubles.Scans`.
-/
import LinuxDemo.JsonReaderTokens
import LinuxDemo.JsonReaderNumber

namespace LinuxDemo.Json

open JsonGrammar

variable {ρ : Type*}

/-- `%lf` matches every number. -/
def Doubles.Scans (D : Doubles ρ) : Prop := ∀ t, NumberText t → (D.sscanf t).isSome

/-! ### What a tree stands for -/

/-- An integer if it is in the range of one, else a `double`. -/
def numberValue (D : Doubles ρ) (text : List UInt8) : Value ρ :=
  (integerValue text).getD ((D.sscanf text).elim .nullValue .realValue)

theorem numberValue_cases (D : Doubles ρ) (text : List UInt8) :
    numberValue D text = .nullValue ∨ (∃ n, numberValue D text = .intValue n) ∨
      (∃ n, numberValue D text = .uintValue n) ∨ ∃ x, numberValue D text = .realValue x := by
  rw [numberValue, integerValue]
  split
  · split
    · exact .inr (.inl ⟨_, rfl⟩)
    · cases D.sscanf text with
      | none => exact .inl rfl
      | some x => exact .inr (.inr (.inr ⟨x, rfl⟩))
  · split
    · split
      · exact .inr (.inl ⟨_, rfl⟩)
      · exact .inr (.inr (.inl ⟨_, rfl⟩))
    · cases D.sscanf text with
      | none => exact .inl rfl
      | some x => exact .inr (.inr (.inr ⟨x, rfl⟩))

mutual

/-- The value of a tree. -/
def valueOf (D : Doubles ρ) : Tree → Value ρ
  | .null => .nullValue
  | .bool b => .booleanValue b
  | .number t => numberValue D t
  | .string s => .stringValue (some s)
  | .array vs => .arrayValue (valueOfElems D 0 vs)
  | .object ms => .objectValue (valueOfMembers D [] ms)

def valueOfElems (D : Doubles ρ) (index : ℕ) : List Tree → List (ℕ × Value ρ)
  | [] => []
  | v :: vs => (index, valueOf D v) :: valueOfElems D (index + 1) vs

/-- The last member of a name counts. -/
def valueOfMembers (D : Doubles ρ) (m : List (List UInt8 × Value ρ)) :
    List (List UInt8 × Tree) → List (List UInt8 × Value ρ)
  | [] => m
  | (name, v) :: ms => valueOfMembers D (OrdMap.set name (valueOf D v) m) ms

end

/-! ### One step of the reader -/

/-- The exception of `readValue`. -/
def stackLimitExceeded : Exception :=
  .runtimeError (ascii "Exceeded stackLimit in readValue().")

namespace OurReader

variable (r : OurReader ρ)

theorem decodeNumber_eq (hscan : r.doubles.Scans) {t : List UInt8} (ht : NumberText t)
    (hlen : t.length < 2 ^ 31) (rest : List UInt8) :
    r.decodeNumber ⟨.tokenNumber, t ++ rest, rest⟩ = .ok (numberValue r.doubles t) := by
  obtain ⟨value, hvalue⟩ := Option.isSome_iff_exists.mp (hscan t ht)
  rw [decodeNumber, text_of_append, decodeInteger_eq, numberValue]
  cases integerValue t with
  | some v => rfl
  | none =>
    have hint : int32 (t.length : ℤ) = t.length := int32_eq (by omega) (by omega)
    have hsane : ¬ (r.our = true ∧ int32 (t.length : ℤ) < 0) := by
      rw [hint]
      omega
    dsimp only
    rw [decodeDouble, text_of_append, if_neg hsane, hvalue]
    rfl

/-- What a call returns that reads a value of depth `depth`. -/
def readsTo (s : ReaderState) (depth : ℕ) (v : Value ρ) (rest : List UInt8) : Outcome (Read ρ) :=
  if (s.stackDepth_ : ℤ) + depth ≤ r.features_.stackLimit_ then
    .done ⟨true, v, { s with current_ := rest }⟩
  else .thrown stackLimitExceeded

variable {r}

theorem readsTo_thrown {s : ReaderState} {depth : ℕ} {v : Value ρ} {rest : List UInt8}
    (h : r.features_.stackLimit_ ≤ s.stackDepth_) (hdepth : 1 ≤ depth) :
    r.readsTo s depth v rest = .thrown stackLimitExceeded := if_neg (by omega)

theorem readsTo_leave {s s' : ReaderState} {depth : ℕ} {v : Value ρ} {rest : List UInt8}
    (herrors : s'.errors_ = s.errors_) (hdepth : s'.stackDepth_ = s.stackDepth_ + 1) :
    (r.readsTo s' depth v rest).leave = r.readsTo s (depth + 1) v rest := by
  obtain ⟨current, errors, stackDepth⟩ := s'
  obtain rfl : errors = s.errors_ := herrors
  obtain rfl : stackDepth = s.stackDepth_ + 1 := hdepth
  rw [readsTo, readsTo]
  by_cases h : (s.stackDepth_ : ℤ) + (depth + 1 : ℕ) ≤ r.features_.stackLimit_
  · rw [if_pos h, if_pos (by push_cast at h ⊢; omega)]
    rfl
  · rw [if_neg h, if_neg (by push_cast at h ⊢; omega)]
    rfl

/-! ### The induction -/

variable (r)

/-- A call that is to read `t` first, with calls and room enough. -/
structure Call (n : ℕ) (s : ReaderState) (t rest : List UInt8) : Prop where
  spaces : skipSpaces s.current_ = skipSpaces (t ++ rest)
  short : s.current_.length < 2 ^ 30
  enough : 2 * s.current_.length + 1 ≤ n

/-- What each function does at a text of the grammar. -/
def Accepts : Node → List UInt8 → Prop
  | .value v, t => (r.features_.rejectDupKeys_ = true → v.Distinct) →
      ∀ (n : ℕ) (place : Value ρ) (s : ReaderState) (rest : List UInt8), Call n s t rest →
        Stops rest → r.readValue n place s = r.readsTo s v.depth (valueOf r.doubles v) rest
  | .around v, t => (r.features_.rejectDupKeys_ = true → v.Distinct) →
      ∃ b, Blank b ∧ ∀ (n : ℕ) (place : Value ρ) (s : ReaderState) (rest : List UInt8),
        Call n s t rest → Stops rest →
          r.readValue n place s = r.readsTo s v.depth (valueOf r.doubles v) (b ++ rest)
  | .elements vs, t => (r.features_.rejectDupKeys_ = true → ∀ v ∈ vs, v.Distinct) →
      ∀ (n index : ℕ) (m : List (ℕ × Value ρ)) (s : ReaderState) (rest : List UInt8),
        Call n s t (0x5D :: rest) → (∀ e ∈ m, e.1 < index) →
          r.readArray (n + 1) index m s = r.readsTo s (Tree.depthElems vs)
            (.arrayValue (m ++ valueOfElems r.doubles index vs)) rest
  | .members ms, t =>
      ∀ (n : ℕ) (name : List UInt8) (m : List (List UInt8 × Value ρ)) (s : ReaderState)
        (rest : List UInt8), Call n s t (0x7D :: rest) →
        (r.features_.rejectDupKeys_ = true → (ms.map Prod.fst).Nodup ∧
          (∀ e ∈ ms, e.2.Distinct ∧ OrdMap.find m e.1 = none)) →
          r.readObject n name m s = r.readsTo s (Tree.depthMembers ms)
            (.objectValue (valueOfMembers r.doubles m ms)) rest

variable {r} {n : ℕ} {place : Value ρ} {s : ReaderState} {t rest : List UInt8}

/-- The first token. -/
theorem Call.token (h : Call n s t rest) {c : UInt8} {type_ : TokenType} {next rest' : List UInt8}
    (ht : t ++ rest = c :: next) (hc : isJsonSpace c = false)
    (hscan : r.scanToken c next = (type_, true, rest')) (htype : type_ ≠ .tokenComment) :
    r.skipCommentTokens s.current_ = ⟨type_, c :: next, rest'⟩ := by
  have hspaces : skipSpaces s.current_ = c :: next := by
    rw [h.spaces, ht, skipSpaces_cons hc]
  exact r.skipCommentTokens_eq (r.readToken_eq hspaces hscan) htype

/-- The text is no longer than what is left. -/
theorem Call.length_le (h : Call n s t rest) {c : UInt8} {next : List UInt8}
    (ht : t ++ rest = c :: next) (hc : isJsonSpace c = false) :
    next.length + 1 ≤ s.current_.length := by
  have hle := (skipSpaces_suffix s.current_).length_le
  rwa [h.spaces, ht, skipSpaces_cons hc] at hle

theorem Call.exists_succ (h : Call n s t rest) : ∃ k, n = k + 1 :=
  ⟨n - 1, by have := h.enough; omega⟩

/-- A call for a text further on. -/
theorem Call.further (h : Call n s t rest) {k : ℕ} {s' : ReaderState} {t' rest' : List UInt8}
    (hspaces : skipSpaces s'.current_ = skipSpaces (t' ++ rest'))
    (hlt : s'.current_.length < s.current_.length) (hk : n ≤ k + 2) : Call k s' t' rest' := by
  obtain ⟨-, hshort, henough⟩ := h
  exact ⟨hspaces, hlt.trans hshort, by omega⟩

theorem Call.around {b b' : List UInt8} (h : Call n s (b ++ (t ++ b')) rest) (hb : Blank b) :
    Call n s t (b' ++ rest) := by
  refine ⟨?_, h.short, h.enough⟩
  rw [h.spaces, List.append_assoc, skipSpaces_blank hb, List.append_assoc]

/-- The first part of a text is a text. -/
theorem Call.first {t' : List UInt8} (h : Call n s (t ++ t') rest) : Call n s t (t' ++ rest) :=
  ⟨by rw [h.spaces, List.append_assoc], h.short, h.enough⟩

/-- Behind a comma there is a call for what follows it. -/
theorem Call.behind {c : UInt8} {t' : List UInt8} (h : Call (n + 1) s t (c :: (t' ++ rest)))
    (hlt : t'.length + rest.length < (skipSpaces (t ++ c :: (t' ++ rest))).length) :
    Call n { s with current_ := t' ++ rest } t' rest := by
  have hle := (skipSpaces_suffix s.current_).length_le
  rw [h.spaces] at hle
  refine h.further rfl ?_ (Nat.le_succ _)
  show (t' ++ rest).length < s.current_.length
  rw [List.length_append]
  omega

theorem readsTo_done {v : Value ρ} (h : ¬ (s.stackDepth_ : ℤ) ≥ r.features_.stackLimit_) :
    r.readsTo s 1 v rest = .done ⟨true, v, { s with current_ := rest }⟩ := if_pos (by omega)

/-- Where no value may be read, none is. -/
theorem readValue_thrown (h : Call n s t rest) {depth : ℕ} {v : Value ρ} {rest' : List UInt8}
    (hlimit : (s.stackDepth_ : ℤ) ≥ r.features_.stackLimit_) (hdepth : 1 ≤ depth) :
    r.readValue n place s = r.readsTo s depth v rest' := by
  obtain ⟨n, rfl⟩ := h.exists_succ
  rw [readValue, if_pos hlimit, readsTo_thrown hlimit hdepth]
  rfl

theorem accepts_null : r.Accepts (.value .null) (ascii "null") := by
  intro _ n place s rest hcall _
  obtain ⟨n, rfl⟩ := hcall.exists_succ
  by_cases hlimit : (s.stackDepth_ : ℤ) ≥ r.features_.stackLimit_
  · exact readValue_thrown hcall hlimit (Nat.le_refl 1)
  · have htoken := hcall.token (r := r) (c := 0x6E) rfl rfl (r.scanToken_null rest) (by decide)
    rw [readValue, if_neg hlimit, htoken]
    exact (readsTo_done hlimit).symm

theorem accepts_bool (b : Bool) :
    r.Accepts (.value (.bool b)) (if b then ascii "true" else ascii "false") := by
  intro _ n place s rest hcall _
  obtain ⟨n, rfl⟩ := hcall.exists_succ
  by_cases hlimit : (s.stackDepth_ : ℤ) ≥ r.features_.stackLimit_
  · exact readValue_thrown hcall hlimit (Nat.le_refl 1)
  · cases b with
    | true =>
      have htoken := hcall.token (r := r) (c := 0x74) rfl rfl (r.scanToken_true rest) (by decide)
      rw [readValue, if_neg hlimit, htoken]
      exact (readsTo_done hlimit).symm
    | false =>
      have htoken := hcall.token (r := r) (c := 0x66) rfl rfl (r.scanToken_false rest) (by decide)
      rw [readValue, if_neg hlimit, htoken]
      exact (readsTo_done hlimit).symm

theorem accepts_number (hscan : r.doubles.Scans) (ht : NumberText t) :
    r.Accepts (.value (.number t)) t := by
  intro _ n place s rest hcall hrest
  obtain ⟨n, rfl⟩ := hcall.exists_succ
  by_cases hlimit : (s.stackDepth_ : ℤ) ≥ r.features_.stackLimit_
  · exact readValue_thrown hcall hlimit (Nat.le_refl 1)
  · obtain ⟨c, t', rfl, hspace, -⟩ := derives_head (.number ht)
    have htoken := hcall.token (r := r) List.cons_append hspace (r.scanToken_number ht hrest) (by decide)
    have hlen : (c :: t').length < 2 ^ 31 := by
      have hle := hcall.length_le List.cons_append hspace
      have hshort := hcall.short
      rw [List.length_append] at hle
      rw [List.length_cons]
      omega
    have hnumber := r.decodeNumber_eq hscan ht hlen rest
    rw [readValue, if_neg hlimit, htoken]
    dsimp only
    rw [← List.cons_append, hnumber]
    exact (readsTo_done hlimit).symm

/-- A string is short enough for a value, and for a name. -/
theorem length_of_quoted {q : List UInt8} (h : Quoted q t) (hcall : Call n s t rest) :
    q.length < 2 ^ 30 := by
  obtain ⟨t, ht, rfl⟩ := h
  have hle := hcall.length_le List.cons_append rfl
  have hdecoded := length_decodeStringLoop (decodeContent_eq ht)
  have hshort := hcall.short
  rw [List.length_append, List.length_append] at hle
  rw [List.length_nil] at hdecoded
  omega

theorem token_of_quoted {q : List UInt8} (h : Quoted q t) (rest : List UInt8) :
    ∃ next, t ++ rest = 0x22 :: next ∧ r.scanToken 0x22 next = (.tokenString, true, rest) := by
  obtain ⟨t, ht, rfl⟩ := h
  refine ⟨t ++ 0x22 :: rest, ?_, r.scanToken_string ht rest⟩
  rw [List.cons_append, List.append_assoc, List.singleton_append]

theorem skipSpaces_quoted {name q b : List UInt8} (hb : Blank b) (h : Quoted name q)
    (rest : List UInt8) : skipSpaces (b ++ (q ++ rest)) = q ++ rest := by
  obtain ⟨t, -, rfl⟩ := h
  rw [skipSpaces_blank hb, List.cons_append, skipSpaces_cons rfl]

theorem accepts_string {q : List UInt8} (h : Quoted q t) :
    r.Accepts (.value (.string q)) t := by
  intro _ n place s rest hcall _
  by_cases hlimit : (s.stackDepth_ : ℤ) ≥ r.features_.stackLimit_
  · exact readValue_thrown hcall hlimit (Nat.le_refl 1)
  · have hlen := length_of_quoted h hcall
    obtain ⟨next, hnext, hscan⟩ := token_of_quoted (r := r) h rest
    have htoken := hcall.token hnext rfl hscan (by decide)
    rw [← hnext] at htoken
    obtain ⟨n, rfl⟩ := hcall.exists_succ
    rw [readValue, if_neg hlimit, htoken]
    dsimp only
    rw [decodeString_eq h]
    dsimp only
    rw [Value.ofString_eq (by omega)]
    exact (readsTo_done hlimit).symm

theorem accepts_emptyArray {b : List UInt8} (hb : Blank b) :
    r.Accepts (.value (.array [])) (0x5B :: (b ++ [0x5D])) := by
  intro _ n place s rest hcall _
  by_cases hlimit : (s.stackDepth_ : ℤ) ≥ r.features_.stackLimit_
  · exact readValue_thrown hcall hlimit (Nat.le_refl 1)
  · have htext : 0x5B :: (b ++ [0x5D]) ++ rest = 0x5B :: (b ++ 0x5D :: rest) := by
      rw [List.cons_append, List.append_assoc, List.singleton_append]
    have htoken := hcall.token (r := r) htext rfl rfl (by decide)
    have hspaces : skipSpaces (b ++ 0x5D :: rest) = 0x5D :: rest := by
      rw [skipSpaces_blank hb, skipSpaces_cons rfl]
    have hclose : r.readToken (0x5D :: rest) = ⟨.tokenArrayEnd, 0x5D :: rest, rest⟩ :=
      r.readToken_eq (skipSpaces_cons rfl rest) rfl
    obtain ⟨n, rfl⟩ := hcall.exists_succ
    rw [readValue, if_neg hlimit, htoken]
    simp only [ReaderState.behind, ReaderState.enter, hspaces, hclose, List.headD_cons, if_true]
    exact (readsTo_done hlimit).symm

theorem accepts_emptyObject {b : List UInt8} (hb : Blank b) :
    r.Accepts (.value (.object [])) (0x7B :: (b ++ [0x7D])) := by
  intro _ n place s rest hcall _
  by_cases hlimit : (s.stackDepth_ : ℤ) ≥ r.features_.stackLimit_
  · exact readValue_thrown hcall hlimit (Nat.le_refl 1)
  · have htext : 0x7B :: (b ++ [0x7D]) ++ rest = 0x7B :: (b ++ 0x7D :: rest) := by
      rw [List.cons_append, List.append_assoc, List.singleton_append]
    have htoken := hcall.token (r := r) htext rfl rfl (by decide)
    have hspaces : skipSpaces (b ++ 0x7D :: rest) = 0x7D :: rest := by
      rw [skipSpaces_blank hb, skipSpaces_cons rfl]
    have hclose : r.skipComments (b ++ 0x7D :: rest) = ⟨.tokenObjectEnd, 0x7D :: rest, rest⟩ :=
      r.skipComments_eq (r.readToken_eq hspaces rfl) (by simp)
    have hlen := hcall.length_le htext rfl
    have henough := hcall.enough
    obtain ⟨n, rfl⟩ : ∃ k, n = k + 2 := ⟨n - 2, by omega⟩
    rw [readValue, if_neg hlimit, htoken]
    simp only [ReaderState.behind, ReaderState.enter, readObject, hclose, and_self, if_true]
    exact (readsTo_done hlimit).symm

/-- A value that begins with `[`, and is not the empty array, is read by `readArray`. -/
theorem readValue_array (hbegins : Begins t) (hcall : Call n s (0x5B :: (t ++ [0x5D])) rest)
    (hlimit : ¬ (s.stackDepth_ : ℤ) ≥ r.features_.stackLimit_) (place : Value ρ) :
    ∃ k s', Call k s' t (0x5D :: rest) ∧ s'.errors_ = s.errors_ ∧
      s'.stackDepth_ = s.stackDepth_ + 1 ∧
      r.readValue n place s = (r.readArray (k + 1) 0 [] s').leave := by
  have htext : 0x5B :: (t ++ [0x5D]) ++ rest = 0x5B :: (t ++ 0x5D :: rest) := by
    rw [List.cons_append, List.append_assoc, List.singleton_append]
  have htoken := hcall.token (r := r) htext rfl rfl (by decide)
  have hlen := hcall.length_le htext rfl
  have henough := hcall.enough
  have hskip := (skipSpaces_suffix (t ++ 0x5D :: rest)).length_le
  obtain ⟨c, t', hc, hspaces⟩ := hbegins
  obtain ⟨n, rfl⟩ : ∃ k, n = k + 2 := ⟨n - 2, by omega⟩
  refine ⟨n, { s with
    current_ := skipSpaces (t ++ 0x5D :: rest), stackDepth_ := s.stackDepth_ + 1 }, ?_, rfl, rfl, ?_⟩
  · exact hcall.further (skipSpaces_skipSpaces _) (Nat.lt_of_le_of_lt hskip hlen) (Nat.le_refl _)
  · rw [readValue, if_neg hlimit, htoken]
    dsimp only
    rw [if_neg (by
      simp only [ReaderState.behind, hspaces]
      exact hc)]
    rfl

/-- A value that begins with `{` is read by `readObject`. -/
theorem readValue_object (hcall : Call n s (0x7B :: (t ++ [0x7D])) rest)
    (hlimit : ¬ (s.stackDepth_ : ℤ) ≥ r.features_.stackLimit_) (place : Value ρ) :
    ∃ k s', Call k s' t (0x7D :: rest) ∧ s'.errors_ = s.errors_ ∧
      s'.stackDepth_ = s.stackDepth_ + 1 ∧
      r.readValue n place s = (r.readObject k [] [] s').leave := by
  have htext : 0x7B :: (t ++ [0x7D]) ++ rest = 0x7B :: (t ++ 0x7D :: rest) := by
    rw [List.cons_append, List.append_assoc, List.singleton_append]
  have htoken := hcall.token (r := r) htext rfl rfl (by decide)
  have hlen := hcall.length_le htext rfl
  obtain ⟨n, rfl⟩ := hcall.exists_succ
  refine ⟨n, { s with current_ := t ++ 0x7D :: rest, stackDepth_ := s.stackDepth_ + 1 },
    hcall.further rfl hlen (Nat.le_succ _), rfl, rfl, ?_⟩
  rw [readValue, if_neg hlimit, htoken]
  rfl

theorem accepts_array {vs : List Tree} (hbegins : Begins t) (h : r.Accepts (.elements vs) t) :
    r.Accepts (.value (.array vs)) (0x5B :: (t ++ [0x5D])) := by
  intro hdup n place s rest hcall _
  by_cases hlimit : (s.stackDepth_ : ℤ) ≥ r.features_.stackLimit_
  · exact readValue_thrown hcall hlimit (Nat.le_add_left 1 _)
  · obtain ⟨k, s', hcall', herrors, hdepth, hvalue⟩ := readValue_array hbegins hcall hlimit place
    have hdup' : r.features_.rejectDupKeys_ = true → ∀ v ∈ vs, v.Distinct := fun hreject => by
      cases hdup hreject with
      | array h => exact h
    rw [hvalue, h hdup' k 0 [] s' rest hcall' nofun]
    exact readsTo_leave herrors hdepth

theorem accepts_object {ms : List (List UInt8 × Tree)} (h : r.Accepts (.members ms) t) :
    r.Accepts (.value (.object ms)) (0x7B :: (t ++ [0x7D])) := by
  intro hdup n place s rest hcall _
  by_cases hlimit : (s.stackDepth_ : ℤ) ≥ r.features_.stackLimit_
  · exact readValue_thrown hcall hlimit (Nat.le_add_left 1 _)
  · obtain ⟨k, s', hcall', herrors, hdepth, hvalue⟩ := readValue_object hcall hlimit place
    rw [hvalue, h k [] [] s' rest hcall' fun hreject => ?_]
    · exact readsTo_leave herrors hdepth
    · cases hdup hreject with
      | object hnames h => exact ⟨hnames, fun e he => ⟨h e he, rfl⟩⟩

theorem accepts_around {b b' : List UInt8} {v : Tree} (hb : Blank b) (hb' : Blank b')
    (h : r.Accepts (.value v) t) : r.Accepts (.around v) (b ++ (t ++ b')) := by
  intro hdup
  exact ⟨b', hb', fun n place s rest hcall hrest =>
    h hdup n place s (b' ++ rest) (hcall.around hb) (hb'.stops hrest)⟩

/-- What may follow a value in a container. -/
theorem stops_cons {c : UInt8} (hc : c = 0x2C ∨ c = 0x5D ∨ c = 0x7D) (rest : List UInt8) :
    Stops (c :: rest) := by
  intro c' hc'
  obtain rfl := Option.some.inj hc'
  rcases hc with rfl | rfl | rfl <;> decide

/-- One round of the loop of `readArray`. -/
theorem readArray_round {v : Tree} (h : r.Accepts (.around v) t)
    (hdup : r.features_.rejectDupKeys_ = true → v.Distinct) {index : ℕ}
    {m : List (ℕ × Value ρ)} (hm : ∀ e ∈ m, e.1 < index) {c : UInt8} {type_ : TokenType}
    {next : List UInt8} (hcall : Call n s t (c :: next)) (hc : c = 0x2C ∨ c = 0x5D)
    (hscan : r.scanToken c next = (type_, true, next))
    (htype : type_ = .tokenArraySeparator ∨ type_ = .tokenArrayEnd) :
    r.readArray (n + 1) index m s =
      if (s.stackDepth_ : ℤ) + v.depth ≤ r.features_.stackLimit_ then
        if type_ = .tokenArrayEnd then
          .done ⟨true, .arrayValue (m ++ [(index, valueOf r.doubles v)]), { s with current_ := next }⟩
        else
          r.readArray n (index + 1) (m ++ [(index, valueOf r.doubles v)])
            { s with current_ := next }
      else .thrown stackLimitExceeded := by
  obtain ⟨b, hb, hvalue⟩ := h hdup
  have hstops : Stops (c :: next) := stops_cons (hc.imp_right .inl) next
  have hspace : isJsonSpace c = false := by rcases hc with rfl | rfl <;> rfl
  rw [readArray, hvalue n _ s (c :: next) hcall hstops, readsTo]
  by_cases hlimit : (s.stackDepth_ : ℤ) + v.depth ≤ r.features_.stackLimit_
  · have hspaces : skipSpaces (b ++ c :: next) = c :: next := by
      rw [skipSpaces_blank hb, skipSpaces_cons hspace]
    have htoken : r.skipComments (b ++ c :: next) = ⟨type_, c :: next, next⟩ :=
      r.skipComments_eq (r.readToken_eq hspaces hscan) (by rcases htype with rfl | rfl <;> simp)
    rw [if_pos hlimit, if_pos hlimit]
    simp only [Bool.not_true, Bool.false_eq_true, if_false, htoken, ReaderState.behind,
      OrdMap.set_eq_append hm]
    rw [if_neg (by rcases htype with rfl | rfl <;> decide)]
  · rw [if_neg hlimit, if_neg hlimit]

theorem readsTo_max_left {depth depth' : ℕ} {v : Value ρ}
    (h : ¬ (s.stackDepth_ : ℤ) + depth ≤ r.features_.stackLimit_) :
    r.readsTo s (max depth depth') v rest = .thrown stackLimitExceeded := if_neg (by omega)

theorem readsTo_max_right {depth depth' : ℕ} {v : Value ρ} {rest' : List UInt8}
    (h : (s.stackDepth_ : ℤ) + depth ≤ r.features_.stackLimit_) :
    r.readsTo s (max depth depth') v rest =
      r.readsTo { s with current_ := rest' } depth' v rest := by
  rw [readsTo, readsTo]
  refine if_congr ?_ rfl rfl
  show (s.stackDepth_ : ℤ) + max depth depth' ≤ _ ↔ (s.stackDepth_ : ℤ) + depth' ≤ _
  omega

theorem accepts_element {v : Tree} (h : r.Accepts (.around v) t) :
    r.Accepts (.elements [v]) t := by
  intro hdup n index m s rest hcall hm
  rw [readArray_round h (fun hreject => hdup hreject v List.mem_cons_self) hm hcall (.inr rfl) rfl
    (.inr rfl), if_pos rfl, Tree.depthElems, Tree.depthElems, Nat.max_zero]
  rfl

theorem Call.afterElement {t' : List UInt8} (hbegins : Begins t)
    (h : Call (n + 1) s t (0x2C :: (t' ++ rest))) :
    Call n { s with current_ := t' ++ rest } t' rest := by
  obtain ⟨c, t₁, -, hspaces⟩ := hbegins
  refine h.behind ?_
  rw [hspaces]
  simp only [List.length_append, List.length_cons]
  omega

theorem forall_lt_append {index : ℕ} {m : List (ℕ × Value ρ)} (hm : ∀ e ∈ m, e.1 < index)
    (v : Value ρ) : ∀ e ∈ m ++ [(index, v)], e.1 < index + 1 := by
  refine List.forall_mem_append.mpr ⟨fun e he => Nat.lt_succ_of_lt (hm e he), ?_⟩
  exact List.forall_mem_singleton.mpr (Nat.lt_succ_self index)

theorem accepts_elements {v : Tree} {vs : List Tree} {t' : List UInt8} (hbegins : Begins t)
    (h : r.Accepts (.around v) t) (h' : r.Accepts (.elements vs) t') :
    r.Accepts (.elements (v :: vs)) (t ++ 0x2C :: t') := by
  intro hdup n index m s rest hcall hm
  have hcall' := hcall.first
  rw [readArray_round h (fun hreject => hdup hreject v List.mem_cons_self) hm hcall' (.inl rfl) rfl
    (.inl rfl), if_neg (by decide : ¬ TokenType.tokenArraySeparator = .tokenArrayEnd),
    Tree.depthElems]
  by_cases hlimit : (s.stackDepth_ : ℤ) + v.depth ≤ r.features_.stackLimit_
  · obtain ⟨n, rfl⟩ := hcall.exists_succ
    have hvs : r.features_.rejectDupKeys_ = true → ∀ v ∈ vs, v.Distinct := fun hreject v hv =>
      hdup hreject v (List.mem_cons_of_mem _ hv)
    rw [if_pos hlimit]
    refine (h' hvs n (index + 1) _ _ rest (hcall'.afterElement hbegins)
      (forall_lt_append hm _)).trans ?_
    rw [readsTo_max_right hlimit, List.append_assoc, List.singleton_append, valueOfElems]
  · rw [if_neg hlimit, readsTo_max_left hlimit]

/-- What a round of `readObject` is at the text of a member, up to the call that reads the
value. -/
theorem readObject_member {q b b' name : List UInt8} (name' : List UInt8) (hb : Blank b)
    (hq : Quoted name q) (hb' : Blank b') (m : List (List UInt8 × Value ρ)) {next : List UInt8}
    (hcall : Call (n + 1) s (b ++ (q ++ (b' ++ 0x3A :: t))) next) :
    Call n { s with current_ := t ++ next } t next ∧
      if r.features_.rejectDupKeys_ = true ∧ (OrdMap.find m name).isSome = true then
        ∃ s', r.readObject (n + 1) name' m s = .done ⟨false, .objectValue m, s'⟩
      else
        r.readObject (n + 1) name' m s = r.memberRest name m (r.readObject n name)
          (r.readValue n ((OrdMap.find m name).getD .nullValue) { s with current_ := t ++ next }) := by
  obtain ⟨next', hnext', hscanName⟩ := token_of_quoted (r := r) hq (b' ++ 0x3A :: (t ++ next))
  have hcallName : Call (n + 1) s q (b' ++ 0x3A :: (t ++ next)) := by
    refine ⟨?_, hcall.short, hcall.enough⟩
    rw [hcall.spaces, List.append_assoc, skipSpaces_blank hb, List.append_assoc, List.append_assoc,
      List.cons_append]
  have hspaces : skipSpaces s.current_ = 0x22 :: next' := by
    rw [hcallName.spaces, hnext', skipSpaces_cons rfl]
  have htokenName := r.skipComments_eq (r.readToken_eq hspaces hscanName) (by simp)
  rw [← hnext'] at htokenName
  have hmember : r.memberName ⟨.tokenString, q ++ (b' ++ 0x3A :: (t ++ next)),
      b' ++ 0x3A :: (t ++ next)⟩ = some (.ok name) := by
    rw [memberName, if_pos rfl, decodeString_eq hq]
  have hcolon : r.readToken (b' ++ 0x3A :: (t ++ next)) =
      ⟨.tokenMemberSeparator, 0x3A :: (t ++ next), t ++ next⟩ :=
    r.readToken_eq (by rw [skipSpaces_blank hb', skipSpaces_cons rfl]) rfl
  have hshort : ¬ (r.our = true ∧ name.length ≥ 2 ^ 30) := fun hlong =>
    absurd (length_of_quoted hq hcallName) (Nat.not_lt.mpr hlong.2)
  have hlt : (t ++ next).length < s.current_.length := by
    have hlen := hcallName.length_le hnext' rfl
    have hsum := congrArg List.length hnext'
    simp only [List.length_append, List.length_cons] at hlen hsum ⊢
    omega
  refine ⟨hcall.further rfl hlt (Nat.le_succ _), ?_⟩
  have hend : ¬ (TokenType.tokenString = .tokenObjectEnd ∧ name' = []) := fun h =>
    absurd h.1 (by decide)
  have hmember' : ¬ TokenType.tokenMemberSeparator ≠ .tokenMemberSeparator := fun h => h rfl
  rw [readObject, htokenName]
  simp only [ReaderState.behind, hmember, hcolon]
  rw [if_neg hend, if_neg hmember', if_neg hshort]
  split
  · exact ⟨_, rfl⟩
  · rfl

/-- One round of the loop of `readObject`. -/
theorem readObject_round {q b b' : List UInt8} {v : Tree} {name name' : List UInt8}
    (hb : Blank b) (hq : Quoted name q) (hb' : Blank b') (h : r.Accepts (.around v) t)
    (hdup : r.features_.rejectDupKeys_ = true → v.Distinct) {m : List (List UInt8 × Value ρ)}
    (hm : r.features_.rejectDupKeys_ = true → OrdMap.find m name = none) {c : UInt8}
    {type_ : TokenType} {next : List UInt8}
    (hcall : Call (n + 1) s (b ++ (q ++ (b' ++ 0x3A :: t))) (c :: next))
    (hc : c = 0x2C ∨ c = 0x7D) (hscan : r.scanToken c next = (type_, true, next))
    (htype : type_ = .tokenArraySeparator ∨ type_ = .tokenObjectEnd) :
    r.readObject (n + 1) name' m s =
      if (s.stackDepth_ : ℤ) + v.depth ≤ r.features_.stackLimit_ then
        if type_ = .tokenObjectEnd then
          .done ⟨true, .objectValue (OrdMap.set name (valueOf r.doubles v) m),
            { s with current_ := next }⟩
        else
          r.readObject n name (OrdMap.set name (valueOf r.doubles v) m) { s with current_ := next }
      else .thrown stackLimitExceeded := by
  obtain ⟨b'', hb'', hvalue⟩ := h hdup
  obtain ⟨hcall', hround⟩ := readObject_member (r := r) name' hb hq hb' m hcall
  have hfind : ¬ (r.features_.rejectDupKeys_ = true ∧ (OrdMap.find m name).isSome = true) := by
    rintro ⟨hreject, hsome⟩
    rw [hm hreject] at hsome
    cases hsome
  have hspace : isJsonSpace c = false := by rcases hc with rfl | rfl <;> rfl
  have hcomma : r.readToken (b'' ++ c :: next) = ⟨type_, c :: next, next⟩ :=
    r.readToken_eq (by rw [skipSpaces_blank hb'', skipSpaces_cons hspace]) hscan
  rw [if_neg hfind, hvalue n _ _ (c :: next) hcall' (stops_cons (hc.imp_right .inr) next),
    readsTo] at hround
  rw [hround]
  by_cases hlimit : (s.stackDepth_ : ℤ) + v.depth ≤ r.features_.stackLimit_
  · rw [if_pos hlimit, if_pos hlimit, memberRest]
    simp only [Bool.not_true, Bool.false_eq_true, if_false, hcomma]
    have hcomment : type_ ≠ .tokenComment := by rcases htype with rfl | rfl <;> decide
    rw [if_neg (by rcases htype with rfl | rfl <;> decide), if_neg hcomment]
    rfl
  · rw [if_neg hlimit, if_neg hlimit]
    rfl

theorem accepts_member {name q b b' : List UInt8} {v : Tree} (hb : Blank b) (hq : Quoted name q)
    (hb' : Blank b') (h : r.Accepts (.around v) t) :
    r.Accepts (.members [(name, v)]) (b ++ (q ++ (b' ++ 0x3A :: t))) := by
  intro n name' m s rest hcall hdup
  obtain ⟨n, rfl⟩ := hcall.exists_succ
  have hdup' (hreject) := (hdup hreject).2 _ List.mem_cons_self
  rw [readObject_round hb hq hb' h (fun hreject => (hdup' hreject).1)
    (fun hreject => (hdup' hreject).2) hcall (.inr rfl) rfl (.inr rfl), if_pos rfl,
    Tree.depthMembers, Tree.depthMembers, Nat.max_zero, valueOfMembers, valueOfMembers]
  rfl

/-- The text of a member and a comma. -/
theorem Call.member {q b b' t' : List UInt8}
    (h : Call n s (b ++ (q ++ (b' ++ 0x3A :: (t ++ 0x2C :: t')))) rest) :
    Call n s (b ++ (q ++ (b' ++ 0x3A :: t))) (0x2C :: (t' ++ rest)) := by
  refine @Call.first n s _ rest (0x2C :: t') ?_
  rwa [List.append_assoc, List.append_assoc, List.append_assoc, List.cons_append]

theorem Call.afterMember {name q b b' t' : List UInt8} (hb : Blank b) (hq : Quoted name q)
    (h : Call (n + 1) s (b ++ (q ++ (b' ++ 0x3A :: t))) (0x2C :: (t' ++ rest))) :
    Call n { s with current_ := t' ++ rest } t' rest := by
  refine h.behind ?_
  rw [List.append_assoc, List.append_assoc, skipSpaces_quoted hb hq]
  simp only [List.length_append, List.length_cons]
  omega

theorem accepts_members {name q b b' t' : List UInt8} {v : Tree} {ms : List (List UInt8 × Tree)}
    (hb : Blank b) (hq : Quoted name q) (hb' : Blank b') (h : r.Accepts (.around v) t)
    (h' : r.Accepts (.members ms) t') :
    r.Accepts (.members ((name, v) :: ms)) (b ++ (q ++ (b' ++ 0x3A :: (t ++ 0x2C :: t')))) := by
  intro n name' m s rest hcall hdup
  obtain ⟨n, rfl⟩ := hcall.exists_succ
  have hdup' (hreject) := (hdup hreject).2 _ List.mem_cons_self
  have hcall' := hcall.member
  rw [readObject_round hb hq hb' h (fun hreject => (hdup' hreject).1)
    (fun hreject => (hdup' hreject).2) hcall' (.inl rfl) rfl (.inl rfl),
    if_neg (by decide : ¬ TokenType.tokenArraySeparator = .tokenObjectEnd), Tree.depthMembers]
  by_cases hlimit : (s.stackDepth_ : ℤ) + v.depth ≤ r.features_.stackLimit_
  · rw [if_pos hlimit, h' n name _ _ rest (hcall'.afterMember hb hq) ?_,
      readsTo_max_right hlimit, valueOfMembers]
    intro hreject
    obtain ⟨hnames, hall⟩ := hdup hreject
    obtain ⟨hnot, hnames⟩ := List.nodup_cons.mp hnames
    refine ⟨hnames, fun e he => ⟨(hall e (List.mem_cons_of_mem _ he)).1, ?_⟩⟩
    have hmem : e.1 ∈ ms.map Prod.fst := List.mem_map_of_mem he
    have hne : e.1 ≠ name := fun heq => hnot (heq ▸ hmem)
    rw [OrdMap.find_set_ne _ _ hne, (hall e (List.mem_cons_of_mem _ he)).2]
  · rw [if_neg hlimit, readsTo_max_left hlimit]

/-- **Each function of the reader does what its derivation says.** -/
theorem accepts (hscan : r.doubles.Scans) {node : Node} {t : List UInt8} (h : Derives node t) :
    r.Accepts node t := by
  induction h with
  | null => exact accepts_null
  | bool b => exact accepts_bool b
  | number h => exact accepts_number hscan h
  | string h => exact accepts_string h
  | emptyArray hb => exact accepts_emptyArray hb
  | array h ih => exact accepts_array (begins_elements h) ih
  | emptyObject hb => exact accepts_emptyObject hb
  | object _ ih => exact accepts_object ih
  | around hb _ hb' ih => exact accepts_around hb hb' ih
  | element _ ih => exact accepts_element ih
  | elements h _ ih ih' => exact accepts_elements (begins_around h) ih ih'
  | member hb hq hb' _ ih => exact accepts_member hb hq hb' ih
  | members hb hq hb' _ _ ih ih' => exact accepts_members hb hq hb' ih ih'

/-- The value of a tree is a container if the tree is. -/
theorem isContainer_valueOf (D : Doubles ρ) (v : Tree) :
    (valueOf D v).isArray = true ∨ (valueOf D v).isObject = true ↔ v.IsContainer := by
  cases v with
  | array vs => exact ⟨fun _ => trivial, fun _ => .inl rfl⟩
  | object ms => exact ⟨fun _ => trivial, fun _ => .inr rfl⟩
  | number t =>
    rw [valueOf]
    rcases numberValue_cases D t with h | ⟨n, h⟩ | ⟨n, h⟩ | ⟨x, h⟩ <;> rw [h] <;>
      exact ⟨nofun, False.elim⟩
  | _ => exact ⟨nofun, False.elim⟩

/-- Nothing but blanks is left. -/
theorem readToken_blank {b : List UInt8} (hb : Blank b) :
    r.readToken b = ⟨.tokenEndOfStream, [], []⟩ := by
  have hspaces : skipSpaces b = [] := by
    have h := skipSpaces_blank hb []
    rwa [List.append_nil] at h
  rw [readToken, hspaces]
  rfl

/-- What `parse` returns on a document of the grammar. -/
theorem parse_of_derives (r : OurReader ρ) (hscan : r.doubles.Scans) {document : List UInt8}
    {v : Tree} (h : Derives (.around v) document) (hshort : document.length < 2 ^ 30)
    (hdup : r.features_.rejectDupKeys_ = true → v.Distinct) (root : Value ρ) :
    r.parse document root =
      if (v.depth : ℤ) ≤ r.features_.stackLimit_ then
        if r.features_.strictRoot_ = true ∧ ¬ v.IsContainer then
          .done (false, valueOf r.doubles v, [⟨⟨.tokenError, document, []⟩,
            ascii "A valid JSON document must be either an array or an object value.", none⟩])
        else .done (true, valueOf r.doubles v, [])
      else .thrown stackLimitExceeded := by
  obtain ⟨b, hb, hvalue⟩ := accepts hscan h hdup
  have hcall : Call (2 * document.length + 1) ⟨document, [], 0⟩ document [] := by
    refine ⟨?_, hshort, Nat.le_refl _⟩
    rw [List.append_nil]
  rw [parse, hvalue _ root _ [] hcall stops_nil, readsTo]
  by_cases hlimit : (v.depth : ℤ) ≤ r.features_.stackLimit_
  · have htoken : r.skipCommentTokens (b ++ []) = ⟨.tokenEndOfStream, [], []⟩ := by
      rw [List.append_nil]
      exact r.skipCommentTokens_eq (readToken_blank hb) (by simp)
    have hextra : ¬ (r.features_.failIfExtra_ = true ∧ TokenType.tokenEndOfStream ≠ .tokenError ∧
        TokenType.tokenEndOfStream ≠ .tokenEndOfStream) := fun h => h.2.2 rfl
    have hroot : (r.features_.strictRoot_ = true ∧ (!(valueOf r.doubles v).isArray) = true ∧
        (!(valueOf r.doubles v).isObject) = true) ↔
          (r.features_.strictRoot_ = true ∧ ¬ v.IsContainer) := by
      rw [← isContainer_valueOf r.doubles v, not_or, Bool.not_eq_true', Bool.not_eq_true',
        Bool.not_eq_true, Bool.not_eq_true]
    rw [if_pos hlimit, if_pos (by simpa using hlimit)]
    simp only [htoken]
    rw [if_neg hextra]
    simp only [hroot, List.nil_append]
  · rw [if_neg hlimit, if_neg (by simpa using hlimit)]

end OurReader

end LinuxDemo.Json

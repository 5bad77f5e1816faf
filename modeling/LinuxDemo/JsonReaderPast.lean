/-
LinuxDemo/JsonReaderPast.lean

The byte behind the document, which the reader looks at.

It makes no difference where the source compares it with `/`
(`readCStyleLoop_past`), and in `readValue` only if it is a `]`
(`parse_past`).  Then a `[` at the end of the document is an empty array
(`parse_openArray`).
-/
import LinuxDemo.JsonReaderTokens

namespace LinuxDemo.Json

/-- The last `*` of a comment without an end is the end of the document. -/
theorem readCStyleLoop_past (past past' : UInt8) (current : List UInt8) :
    readCStyleLoop past current = readCStyleLoop past' current := by
  induction current with
  | nil => rfl
  | cons c current ih =>
    rw [readCStyleLoop, readCStyleLoop]
    cases current with
    | nil => split <;> split <;> rfl
    | cons d current => rw [ih]; rfl

theorem readComment_past (past past' : UInt8) (current : List UInt8) :
    readComment past current = readComment past' current := by
  rw [readComment, readComment, readCStyleComment, readCStyleComment,
    readCStyleLoop_past past past']

namespace OurReader

variable {ρ : Type*} (r : OurReader ρ)

/-- The same reader before another byte. -/
def withPast (past : UInt8) : OurReader ρ := { r with past := past }

variable (past : UInt8)

theorem scanToken_past (c : UInt8) (current : List UInt8) :
    (r.withPast past).scanToken c current = r.scanToken c current := by
  unfold scanToken
  rw [readComment_past (r.withPast past).past r.past]
  rfl

theorem readToken_past : (r.withPast past).readToken = r.readToken := by
  funext current
  rw [readToken, readToken, scanToken_past]

theorem skipCommentsLoop_past (n : ℕ) (current : List UInt8) :
    (r.withPast past).skipCommentsLoop n current = r.skipCommentsLoop n current := by
  induction n generalizing current with
  | zero => rw [skipCommentsLoop, skipCommentsLoop, readToken_past]
  | succ n ih =>
    rw [skipCommentsLoop, skipCommentsLoop, readToken_past, ih]

theorem skipComments_past : (r.withPast past).skipComments = r.skipComments := by
  funext current
  exact r.skipCommentsLoop_past past _ current

theorem skipCommentTokens_past :
    (r.withPast past).skipCommentTokens = r.skipCommentTokens := by
  funext current
  rw [skipCommentTokens, skipCommentTokens, skipComments_past, readToken_past]
  rfl

theorem recoverLoop_past (skipUntilToken : TokenType) (n : ℕ) (current : List UInt8) :
    (r.withPast past).recoverLoop skipUntilToken n current =
      r.recoverLoop skipUntilToken n current := by
  induction n generalizing current with
  | zero => rw [recoverLoop, recoverLoop, readToken_past]
  | succ n ih =>
    rw [recoverLoop, recoverLoop, readToken_past, ih]

theorem recoverFromError_past : (r.withPast past).recoverFromError = r.recoverFromError := by
  funext s skipUntilToken
  rw [recoverFromError, recoverFromError, recoverLoop_past]

theorem addErrorAndRecover_past :
    (r.withPast past).addErrorAndRecover = r.addErrorAndRecover := by
  funext s message token skipUntilToken
  rw [addErrorAndRecover, addErrorAndRecover, recoverFromError_past]

theorem decodeNumber_past : (r.withPast past).decodeNumber = r.decodeNumber := rfl

theorem memberName_past : (r.withPast past).memberName = r.memberName := rfl

theorem memberRest_past : (r.withPast past).memberRest = r.memberRest := by
  funext name m next o
  cases o with
  | done result =>
    rw [memberRest, memberRest, readToken_past, skipComments_past, addErrorAndRecover_past,
      recoverFromError_past]
  | thrown e => rfl
  | outOfCalls => rfl

variable {past}

/-- A call of each of the three functions. -/
theorem calls_past (h : past = 0x5D ↔ r.past = 0x5D) (n : ℕ) :
    (r.withPast past).readValue n = r.readValue n ∧
    (r.withPast past).readObject n = r.readObject n ∧
    (r.withPast past).readArray n = r.readArray n := by
  induction n with
  | zero => exact ⟨rfl, rfl, rfl⟩
  | succ n ih =>
    obtain ⟨hvalue, hobject, harray⟩ := ih
    have hhead (current : List UInt8) :
        current.headD (r.withPast past).past = 0x5D ↔ current.headD r.past = 0x5D := by
      cases current with
      | nil => exact h
      | cons c current => exact Iff.rfl
    refine ⟨?_, ?_, ?_⟩
    · funext v s
      rw [readValue, readValue, skipCommentTokens_past, hobject, harray, decodeNumber_past,
        readToken_past]
      simp only [hhead]
      rfl
    · funext name m s
      rw [readObject, readObject, hvalue, hobject, readToken_past, skipComments_past,
        memberName_past, memberRest_past, addErrorAndRecover_past, recoverFromError_past]
      rfl
    · funext index m s
      rw [readArray, readArray, hvalue, harray, skipComments_past, addErrorAndRecover_past,
        recoverFromError_past]

/-- Where nothing is left, there is no value. -/
theorem notOk_nil (n : ℕ) (place : Value ρ) (s : ReaderState) :
    (r.readValue n place { s with current_ := [] }).NotOk := by
  cases n with
  | zero => trivial
  | succ n =>
    have htoken : r.skipCommentTokens [] = ⟨.tokenEndOfStream, [], []⟩ :=
      r.skipCommentTokens_eq rfl (by simp)
    rw [readValue]
    split
    · trivial
    · simp only [htoken]
      rfl

/-- **A `[` at the end of the document is an empty array exactly if a `]` is behind the
document.** -/
theorem parse_openArray (hlimit : 0 < r.features_.stackLimit_) {s t : List UInt8}
    (hs : JsonGrammar.Blank s) (ht : JsonGrammar.Blank t) (root : Value ρ) :
    r.parse (s ++ 0x5B :: t) root = .done (true, .arrayValue [], []) ↔ r.past = 0x5D := by
  obtain ⟨n, hn⟩ : ∃ n, 2 * (s ++ 0x5B :: t).length + 1 = n + 2 := by
    refine ⟨2 * s.length + 2 * t.length + 1, ?_⟩
    rw [List.length_append, List.length_cons]
    omega
  have hspaces : skipSpaces (s ++ 0x5B :: t) = 0x5B :: t := by
    rw [skipSpaces_blank hs, skipSpaces_cons rfl]
  have hopen : r.skipCommentTokens (s ++ 0x5B :: t) = ⟨.tokenArrayBegin, 0x5B :: t, t⟩ :=
    r.skipCommentTokens_eq (r.readToken_eq hspaces rfl) (by simp)
  have hend : skipSpaces t = [] := by
    have h := skipSpaces_blank ht []
    rwa [List.append_nil] at h
  have htoken : r.skipCommentTokens [] = ⟨.tokenEndOfStream, [], []⟩ :=
    r.skipCommentTokens_eq rfl (by simp)
  have hvalue : r.readValue (n + 2) root ⟨s ++ 0x5B :: t, [], 0⟩ =
      if r.past = 0x5D then .done ⟨true, .arrayValue [], ⟨[], [], 0⟩⟩
      else (r.readArray (n + 1) 0 [] ⟨[], [], 1⟩).leave := by
    have hpositive : ¬ ((0 : ℕ) : ℤ) ≥ r.features_.stackLimit_ := by omega
    rw [readValue, if_neg hpositive, hopen]
    simp only [ReaderState.behind, ReaderState.enter, hend, List.headD_nil]
    rfl
  constructor
  · intro hparse
    by_contra hpast
    refine parse_of_notOk ?_ _ _ hparse
    rw [hn, hvalue, if_neg hpast]
    exact (notOk_readArray (r.notOk_nil _ _ ⟨[], [], 1⟩)).leave
  · intro hpast
    rw [parse, hn, hvalue, if_pos hpast]
    simp only [htoken]
    rw [if_neg (fun h => h.2.2 rfl), if_neg (fun h => absurd h.2.1 (by decide : ¬ (!true) = true))]

theorem parse_openArray_string :
    (⟨.setDefaults, true, 0, .half⟩ : OurReader Unit).parse (ascii " [") .nullValue =
      .done (true, .arrayValue [], []) ↔ (0 : UInt8) = 0x5D :=
  parse_openArray (⟨.setDefaults, true, 0, .half⟩ : OurReader Unit) (by decide)
    JsonGrammar.blank_space JsonGrammar.blank_nil .nullValue

end OurReader

end LinuxDemo.Json

/-
LinuxDemo/JsonReaderRun.lean

What the JSON reader does with any document, well formed or not.

A token read goes forward, and takes a byte unless it is the end of the
stream (`ReadsToken`).  So the calls of `readValue`, `readObject` and
`readArray` are bounded by the bytes that are left, and all of what they leave
is one invariant of a call that returns (`Reads`): they go forward, they add one
error if they fail and none if they do not, the error is about a part of what
was left, and the maps they build are in order.  A call that throws does so for
one of three reasons (`Throws`).
-/
import LinuxDemo.JsonReader

namespace LinuxDemo.Json

/-! ### Tokens go forward -/

theorem skipSpaces_suffix (current : List UInt8) : skipSpaces current <:+ current :=
  List.dropWhile_suffix _

theorem getNextChar_suffix (current : List UInt8) : (getNextChar current).2 <:+ current := by
  cases current with
  | nil => exact List.suffix_refl _
  | cons c current => exact List.suffix_cons c current

theorem matchPattern_suffix (pattern current : List UInt8) :
    (matchPattern pattern current).2 <:+ current := by
  rw [matchPattern]
  split
  · exact List.drop_suffix _ _
  · exact List.suffix_refl _

theorem readCStyleLoop_suffix (past : UInt8) (current : List UInt8) :
    readCStyleLoop past current <:+ current := by
  induction current with
  | nil => exact List.suffix_refl _
  | cons c current ih =>
    rw [readCStyleLoop]
    split
    · exact List.suffix_cons c current
    · exact ih.trans (List.suffix_cons c current)

theorem readCppStyleComment_suffix (current : List UInt8) :
    readCppStyleComment current <:+ current := by
  induction current with
  | nil => exact List.suffix_refl _
  | cons c current ih =>
    rw [readCppStyleComment]
    split
    · exact List.suffix_cons c current
    · split
      · split
        · exact (List.tail_suffix current).trans (List.suffix_cons c current)
        · exact List.suffix_cons c current
      · exact ih.trans (List.suffix_cons c current)

theorem readComment_suffix (past : UInt8) (current : List UInt8) :
    (readComment past current).2 <:+ current := by
  have hnext := getNextChar_suffix current
  rw [readComment]
  split
  · exact ((getNextChar_suffix _).trans (readCStyleLoop_suffix past _)).trans hnext
  · split
    · exact (readCppStyleComment_suffix _).trans hnext
    · exact hnext

theorem readStringLoop_suffix (quote c : UInt8) (current : List UInt8) :
    (readStringLoop quote c current).2 <:+ current := by
  fun_induction readStringLoop quote c current with
  | case1 => exact List.suffix_refl _
  | case2 c c' => exact List.nil_suffix
  | case3 c d current ih =>
    exact ih.trans ((List.suffix_cons d current).trans (List.suffix_cons _ _))
  | case4 => exact List.suffix_cons _ _
  | case5 c c' d current _ _ ih => exact ih.trans (List.suffix_cons _ _)

theorem readFraction_suffix (current : List UInt8) : readFraction current <:+ current := by
  rw [readFraction]
  split
  · exact (List.dropWhile_suffix _).trans (List.tail_suffix current)
  · exact List.suffix_refl _

theorem readSign_suffix (current : List UInt8) : readSign current <:+ current := by
  rw [readSign]
  split
  · exact List.tail_suffix current
  · exact List.suffix_refl _

theorem readExponent_suffix (current : List UInt8) : readExponent current <:+ current := by
  rw [readExponent]
  split
  · exact ((List.dropWhile_suffix _).trans (readSign_suffix _)).trans (List.tail_suffix current)
  · exact List.suffix_refl _

theorem readNumber_suffix (current : List UInt8) : readNumber current <:+ current :=
  ((readExponent_suffix _).trans (readFraction_suffix _)).trans (List.dropWhile_suffix _)

namespace OurReader

variable {ρ : Type*} (r : OurReader ρ)

theorem scanToken_suffix (c : UInt8) (current : List UInt8) :
    (r.scanToken c current).2.2 <:+ current := by
  have hcomment := readComment_suffix r.past current
  unfold scanToken
  split
  case h_5 => exact readStringLoop_suffix _ _ _
  case h_6 =>
    split
    · exact List.suffix_refl _
    · split
      · exact readStringLoop_suffix _ _ _
      · exact hcomment
  case h_7 => exact hcomment
  all_goals first
    | exact List.suffix_refl _
    | exact readNumber_suffix _
    | exact matchPattern_suffix _ _

end OurReader

/-- How many brackets could open a container. -/
def openings (current : List UInt8) : ℕ := current.countP fun c => c = 0x5B ∨ c = 0x7B

theorem openings_mono {current current' : List UInt8} (h : current <:+ current') :
    openings current ≤ openings current' := h.sublist.countP_le

theorem openings_bracket {c : UInt8} (h : c = 0x5B ∨ c = 0x7B) (current : List UInt8) :
    openings current < openings (c :: current) := by
  rw [openings, openings, List.countP_cons_of_pos (by simpa using h)]
  exact Nat.lt_succ_self _

/-- A token that was read from `current`. -/
structure ReadsToken (current : List UInt8) (token : Token) : Prop where
  start_suffix : token.start_ <:+ current
  end_suffix : token.end_ <:+ token.start_
  progress : token.type_ ≠ .tokenEndOfStream → token.end_.length < current.length
  opens : token.type_ = .tokenObjectBegin ∨ token.type_ = .tokenArrayBegin →
    openings token.end_ < openings current

theorem ReadsToken.behind {current : List UInt8} {token : Token} (h : ReadsToken current token) :
    token.end_ <:+ current := h.end_suffix.trans h.start_suffix

/-- A token that is read later. -/
theorem ReadsToken.mono {current current' : List UInt8} {token : Token}
    (h : ReadsToken current token) (hsuffix : current <:+ current') : ReadsToken current' token where
  start_suffix := h.start_suffix.trans hsuffix
  end_suffix := h.end_suffix
  progress hne := Nat.lt_of_lt_of_le (h.progress hne) hsuffix.length_le
  opens htype := Nat.lt_of_lt_of_le (h.opens htype) (openings_mono hsuffix)

namespace OurReader

variable {ρ : Type*} (r : OurReader ρ)

/-- A token that opens a container is its bracket. -/
theorem readToken_opens {current : List UInt8}
    (h : (r.readToken current).type_ = .tokenObjectBegin ∨
      (r.readToken current).type_ = .tokenArrayBegin) :
    openings (r.readToken current).end_ < openings (skipSpaces current) := by
  rw [readToken] at h ⊢
  rcases hstart : skipSpaces current with _ | ⟨c, cs⟩
  · rw [hstart] at h
    rcases h with h | h <;> exact TokenType.noConfusion h
  · rw [hstart] at h
    have hc : c = 0x7B ∨ c = 0x5B := by
      by_contra hc
      obtain ⟨hobject, harray⟩ := not_or.mp hc
      revert h
      simp only [getNextChar]
      unfold scanToken
      split
      case h_1 => exact absurd rfl hobject
      case h_3 => exact absurd rfl harray
      all_goals
        repeat' split
        all_goals rintro (h | h) <;> exact TokenType.noConfusion h
    rcases hc with rfl | rfl
    · exact openings_bracket (.inr rfl) cs
    · exact openings_bracket (.inl rfl) cs

theorem readsToken_readToken (current : List UInt8) : ReadsToken current (r.readToken current) := by
  have hspaces := skipSpaces_suffix current
  have hscan := r.scanToken_suffix (getNextChar (skipSpaces current)).1
    (getNextChar (skipSpaces current)).2
  refine ⟨hspaces, hscan.trans (getNextChar_suffix _), fun hne => ?_, fun htype =>
    Nat.lt_of_lt_of_le (r.readToken_opens htype) (openings_mono hspaces)⟩
  rcases hstart : skipSpaces current with _ | ⟨c, cs⟩
  · refine absurd ?_ hne
    rw [readToken, hstart]
    rfl
  · have hlen := hspaces.length_le
    rw [hstart, List.length_cons] at hlen
    have hend : (r.readToken current).end_.length ≤ cs.length := by
      rw [hstart] at hscan
      simpa only [readToken, hstart, getNextChar] using hscan.length_le
    omega

theorem readsToken_skipCommentsLoop (n : ℕ) (current : List UInt8) :
    ReadsToken current (r.skipCommentsLoop n current) := by
  induction n generalizing current with
  | zero => exact r.readsToken_readToken current
  | succ n ih =>
    rw [skipCommentsLoop]
    split
    · exact (ih _).mono (r.readsToken_readToken current).behind
    · exact r.readsToken_readToken current

theorem readsToken_skipComments (current : List UInt8) :
    ReadsToken current (r.skipComments current) := r.readsToken_skipCommentsLoop _ current

theorem readsToken_skipCommentTokens (current : List UInt8) :
    ReadsToken current (r.skipCommentTokens current) := by
  rw [skipCommentTokens]
  split
  · exact r.readsToken_skipComments current
  · exact r.readsToken_readToken current

theorem recoverLoop_suffix (skipUntilToken : TokenType) (n : ℕ) (current : List UInt8) :
    r.recoverLoop skipUntilToken n current <:+ current := by
  induction n generalizing current with
  | zero => exact (r.readsToken_readToken current).behind
  | succ n ih =>
    rw [recoverLoop]
    split
    · exact (r.readsToken_readToken current).behind
    · exact (ih _).trans (r.readsToken_readToken current).behind

end OurReader

/-! ### Errors are about the document -/

/-- An error about a part of `current`. -/
structure ErrorInfo.Within (current : List UInt8) (info : ErrorInfo) : Prop where
  start_suffix : info.token_.start_ <:+ current
  end_suffix : info.token_.end_ <:+ info.token_.start_
  extra_suffix : ∀ location ∈ info.extra_, location <:+ info.token_.start_

theorem ErrorInfo.Within.mono {current current' : List UInt8} {info : ErrorInfo}
    (h : info.Within current) (hsuffix : current <:+ current') : info.Within current' :=
  ⟨h.start_suffix.trans hsuffix, h.end_suffix, h.extra_suffix⟩

/-- An error about a token, without a second location. -/
theorem ReadsToken.within {current : List UInt8} {token : Token} (h : ReadsToken current token)
    (message : List UInt8) : ErrorInfo.Within current ⟨token, message, none⟩ :=
  ⟨h.start_suffix, h.end_suffix, fun _ hlocation => nomatch hlocation⟩

/-- Where a step of the decoding is when it returns or fails. -/
def located {α β : Type*} : Except (α × List UInt8) (β × List UInt8) → List UInt8
  | .ok res => res.2
  | .error e => e.2

theorem unicodeDigits_suffix (n : ℕ) (unicode : UInt32) (current : List UInt8) :
    located (unicodeDigits n unicode current) <:+ current := by
  induction n generalizing unicode current with
  | zero => exact List.suffix_refl _
  | succ n ih =>
    rw [unicodeDigits]
    split
    · exact (ih _ _).trans (getNextChar_suffix current)
    · exact getNextChar_suffix current

theorem decodeUnicodeEscapeSequence_suffix (current : List UInt8) :
    located (decodeUnicodeEscapeSequence current) <:+ current := by
  rw [decodeUnicodeEscapeSequence]
  split
  · exact List.suffix_refl _
  · exact unicodeDigits_suffix 4 0 current

theorem decodeSurrogatePair_suffix (unicode : UInt32) (current : List UInt8) :
    located (decodeSurrogatePair unicode current) <:+ current := by
  have hsecond := (decodeUnicodeEscapeSequence_suffix (current.drop 2)).trans (List.drop_suffix 2 _)
  rw [decodeSurrogatePair]
  split
  · exact List.suffix_refl _
  · split
    · rcases hseq : decodeUnicodeEscapeSequence (current.drop 2) with e | second
      · rw [hseq] at hsecond
        exact hsecond
      · rw [hseq] at hsecond
        rw [Except.map, located]
        exact hsecond
    · rw [located]
      split
      · exact List.drop_suffix _ _
      · exact List.drop_suffix _ _

theorem decodeUnicodeCodePoint_suffix (current : List UInt8) :
    located (decodeUnicodeCodePoint current) <:+ current := by
  have hfirst := decodeUnicodeEscapeSequence_suffix current
  rw [decodeUnicodeCodePoint]
  split
  · rename_i e hseq
    rwa [hseq] at hfirst
  · rename_i unicode current' hseq
    rw [hseq] at hfirst
    split
    · exact (decodeSurrogatePair_suffix _ _).trans hfirst
    · exact hfirst

theorem decodeStringLoop_error {n : ℕ} {current decoded : List UInt8}
    {e : List UInt8 × List UInt8} (h : decodeStringLoop n current decoded = .error e) :
    e.2 <:+ current := by
  induction n generalizing current decoded with
  | zero => cases h
  | succ n ih =>
    rcases current with _ | ⟨c, current⟩
    · cases h
    · refine List.IsSuffix.trans ?_ (List.suffix_cons c current)
      unfold decodeStringLoop at h
      split at h
      · cases h
      · split at h
        · split at h
          · cases h
            exact List.suffix_refl _
          · rename_i escape current
            refine List.IsSuffix.trans ?_ (List.suffix_cons escape current)
            split at h
            · exact ih h
            · split at h
              · have hpoint := decodeUnicodeCodePoint_suffix current
                split at h
                · rename_i hpair
                  rw [hpair] at hpoint
                  exact (ih h).trans hpoint
                · rename_i hpair
                  rw [hpair] at hpoint
                  cases h
                  exact hpoint
              · cases h
                exact List.suffix_refl _
        · exact ih h

/-- The bytes between the quotes, and the rest from the closing quote on. -/
theorem Token.content_append (token : Token) :
    token.content ++ token.start_.drop (token.content.length + 1) = token.start_.tail := by
  have htext : token.text.tail <+: token.start_.tail := by
    rw [Token.text, ← List.drop_one, ← List.drop_one, List.drop_take]
    exact List.take_prefix _ _
  have hprefix : token.content <+: token.start_.tail := (List.dropLast_prefix _).trans htext
  obtain ⟨rest, hrest⟩ := hprefix
  have hdrop : token.start_.drop (token.content.length + 1) = rest := by
    rw [← List.drop_tail, ← hrest, List.drop_left]
  rw [hdrop, hrest]

theorem decodeString_within {current : List UInt8} {token : Token} {info : ErrorInfo}
    (ht : ReadsToken current token) (h : decodeString token = .error info) :
    info.Within current := by
  rcases hcontent : decodeContent token.content with e | decoded
  · rw [decodeString, hcontent] at h
    cases h
    have hsuffix : e.2 <:+ token.content := decodeStringLoop_error hcontent
    refine ⟨ht.start_suffix, ht.end_suffix, fun location hlocation => ?_⟩
    obtain rfl := Option.some.inj hlocation
    obtain ⟨before, hbefore⟩ := hsuffix
    refine List.IsSuffix.trans ⟨before, ?_⟩ (List.tail_suffix token.start_)
    show before ++ (e.2 ++ _) = _
    rw [← List.append_assoc, hbefore, token.content_append]
  · rw [decodeString, hcontent] at h
    cases h

namespace OurReader

variable {ρ : Type*} (r : OurReader ρ)

theorem decodeNumber_within {current : List UInt8} {token : Token} {info : ErrorInfo}
    (ht : ReadsToken current token) (h : r.decodeNumber token = .error info) :
    info.Within current := by
  rw [decodeNumber] at h
  split at h
  · cases h
  · rw [decodeDouble] at h
    split at h
    · cases h
      exact ht.within _
    · split at h
      · cases h
      · cases h
        exact ht.within _

theorem memberName_within {current : List UInt8} {tokenName : Token} {info : ErrorInfo}
    (ht : ReadsToken current tokenName) (h : r.memberName tokenName = some (.error info)) :
    info.Within current := by
  rw [memberName] at h
  split at h
  · exact decodeString_within ht (Option.some.inj h)
  · split at h
    · split at h
      · cases h
      · rename_i e hnumber
        cases h
        exact r.decodeNumber_within ht hnumber
    · cases h

end OurReader

/-! ### Numbers and strings are values -/

namespace Value

variable {ρ : Type*}

theorem wf_of_decodeInteger {text : List UInt8} {v : Value ρ} (h : decodeInteger text = some v) :
    v.WF := by
  obtain ⟨value, -, rfl⟩ := Option.map_eq_some_iff.mp h
  split
  · trivial
  · split
    · trivial
    · trivial

theorem wf_of_decodeNumber {r : OurReader ρ} {token : Token} {v : Value ρ}
    (h : r.decodeNumber token = .ok v) : v.WF := by
  rw [OurReader.decodeNumber] at h
  split at h
  · rename_i decoded hinteger
    cases h
    exact wf_of_decodeInteger hinteger
  · rw [OurReader.decodeDouble] at h
    split at h
    · cases h
    · split at h
      · cases h
        trivial
      · cases h

theorem wf_of_ofString {s : List UInt8} {v : Value ρ} (h : ofString s = .ok v) : v.WF := by
  rw [ofString] at h
  split at h
  · rename_i hle
    cases h
    show (s.take _).length < 2 ^ 31 - 5
    rw [List.length_take]
    omega
  · cases h

theorem WF.set {m : List (ℕ × Value ρ)} {v : Value ρ} (hm : (arrayValue m).WF) (hv : v.WF)
    (index : ℕ) : (arrayValue (OrdMap.set index v m)).WF := by
  obtain ⟨hsorted, hm⟩ := everywhere_arrayValue.mp hm
  refine everywhere_arrayValue.mpr ⟨OrdMap.Sorted.set hsorted index v, fun e he => ?_⟩
  rcases OrdMap.mem_set he with rfl | he
  · exact hv
  · exact hm e he

theorem WF.setMember {m : List (List UInt8 × Value ρ)} {v : Value ρ} (hm : (objectValue m).WF)
    (hv : v.WF) (name : List UInt8) : (objectValue (OrdMap.set name v m)).WF := by
  obtain ⟨hsorted, hm⟩ := everywhere_objectValue.mp hm
  refine everywhere_objectValue.mpr ⟨OrdMap.Sorted.set hsorted name v, fun e he => ?_⟩
  rcases OrdMap.mem_set he with rfl | he
  · exact hv
  · exact hm e he

theorem WF.find {m : List (ℕ × Value ρ)} (hm : (arrayValue m).WF) (index : ℕ) :
    ((OrdMap.find m index).getD .nullValue).WF := by
  rcases hfind : OrdMap.find m index with _ | v
  · trivial
  · exact (everywhere_arrayValue.mp hm).2 _ (OrdMap.mem_of_find hfind)

theorem WF.findMember {m : List (List UInt8 × Value ρ)} (hm : (objectValue m).WF)
    (name : List UInt8) : ((OrdMap.find m name).getD .nullValue).WF := by
  rcases hfind : OrdMap.find m name with _ | v
  · trivial
  · exact (everywhere_objectValue.mp hm).2 _ (OrdMap.mem_of_find hfind)

end Value

/-! ### Texts are no longer than the document -/

theorem length_codePointToUTF8 (cp : UInt32) : (codePointToUTF8 cp).length ≤ 4 := by
  rw [codePointToUTF8]
  repeat' split
  all_goals simp

theorem length_unicodeDigits {n : ℕ} {unicode : UInt32} {current : List UInt8}
    {res : UInt32 × List UInt8} (h : unicodeDigits n unicode current = .ok res) :
    res.2.length + n ≤ current.length := by
  induction n generalizing unicode current with
  | zero =>
    cases h
    exact Nat.le_refl _
  | succ n ih =>
    rw [unicodeDigits] at h
    split at h
    · rename_i digit hdigit
      have hlen := ih h
      rcases current with _ | ⟨c, current⟩
      · have hend : hexDigitValue 0 = none := by decide
        exact absurd (hend.symm.trans hdigit) nofun
      · rw [List.length_cons]
        exact Nat.succ_le_succ hlen
    · cases h

theorem length_decodeUnicodeEscapeSequence {current : List UInt8} {res : UInt32 × List UInt8}
    (h : decodeUnicodeEscapeSequence current = .ok res) : res.2.length + 4 ≤ current.length := by
  rw [decodeUnicodeEscapeSequence] at h
  split at h
  · cases h
  · exact length_unicodeDigits h

/-- An escape is no shorter than what it stands for. -/
theorem length_decodeUnicodeCodePoint {current rest : List UInt8} {unicode : UInt32}
    (h : decodeUnicodeCodePoint current = .ok (unicode, rest)) :
    rest.length + 4 ≤ current.length := by
  rw [decodeUnicodeCodePoint] at h
  split at h
  · cases h
  · rename_i unicode' current' hfirst
    have hfirst := length_decodeUnicodeEscapeSequence hfirst
    split at h
    · have hsecond := decodeSurrogatePair_suffix unicode' current'
      rw [h] at hsecond
      exact (Nat.add_le_add_right hsecond.length_le 4).trans hfirst
    · cases h
      exact hfirst

theorem length_decodeStringLoop {n : ℕ} {current decoded out : List UInt8}
    (h : decodeStringLoop n current decoded = .ok out) :
    out.length ≤ decoded.length + current.length := by
  induction n generalizing current decoded with
  | zero =>
    cases h
    exact Nat.le_add_right _ _
  | succ n ih =>
    rcases current with _ | ⟨c, current⟩
    · cases h
      exact Nat.le_add_right _ _
    · rw [List.length_cons]
      unfold decodeStringLoop at h
      split at h
      · cases h
        exact Nat.le_add_right _ _
      · split at h
        · split at h
          · cases h
          · rename_i escape current
            rw [List.length_cons]
            split at h
            · have hlen := ih h
              rw [List.length_append, List.length_singleton] at hlen
              omega
            · split at h
              · split at h
                · rename_i unicode rest hpair
                  have hpoint := length_decodeUnicodeCodePoint hpair
                  have hutf8 := length_codePointToUTF8 unicode
                  have hlen := ih h
                  rw [List.length_append] at hlen
                  omega
                · cases h
              · cases h
        · have hlen := ih h
          rw [List.length_append, List.length_singleton] at hlen
          omega

theorem length_decodeString {current decoded : List UInt8} {token : Token}
    (ht : ReadsToken current token) (h : decodeString token = .ok decoded) :
    decoded.length ≤ current.length := by
  have hcontent : token.content.length ≤ token.start_.length := by
    rw [Token.content, Token.text, List.length_dropLast, List.length_tail, List.length_take]
    omega
  rcases hdecode : decodeContent token.content with e | out
  · rw [decodeString, hdecode] at h
    cases h
  · rw [decodeString, hdecode] at h
    cases h
    have hout := length_decodeStringLoop hdecode
    have hstart := ht.start_suffix.length_le
    rw [List.length_nil] at hout
    omega

/-! ### The calls -/

/-- What a call that returns has done since the state `s`. -/
structure Reads {ρ : Type*} (s : ReaderState) (result : Read ρ) : Prop where
  suffix : result.state.current_ <:+ s.current_
  wf : result.value.WF
  depth : result.ok = true → result.state.stackDepth_ = s.stackDepth_
  succeeds : result.ok = true → result.state.errors_ = s.errors_
  fails : result.ok = false →
    ∃ info : ErrorInfo, result.state.errors_ = s.errors_ ++ [info] ∧ info.Within s.current_

/-- Why a call from the state `s` throws. -/
inductive OurReader.Throws {ρ : Type*} (r : OurReader ρ) (s : ReaderState) : Exception → Prop
  | stackLimit (h : r.features_.stackLimit_ ≤ s.stackDepth_ + openings s.current_) :
      Throws r s (.runtimeError (ascii "Exceeded stackLimit in readValue()."))
  | keyLength (h : r.our = true ∧ (2 ^ 30 ≤ s.current_.length ∨
      r.features_.allowNumericKeys_ = true)) :
      Throws r s (.runtimeError (ascii "keylength >= 2^30"))
  | stringLength (h : 2 ^ 31 - 5 ≤ s.current_.length) :
      Throws r s (.logicError (ascii
        "in Json::Value::duplicateAndPrefixStringValue(): length too big for prefixing"))

/-- A call that does not run out of calls. -/
def Outcome.Meets {α : Type*} (P : α → Prop) (T : Exception → Prop) : Outcome α → Prop
  | .done result => P result
  | .thrown e => T e
  | .outOfCalls => False

variable {ρ : Type*} {r : OurReader ρ} {s s' : ReaderState} {result : Read ρ}

/-- The call did not read what it was to read. -/
def Outcome.NotOk : Outcome (Read ρ) → Prop
  | .done result => result.ok = false
  | .thrown _ => True
  | .outOfCalls => True

theorem Outcome.NotOk.leave {o : Outcome (Read ρ)} (h : o.NotOk) : o.leave.NotOk := by
  cases o with
  | done result => exact h
  | thrown e => trivial
  | outOfCalls => trivial

theorem OurReader.Throws.from {e : Exception} (hs : s'.current_ <:+ s.current_)
    (hdepth : s'.stackDepth_ + openings s'.current_ ≤ s.stackDepth_ + openings s.current_)
    (h : r.Throws s' e) : r.Throws s e := by
  have hlen := hs.length_le
  cases h with
  | stackLimit h => exact .stackLimit (by omega)
  | keyLength h => exact .keyLength ⟨h.1, h.2.imp (fun h => by omega) id⟩
  | stringLength h => exact .stringLength (by omega)

theorem OurReader.throws_of_ofString {t : List UInt8} {e : Exception}
    (ht : t.length ≤ s.current_.length) (h : (Value.ofString t : Except Exception (Value ρ)) = .error e) :
    r.Throws s e := by
  rw [Value.ofString] at h
  split at h
  · cases h
  · rename_i hgt
    cases h
    refine .stringLength ?_
    have hmod := Nat.mod_le t.length (2 ^ 32)
    omega

/-- A successful return. -/
theorem Reads.success {v : Value ρ} (hs : s'.current_ <:+ s.current_)
    (herrors : s'.errors_ = s.errors_) (hdepth : s'.stackDepth_ = s.stackDepth_) (hv : v.WF) :
    Reads s ⟨true, v, s'⟩ :=
  ⟨hs, hv, fun _ => hdepth, fun _ => herrors, nofun⟩

/-- A return with the first error. -/
theorem Reads.failure {v : Value ρ} {info : ErrorInfo} (hs : s'.current_ <:+ s.current_)
    (herrors : s'.errors_ = s.errors_ ++ [info]) (hinfo : info.Within s.current_) (hv : v.WF) :
    Reads s ⟨false, v, s'⟩ :=
  ⟨hs, hv, nofun, nofun, fun _ => ⟨info, herrors, hinfo⟩⟩

/-- A state further on, at the same depth and without new errors. -/
structure Onward (s s' : ReaderState) : Prop where
  suffix : s'.current_ <:+ s.current_
  errors : s'.errors_ = s.errors_
  depth : s'.stackDepth_ = s.stackDepth_

theorem Onward.trans {s'' : ReaderState} (h : Onward s s') (h' : Onward s' s'') : Onward s s'' :=
  ⟨h'.suffix.trans h.suffix, h'.errors.trans h.errors, h'.depth.trans h.depth⟩

theorem ReadsToken.onward {token : Token} (h : ReadsToken s.current_ token) :
    Onward s (s.behind token) := ⟨h.behind, rfl, rfl⟩

theorem Reads.onward {v : Value ρ} (h : Reads s ⟨true, v, s'⟩) : Onward s s' :=
  ⟨h.suffix, h.succeeds rfl, h.depth rfl⟩

/-- The rest of a loop. -/
theorem Outcome.Meets.from {o : Outcome (Read ρ)} (h : o.Meets (Reads s') (r.Throws s'))
    (hs : Onward s s') : o.Meets (Reads s) (r.Throws s) := by
  cases o with
  | done result =>
    refine ⟨h.suffix.trans hs.suffix, h.wf, fun hok => (h.depth hok).trans hs.depth,
      fun hok => (h.succeeds hok).trans hs.errors, fun hok => ?_⟩
    obtain ⟨info, hinfo, hwithin⟩ := h.fails hok
    exact ⟨info, hs.errors ▸ hinfo, hwithin.mono hs.suffix⟩
  | thrown e =>
    have hopens := openings_mono hs.suffix
    have hdepth := hs.depth
    exact OurReader.Throws.from hs.suffix (by omega) h
  | outOfCalls => exact h

/-- A container was read, one level further down. -/
theorem Outcome.Meets.leave {o : Outcome (Read ρ)} (h : o.Meets (Reads s') (r.Throws s'))
    (hs : s'.current_ <:+ s.current_) (herrors : s'.errors_ = s.errors_)
    (hdepth : s'.stackDepth_ = s.stackDepth_ + 1)
    (hopens : openings s'.current_ < openings s.current_) :
    o.leave.Meets (Reads s) (r.Throws s) := by
  cases o with
  | done result =>
    refine ⟨h.suffix.trans hs, h.wf, fun hok => ?_, fun hok => (h.succeeds hok).trans herrors,
      fun hok => ?_⟩
    · show result.state.stackDepth_ - 1 = s.stackDepth_
      rw [h.depth hok, hdepth, Nat.add_sub_cancel]
    · obtain ⟨info, hinfo, hwithin⟩ := h.fails hok
      exact ⟨info, herrors ▸ hinfo, hwithin.mono hs⟩
  | thrown e => exact OurReader.Throws.from hs (by omega) h
  | outOfCalls => exact h

namespace OurReader

variable (r : OurReader ρ)

theorem recoverFromError_suffix (s : ReaderState) (skipUntilToken : TokenType) :
    (r.recoverFromError s skipUntilToken).current_ <:+ s.current_ :=
  r.recoverLoop_suffix skipUntilToken _ _

/-- With a number of calls that is enough for what is left, `n`. -/
structure Calls (n : ℕ) : Prop where
  value : ∀ (v : Value ρ) (s : ReaderState), v.WF → 2 * s.current_.length + 1 ≤ n →
    (r.readValue n v s).Meets (Reads s) (r.Throws s)
  object : ∀ (name : List UInt8) (m : List (List UInt8 × Value ρ)) (s : ReaderState),
    (Value.objectValue m).WF → 2 * s.current_.length + 1 ≤ n →
    (r.readObject n name m s).Meets (Reads s) (r.Throws s)
  array : ∀ (index : ℕ) (m : List (ℕ × Value ρ)) (s : ReaderState),
    (Value.arrayValue m).WF → 2 * s.current_.length + 2 ≤ n →
    (r.readArray n index m s).Meets (Reads s) (r.Throws s)

variable {r} {n : ℕ}

theorem Calls.value_succ (hc : r.Calls n) {v : Value ρ} (hv : v.WF)
    (hn : 2 * s.current_.length + 1 ≤ n + 1) :
    (r.readValue (n + 1) v s).Meets (Reads s) (r.Throws s) := by
  rw [readValue]
  split
  · exact Throws.stackLimit (by omega)
  · have ht := r.readsToken_skipCommentTokens s.current_
    dsimp only
    generalize r.skipCommentTokens s.current_ = token at ht ⊢
    cases htype : token.type_ with
    | tokenObjectBegin =>
      have hprogress := ht.progress (by rw [htype]; decide)
      have hempty : (Value.objectValue [] : Value ρ).WF :=
        Value.everywhere_objectValue.mpr ⟨List.Pairwise.nil, nofun⟩
      refine (hc.object [] [] (s.enter.behind token) hempty ?_).leave ht.behind rfl rfl (ht.opens (.inl htype))
      show 2 * token.end_.length + 1 ≤ n
      omega
    | tokenArrayBegin =>
      have hprogress := ht.progress (by rw [htype]; decide)
      have hspaces := skipSpaces_suffix token.end_
      have hempty : (Value.arrayValue [] : Value ρ).WF :=
        Value.everywhere_arrayValue.mpr ⟨List.Pairwise.nil, nofun⟩
      dsimp only
      split
      · have hclose := r.readsToken_readToken (skipSpaces token.end_)
        exact Reads.success ((hclose.behind.trans hspaces).trans ht.behind) rfl rfl hempty
      · have hopens := Nat.lt_of_le_of_lt (openings_mono hspaces) (ht.opens (.inr htype))
        refine (hc.array 0 [] _ hempty ?_).leave (hspaces.trans ht.behind) rfl rfl hopens
        have hlen := hspaces.length_le
        show 2 * (skipSpaces token.end_).length + 2 ≤ n
        omega
    | tokenNumber =>
      dsimp only
      split
      · rename_i decoded hnumber
        exact Reads.success ht.behind rfl rfl (Value.wf_of_decodeNumber hnumber)
      · rename_i info hnumber
        exact Reads.failure ht.behind rfl (r.decodeNumber_within ht hnumber) hv
    | tokenString =>
      dsimp only
      split
      · rename_i decoded_string hstring
        split
        · rename_i decoded hvalue
          exact Reads.success ht.behind rfl rfl (Value.wf_of_ofString hvalue)
        · rename_i e hvalue
          exact throws_of_ofString (length_decodeString ht hstring) hvalue
      · rename_i info hstring
        exact Reads.failure ht.behind rfl (decodeString_within ht hstring) hv
    | tokenTrue | tokenFalse | tokenNull => exact Reads.success ht.behind rfl rfl trivial
    | tokenArraySeparator | tokenObjectEnd | tokenArrayEnd =>
      dsimp only
      split
      · exact Reads.success ht.start_suffix rfl rfl trivial
      · exact Reads.failure ht.behind rfl (ht.within _) hv
    | tokenEndOfStream | tokenMemberSeparator | tokenComment | tokenError =>
      exact Reads.failure ht.behind rfl (ht.within _) hv

theorem memberName_type {tokenName : Token} (h : r.memberName tokenName ≠ none) :
    tokenName.type_ ≠ .tokenEndOfStream := by
  intro htype
  rw [memberName, htype] at h
  exact h rfl

theorem memberName_length {tokenName : Token} {name : List UInt8}
    (ht : ReadsToken s.current_ tokenName) (h : r.memberName tokenName = some (.ok name)) :
    name.length ≤ s.current_.length ∨ r.features_.allowNumericKeys_ = true := by
  rw [memberName] at h
  split at h
  · exact .inl (length_decodeString ht (Option.some.inj h))
  · split at h
    · rename_i hnumeric
      exact .inr hnumeric.2
    · cases h

/-- The end of a round of `readObject`. -/
theorem Calls.memberRest_meets (hc : r.Calls n) {name : List UInt8}
    {m : List (List UInt8 × Value ρ)} {o : Outcome (Read ρ)} (hm : (Value.objectValue m).WF)
    (hn : 2 * s.current_.length + 1 ≤ n) (ho : o.Meets (Reads s) (r.Throws s)) :
    (r.memberRest name m (r.readObject n name) o).Meets (Reads s) (r.Throws s) := by
  cases o with
  | outOfCalls => exact ho
  | thrown e => exact ho
  | done result =>
    obtain ⟨ok, v, s₁⟩ := result
    have hread : Reads s ⟨ok, v, s₁⟩ := ho
    have hset := hm.setMember hread.wf name
    rw [memberRest]
    cases ok with
    | false =>
      obtain ⟨info, hinfo, hwithin⟩ := hread.fails rfl
      exact Reads.failure ((r.recoverFromError_suffix _ _).trans hread.suffix) hinfo hwithin hset
    | true =>
      have hcomma := r.readsToken_readToken s₁.current_
      simp only [Bool.not_true, Bool.false_eq_true, if_false]
      generalize r.readToken s₁.current_ = comma at hcomma ⊢
      refine Outcome.Meets.from ?_ hread.onward
      split
      · exact Reads.failure ((r.recoverFromError_suffix _ _).trans hcomma.behind) rfl
          (hcomma.within _) hset
      · have hcomma' : ReadsToken s₁.current_
            (if comma.type_ = .tokenComment then r.skipComments comma.end_ else comma) := by
          split
          · exact (r.readsToken_skipComments _).mono hcomma.behind
          · exact hcomma
        generalize (if comma.type_ = .tokenComment then r.skipComments comma.end_
          else comma) = comma' at hcomma' ⊢
        split
        · exact Reads.success hcomma'.behind rfl rfl hset
        · have hrest := (hcomma'.behind.trans hread.suffix).length_le
          refine Outcome.Meets.from (hc.object name _ _ hset ?_) hcomma'.onward
          show 2 * comma'.end_.length + 1 ≤ n
          omega

theorem Calls.object_succ (hc : r.Calls n) {name : List UInt8} {m : List (List UInt8 × Value ρ)}
    (hm : (Value.objectValue m).WF) (hn : 2 * s.current_.length + 1 ≤ n + 1) :
    (r.readObject (n + 1) name m s).Meets (Reads s) (r.Throws s) := by
  rw [readObject]
  dsimp only
  have hname := r.readsToken_skipComments s.current_
  generalize r.skipComments s.current_ = tokenName at hname ⊢
  have hcolon := r.readsToken_readToken (s.behind tokenName).current_
  generalize r.readToken (s.behind tokenName).current_ = colon at hcolon ⊢
  split
  · exact Reads.success hname.behind rfl rfl hm
  · split
    · exact Reads.failure ((r.recoverFromError_suffix _ _).trans hname.behind) rfl
        (hname.within _) hm
    · rename_i info hmember
      exact Reads.failure ((r.recoverFromError_suffix _ _).trans hname.behind) rfl
        (r.memberName_within hname hmember) hm
    · rename_i name hmember
      have hprogress := hname.progress (memberName_type (by rw [hmember]; nofun))
      have hbehind := hcolon.behind.trans hname.behind
      split
      · exact Reads.failure ((r.recoverFromError_suffix _ _).trans hbehind) rfl
          ((hcolon.within _).mono hname.behind) hm
      · rename_i hcolonType
        have hcolonProgress := hcolon.progress (by rw [not_not.mp hcolonType]; decide)
        split
        · rename_i hlong
          exact Throws.keyLength ⟨hlong.1, (memberName_length hname hmember).imp_left
            hlong.2.trans⟩
        · split
          · exact Reads.failure ((r.recoverFromError_suffix _ _).trans hbehind) rfl
              (hname.within _) hm
          · have hlen : 2 * ((s.behind tokenName).behind colon).current_.length + 1 ≤ n := by
              have hlt : ((s.behind tokenName).behind colon).current_.length <
                tokenName.end_.length := hcolonProgress
              omega
            have hread := hc.value ((OrdMap.find m name).getD .nullValue)
              ((s.behind tokenName).behind colon) (hm.findMember name) hlen
            exact (hc.memberRest_meets hm hlen hread).from (hname.onward.trans hcolon.onward)

theorem Calls.array_succ (hc : r.Calls n) {index : ℕ} {m : List (ℕ × Value ρ)}
    (hm : (Value.arrayValue m).WF) (hn : 2 * s.current_.length + 2 ≤ n + 1) :
    (r.readArray (n + 1) index m s).Meets (Reads s) (r.Throws s) := by
  rw [readArray]
  have hread := hc.value ((OrdMap.find m index).getD .nullValue) s (hm.find index) (by omega)
  split
  · rename_i hvalue
    rwa [hvalue] at hread
  · rename_i e hvalue
    rwa [hvalue] at hread
  · rename_i ok v s₁ hvalue
    rw [hvalue] at hread
    have hset := hm.set hread.wf index
    cases ok with
    | false =>
      obtain ⟨info, hinfo, hwithin⟩ := hread.fails rfl
      exact Reads.failure ((r.recoverFromError_suffix _ _).trans hread.suffix) hinfo hwithin hset
    | true =>
      have ht := r.readsToken_skipComments s₁.current_
      simp only [Bool.not_true, Bool.false_eq_true, if_false]
      generalize r.skipComments s₁.current_ = token at ht ⊢
      refine Outcome.Meets.from ?_ hread.onward
      split
      · exact Reads.failure ((r.recoverFromError_suffix _ _).trans ht.behind) rfl (ht.within _) hset
      · rename_i htype
        split
        · exact Reads.success ht.behind rfl rfl hset
        · have hprogress := ht.progress fun htype' => htype (by rw [htype']; decide)
          have hrest := hread.suffix.length_le
          refine Outcome.Meets.from (hc.array _ _ _ hset ?_) ht.onward
          show 2 * token.end_.length + 2 ≤ n
          have hle : s₁.current_.length ≤ s.current_.length := hrest
          omega

/-- **No call runs out of calls.** -/
theorem calls (n : ℕ) : r.Calls n := by
  induction n with
  | zero => exact ⟨fun _ _ _ h => by omega, fun _ _ _ _ h => by omega, fun _ _ _ _ h => by omega⟩
  | succ n ih =>
    exact ⟨fun _ _ hv hn => ih.value_succ hv hn, fun _ _ _ hm hn => ih.object_succ hm hn,
      fun _ _ _ hm hn => ih.array_succ hm hn⟩

/-! ### Documents -/

/-- What a parse that returns leaves: a value that is well formed, and an error
if and only if it fails, two at most, each about a part of the document. -/
structure Parses (document : List UInt8) (res : Bool × Value ρ × List ErrorInfo) : Prop where
  wf : res.2.1.WF
  successful : res.1 = true ↔ res.2.2 = []
  few : res.2.2.length ≤ 2
  within : ∀ info ∈ res.2.2, info.Within document

theorem Parses.append {document : List UInt8} {root : Value ρ} {errors_ : List ErrorInfo}
    {info : ErrorInfo} (hroot : root.WF) (hfew : errors_.length ≤ 1)
    (hwithin : ∀ info ∈ errors_, info.Within document) (hinfo : info.Within document) :
    Parses document (false, root, errors_ ++ [info]) where
  wf := hroot
  successful := ⟨nofun, fun h => absurd h (List.append_ne_nil_of_right_ne_nil _ nofun)⟩
  few := by
    rw [List.length_append, List.length_singleton]
    omega
  within := List.forall_mem_append.mpr ⟨hwithin, List.forall_mem_singleton.mpr hinfo⟩

/-- `parse` never needs more calls than it has. -/
theorem parse_meets (r : OurReader ρ) (document : List UInt8) {root : Value ρ} (hroot : root.WF) :
    (r.parse document root).Meets (Parses document) (r.Throws ⟨document, [], 0⟩) := by
  have hread := (r.calls (2 * document.length + 1)).value root ⟨document, [], 0⟩ hroot
    (Nat.le_refl _)
  rw [parse]
  split
  · rename_i hvalue
    rwa [hvalue] at hread
  · rename_i e hvalue
    rwa [hvalue] at hread
  · rename_i successful root s hvalue
    rw [hvalue] at hread
    have hfew : s.errors_.length ≤ 1 ∧ ∀ info ∈ s.errors_, info.Within document := by
      cases successful with
      | true =>
        have hnil : s.errors_ = [] := hread.succeeds rfl
        rw [hnil]
        exact ⟨Nat.zero_le _, nofun⟩
      | false =>
        obtain ⟨info, hinfo, hwithin⟩ := hread.fails rfl
        have hone : s.errors_ = [info] := hinfo
        rw [hone]
        exact ⟨Nat.le_refl _, List.forall_mem_singleton.mpr hwithin⟩
    have ht := (r.readsToken_skipCommentTokens s.current_).mono hread.suffix
    dsimp only
    split
    · exact Parses.append hread.wf hfew.1 hfew.2 (ht.within _)
    · split
      · exact Parses.append hread.wf hfew.1 hfew.2 ⟨List.suffix_refl _, List.nil_suffix, nofun⟩
      · refine ⟨hread.wf, ⟨hread.succeeds, fun hnil => ?_⟩, hfew.1.trans (by decide), hfew.2⟩
        cases successful with
        | true => rfl
        | false =>
          obtain ⟨info, hinfo, -⟩ := hread.fails rfl
          exact absurd (hinfo.symm.trans hnil) (List.append_ne_nil_of_right_ne_nil _ nofun)

/-- **A document of less than 1 GiB with fewer brackets than the stack limit is read
without an exception**, unless a number may be a name, or comments are collected. -/
theorem parse_returns (r : OurReader ρ) {document : List UInt8} {root : Value ρ}
    (hroot : root.WF) (hstack : (openings document : ℤ) < r.features_.stackLimit_)
    (hlength : document.length < 2 ^ 30) (hkeys : r.features_.allowNumericKeys_ = false) :
    ∃ res, r.parse document root = .done res ∧ Parses document res := by
  have hmeets := r.parse_meets document hroot
  rcases hparse : r.parse document root with res | e | _
  · rw [hparse] at hmeets
    exact ⟨res, rfl, hmeets⟩
  · rw [hparse] at hmeets
    cases hmeets with
    | stackLimit h =>
      simp only at h
      omega
    | keyLength h =>
      rw [hkeys] at h
      simp only [Bool.false_eq_true, or_false] at h
      omega
    | stringLength h =>
      simp only at h
      omega
  · rw [hparse] at hmeets
    exact hmeets.elim

theorem parse_returns_unclosed :
    ∃ res, (⟨.setDefaults, true, 0, .half⟩ : OurReader Unit).parse (ascii "[1, \x7b") .nullValue =
      .done res ∧ Parses (ascii "[1, \x7b") res :=
  parse_returns _ trivial (by decide) (by decide) rfl

/-! ### Calls that fail -/

/-- A value that is not read ends the array. -/
theorem notOk_readArray {index : ℕ} {m : List (ℕ × Value ρ)}
    (h : (r.readValue n ((OrdMap.find m index).getD .nullValue) s).NotOk) :
    (r.readArray (n + 1) index m s).NotOk := by
  rw [readArray]
  cases hread : r.readValue n ((OrdMap.find m index).getD .nullValue) s with
  | done result =>
    obtain ⟨ok, v, s'⟩ := result
    rw [hread] at h
    obtain rfl : ok = false := h
    rfl
  | thrown e => trivial
  | outOfCalls => trivial

/-- A member whose value is not read ends the object. -/
theorem notOk_memberRest {name : List UInt8} {m : List (List UInt8 × Value ρ)}
    {next : List (List UInt8 × Value ρ) → ReaderState → Outcome (Read ρ)}
    {o : Outcome (Read ρ)} (h : o.NotOk) : (r.memberRest name m next o).NotOk := by
  cases o with
  | done result =>
    obtain ⟨ok, v, s'⟩ := result
    obtain rfl : ok = false := h
    rfl
  | thrown e => trivial
  | outOfCalls => trivial

theorem parse_of_notOk {document : List UInt8} {root : Value ρ}
    (h : (r.readValue (2 * document.length + 1) root ⟨document, [], 0⟩).NotOk) (root' : Value ρ)
    (errors : List ErrorInfo) : r.parse document root ≠ .done (true, root', errors) := by
  rw [parse]
  cases hread : r.readValue (2 * document.length + 1) root ⟨document, [], 0⟩ with
  | done result =>
    obtain ⟨ok, v, s⟩ := result
    rw [hread] at h
    obtain rfl : ok = false := h
    dsimp only
    split
    · nofun
    · split <;> nofun
  | thrown e => nofun
  | outOfCalls => nofun

end OurReader

end LinuxDemo.Json

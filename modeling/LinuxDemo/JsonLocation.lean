/-
LinuxDemo/JsonLocation.lean

Where an error is said to be.

`getLocationLineAndColumn` goes over the document and counts the ends of lines: a
line feed, a carriage return, or both.  A location is counted from the last of
them up to it (`getLocationLineAndColumn_eq`).  Between a carriage return and its
line feed the loop has gone on to the next line already: such a location has
column 0.  So lines and columns are in the order of the locations, and the text of
an error is that of one location only (`locationText_reports`).

The loop looks at the byte behind a document that ends in a carriage return.
-/
import LinuxDemo.JsonReaderNumber
import LinuxDemo.JsonReaderRun
import LinuxDemo.Lib.CInt
import LinuxDemo.Lib.Marks
import LinuxDemo.Lib.PrefixCode
import Mathlib.Data.Prod.Lex

namespace LinuxDemo.Json

open Marks

/-- The loop at the offset `offset`, where `current` begins: `line`, and `lastLineStart` as an
offset. -/
def locationLoop (past : UInt8) (location : ℕ) : List UInt8 → ℕ → ℕ → ℕ → ℕ × ℕ
  | [], _, line, lastLineStart => (line, lastLineStart)
  | c :: current, offset, line, lastLineStart =>
      if offset < location then
        if c = 0x0D then
          if current.headD past = 0x0A then
            locationLoop past location current.tail (offset + 2) (line + 1) (offset + 2)
          else locationLoop past location current (offset + 1) (line + 1) (offset + 1)
        else if c = 0x0A then
          locationLoop past location current (offset + 1) (line + 1) (offset + 1)
        else locationLoop past location current (offset + 1) line lastLineStart
      else (line, lastLineStart)
termination_by current => current.length
decreasing_by all_goals grind

/-- How far a location is from the beginning. -/
def offsetOf (begin_ location : List UInt8) : ℕ := begin_.length - location.length

/-- `line` and `column`. -/
def getLocationLineAndColumn (past : UInt8) (begin_ location : List UInt8) : ℤ × ℤ :=
  let offset := offsetOf begin_ location
  let res := locationLoop past offset begin_ 0 0 0
  -- column & line start at 1
  (res.1 + 1, int32 (offset - res.2) + 1)

/-- The `std::string` of `getLocationLineAndColumn`; its buffer has 51 bytes. -/
def locationText (past : UInt8) (begin_ location : List UInt8) : List UInt8 :=
  let res := getLocationLineAndColumn past begin_ location
  (ascii "Line " ++ decimalInt res.1 ++ ascii ", Column " ++ decimalInt res.2).take 50

/-- What is printed of `extra_`. -/
def extraText (past : UInt8) (begin_ : List UInt8) : Option (List UInt8) → List UInt8
  | none => []
  | some extra => ascii "See " ++ locationText past begin_ extra ++ ascii " for detail.\n"

def getFormattedErrorMessages (past : UInt8) (begin_ : List UInt8) (errors_ : List ErrorInfo) :
    List UInt8 :=
  errors_.flatMap fun error =>
    ascii "* " ++ locationText past begin_ error.token_.start_ ++ ascii "\n" ++
      (ascii "  " ++ error.message_ ++ ascii "\n") ++ extraText past begin_ error.extra_

/-! ### Lines -/

/-- A line of the text ends before the offset. -/
def EndsLine (text : List UInt8) : ℕ → Prop
  | 0 => False
  | k + 1 => text[k]? = some 0x0A ∨ text[k]? = some 0x0D ∧ text[k + 1]? ≠ some 0x0A

instance (text : List UInt8) : DecidablePred (EndsLine text)
  | 0 => inferInstanceAs (Decidable False)
  | _ + 1 => inferInstanceAs (Decidable (_ ∨ _))

/-- The offset is between a carriage return and its line feed. -/
def Splits (text : List UInt8) : ℕ → Prop
  | 0 => False
  | k + 1 => text[k]? = some 0x0D ∧ text[k + 1]? = some 0x0A

instance (text : List UInt8) : DecidablePred (Splits text)
  | 0 => inferInstanceAs (Decidable False)
  | _ + 1 => inferInstanceAs (Decidable (_ ∧ _))

/-- Behind the line feed, for an offset that splits the end of a line. -/
def settled (text : List UInt8) (offset : ℕ) : ℕ :=
  if Splits text offset then offset + 1 else offset

/-- The line and the column of an offset, by the ends of lines. -/
def lineAndColumn (text : List UInt8) (offset : ℕ) : ℤ × ℤ :=
  (marks (EndsLine text) (settled text offset) + 1,
    offset + 1 - lastMark (EndsLine text) (settled text offset))

theorem le_settled (text : List UInt8) (offset : ℕ) : offset ≤ settled text offset := by
  rw [settled]
  split
  · exact Nat.le_succ offset
  · exact Nat.le_refl offset

theorem settled_le (text : List UInt8) (offset : ℕ) : settled text offset ≤ offset + 1 := by
  rw [settled]
  split
  · exact Nat.le_refl _
  · exact Nat.le_succ offset

theorem settled_of_lt (text : List UInt8) {i j : ℕ} (h : i < j) :
    settled text i ≤ settled text j :=
  (settled_le text i).trans (h.trans_le (le_settled text j))

/-- Behind a line feed no end of a line is split. -/
theorem not_splits_of_ne {text : List UInt8} {k : ℕ} (h : text[k]? ≠ some 0x0D) :
    ¬ Splits text (k + 1) := fun hsplits => h hsplits.1

/-- A carriage return ends a line by itself if there is no line feed behind it. -/
theorem endsLine_of_cr {text : List UInt8} {k : ℕ} (hcr : text[k]? = some 0x0D)
    (hnext : text[k + 1]? ≠ some 0x0A) : EndsLine text (k + 1) := .inr ⟨hcr, hnext⟩

theorem not_endsLine_of_cr {text : List UInt8} {k : ℕ} (hcr : text[k]? = some 0x0D)
    (hnext : text[k + 1]? = some 0x0A) : ¬ EndsLine text (k + 1) := by
  rintro (h | ⟨-, h⟩)
  · rw [hcr] at h
    cases h
  · exact h hnext

theorem not_endsLine_of_ne {text : List UInt8} {k : ℕ} (hcr : text[k]? ≠ some 0x0D)
    (hlf : text[k]? ≠ some 0x0A) : ¬ EndsLine text (k + 1) := by
  rintro (h | ⟨h, -⟩)
  · exact hlf h
  · exact hcr h

/-- Where the loop stops, if it has not stopped between the two bytes. -/
theorem settled_eq {text : List UInt8} {location offset : ℕ} (hle : location ≤ offset)
    (hoffset : offset ≤ settled text location) (hsplits : ¬ Splits text offset) :
    settled text location = offset := by
  rw [settled] at hoffset ⊢
  split at hoffset
  · rename_i hsplit
    have hne : offset ≠ location := fun h => hsplits (h ▸ hsplit)
    rw [if_pos hsplit]
    omega
  · rename_i hsplit
    rw [if_neg hsplit]
    exact Nat.le_antisymm hle hoffset

/-- What the loop looks at behind its byte. -/
theorem headD_drop {document : List UInt8} (past : UInt8) {k : ℕ} (h : k ≤ document.length) :
    (document ++ [past])[k]? = some ((document.drop k).headD past) := by
  rcases Nat.lt_or_eq_of_le h with hlt | rfl
  · rw [List.getElem?_append_left hlt, List.drop_eq_getElem_cons hlt]
    simp [hlt]
  · simp

/-! ### The loop -/

theorem locationLoop_stop {past : UInt8} {location offset : ℕ} (h : ¬ offset < location)
    (current : List UInt8) (line lastLineStart : ℕ) :
    locationLoop past location current offset line lastLineStart = (line, lastLineStart) := by
  cases current with
  | nil => rw [locationLoop]
  | cons c current => rw [locationLoop, if_neg h]

/-- **The loop** has counted the ends of lines up to where it is, and goes on to the location, or
behind the end of the line that this splits. -/
theorem locationLoop_eq {past : UInt8} {document text : List UInt8}
    (htext : text = document ++ [past]) {location : ℕ} (hlocation : location ≤ document.length)
    (offset : ℕ) (hoffset : offset ≤ settled text location) (hsplits : ¬ Splits text offset) :
    locationLoop past location (document.drop offset) offset (marks (EndsLine text) offset)
        (lastMark (EndsLine text) offset) =
      (marks (EndsLine text) (settled text location),
        lastMark (EndsLine text) (settled text location)) := by
  by_cases hlt : offset < location
  · have hdocument : offset < document.length := hlt.trans_le hlocation
    have hbyte : text[offset]? = some document[offset] := by
      rw [htext, List.getElem?_append_left hdocument, List.getElem?_eq_getElem hdocument]
    have hnext : text[offset + 1]? = some ((document.drop (offset + 1)).headD past) := by
      rw [htext]
      exact headD_drop past hdocument
    have hsettled : offset + 1 ≤ settled text location := hlt.trans_le (le_settled text location)
    rw [List.drop_eq_getElem_cons hdocument, locationLoop, if_pos hlt]
    by_cases hcr : document[offset] = 0x0D
    · rw [if_pos hcr]
      rw [hcr] at hbyte
      by_cases hlf : (document.drop (offset + 1)).headD past = 0x0A
      · -- both bytes are taken, and the line ends behind the second one
        rw [hlf] at hnext
        have hmark : EndsLine text (offset + 2) := .inl hnext
        have hsettled' : offset + 2 ≤ settled text location := by
          rcases Nat.lt_or_eq_of_le (Nat.succ_le_of_lt hlt) with h | h
          · exact (Nat.succ_le_of_lt h).trans (le_settled text location)
          · rw [← h, settled, if_pos ⟨hbyte, hnext⟩]
        have hsplits' : ¬ Splits text (offset + 2) := by
          apply not_splits_of_ne
          rw [hnext]
          decide
        have ih := locationLoop_eq htext hlocation (offset + 2) hsettled' hsplits'
        rw [marks_of_mark hmark, lastMark_of_mark hmark,
          marks_of_not (not_endsLine_of_cr hbyte hnext)] at ih
        rw [if_pos hlf, List.tail_drop]
        exact ih
      · have hne : text[offset + 1]? ≠ some 0x0A := by
          rw [hnext]
          exact fun h => hlf (Option.some.inj h)
        have hmark := endsLine_of_cr hbyte hne
        have ih := locationLoop_eq htext hlocation (offset + 1) hsettled fun h => hne h.2
        rw [marks_of_mark hmark, lastMark_of_mark hmark] at ih
        rw [if_neg hlf]
        exact ih
    · have hne : text[offset]? ≠ some 0x0D := by
        rw [hbyte]
        exact fun h => hcr (Option.some.inj h)
      have ih := locationLoop_eq htext hlocation (offset + 1) hsettled (not_splits_of_ne hne)
      rw [if_neg hcr]
      by_cases hlf : document[offset] = 0x0A
      · rw [hlf] at hbyte
        have hmark : EndsLine text (offset + 1) := .inl hbyte
        rw [marks_of_mark hmark, lastMark_of_mark hmark] at ih
        rw [if_pos hlf]
        exact ih
      · have hnot : ¬ EndsLine text (offset + 1) := by
          apply not_endsLine_of_ne hne
          rw [hbyte]
          exact fun h => hlf (Option.some.inj h)
        rw [marks_of_not hnot, lastMark_of_not hnot] at ih
        rw [if_neg hlf]
        exact ih
  · rw [locationLoop_stop hlt, settled_eq (Nat.le_of_not_lt hlt) hoffset hsplits]
termination_by document.length - offset

theorem offsetOf_le (begin_ location : List UInt8) : offsetOf begin_ location ≤ begin_.length :=
  Nat.sub_le _ _

/-- **Lines and columns.**  The line is one more than the ends of lines up to the location, and the
column is counted from the last of them. -/
theorem getLocationLineAndColumn_eq (past : UInt8) {begin_ : List UInt8}
    (hlength : begin_.length < 2 ^ 31 - 1) (location : List UInt8) :
    getLocationLineAndColumn past begin_ location =
      lineAndColumn (begin_ ++ [past]) (offsetOf begin_ location) := by
  obtain ⟨text, htext⟩ : ∃ text, text = begin_ ++ [past] := ⟨_, rfl⟩
  have hoffset := offsetOf_le begin_ location
  have hloop := locationLoop_eq htext hoffset 0 (Nat.zero_le _) id
  have hmarks : marks (EndsLine text) 0 = 0 := Nat.le_zero.mp (marks_le id 0)
  have hlast : lastMark (EndsLine text) 0 = 0 := Nat.le_zero.mp (lastMark_le 0)
  rw [List.drop_zero, hmarks, hlast] at hloop
  have hle := lastMark_le (P := EndsLine text) (settled text (offsetOf begin_ location))
  have hsettled := settled_le text (offsetOf begin_ location)
  simp only [getLocationLineAndColumn, hloop, lineAndColumn, ← htext]
  rw [int32_eq (by omega) (by omega)]
  congr 1
  omega

/-- **The order of the offsets** is that of their lines, and of their columns in a line. -/
theorem lineAndColumn_lt (text : List UInt8) {offset offset' : ℕ} (h : offset < offset') :
    toLex (lineAndColumn text offset) < toLex (lineAndColumn text offset') := by
  rw [lineAndColumn, lineAndColumn, Prod.Lex.toLex_lt_toLex]
  -- on a later line, or further on the same
  rcases marks_lt_or_lastMark_eq (P := EndsLine text) (settled_of_lt text h)
    with hmarks | ⟨hmarks, hlast⟩
  · apply Or.inl
    dsimp only
    omega
  · apply Or.inr
    rw [hmarks, hlast]
    refine ⟨rfl, ?_⟩
    dsimp only
    omega

theorem lineAndColumn_lt_iff (text : List UInt8) {offset offset' : ℕ} :
    offset < offset' ↔ toLex (lineAndColumn text offset) < toLex (lineAndColumn text offset') := by
  refine ⟨lineAndColumn_lt text, fun hlex => ?_⟩
  rcases Nat.lt_trichotomy offset offset' with hlt | rfl | hlt
  · exact hlt
  · exact absurd hlex (lt_irrefl _)
  · exact absurd (hlex.trans (lineAndColumn_lt text hlt)) (lt_irrefl _)

theorem lineAndColumn_injective (text : List UInt8) :
    Function.Injective (lineAndColumn text) := by
  intro offset offset' heq
  rcases Nat.lt_trichotomy offset offset' with hlt | h | hlt
  · exact absurd (heq ▸ lineAndColumn_lt text hlt) (lt_irrefl _)
  · exact h
  · exact absurd (heq ▸ lineAndColumn_lt text hlt) (lt_irrefl _)

/-! ### Texts -/

/-- Both numbers fit, and are not negative. -/
theorem locationText_eq (past : UInt8) {begin_ : List UInt8}
    (hlength : begin_.length < 2 ^ 31 - 1) (location : List UInt8) :
    ∃ line column : ℕ,
      lineAndColumn (begin_ ++ [past]) (offsetOf begin_ location) = ((line : ℤ), (column : ℤ)) ∧
        locationText past begin_ location =
          ascii "Line " ++ decimal line ++ ascii ", Column " ++ decimal column := by
  obtain ⟨text, htext⟩ : ∃ text, text = begin_ ++ [past] := ⟨_, rfl⟩
  obtain ⟨offset, hdef⟩ : ∃ offset, offset = offsetOf begin_ location := ⟨_, rfl⟩
  have heq := getLocationLineAndColumn_eq past hlength location
  have hoffset := offsetOf_le begin_ location
  rw [← htext, ← hdef] at heq ⊢
  rw [← hdef] at hoffset
  have hsettled := settled_le text offset
  have hlast := lastMark_le (P := EndsLine text) (settled text offset)
  have hmarks := marks_le (P := EndsLine text) id (settled text offset)
  obtain ⟨line, hline⟩ : ∃ line, line = marks (EndsLine text) (settled text offset) + 1 := ⟨_, rfl⟩
  obtain ⟨column, hcolumn⟩ :
      ∃ column, column = offset + 1 - lastMark (EndsLine text) (settled text offset) := ⟨_, rfl⟩
  have hpair : lineAndColumn text offset = ((line : ℤ), (column : ℤ)) := by
    rw [lineAndColumn]
    congr 1
    · omega
    · omega
  have hdecimal (n : ℕ) : decimalInt n = decimal n := by
    rw [decimalInt, if_neg (by omega), Int.natAbs_natCast]
  refine ⟨line, column, hpair, ?_⟩
  -- 5 + 10 + 9 + 10 bytes, so `snprintf` leaves none out
  have hl : (decimal line).length ≤ 10 := decimal_length (by decide) (by omega)
  have hc : (decimal column).length ≤ 10 := decimal_length (by decide) (by omega)
  have hlit : (ascii "Line ").length = 5 ∧ (ascii ", Column ").length = 9 := ⟨rfl, rfl⟩
  simp only [locationText, heq, hpair, hdecimal]
  apply List.take_of_length_le
  simp only [List.length_append]
  omega

theorem not_mem_decimal {c : UInt8} (hc : isDecDigit c = false) (n : ℕ) : c ∉ decimal n := by
  intro h
  have hdigit := isDecDigit_of_mem_decimal h
  rw [hc] at hdigit
  cases hdigit

/-- **The text of a location** is of no other location of the document. -/
theorem locationText_inj {past : UInt8} {begin_ : List UInt8} (hlength : begin_.length < 2 ^ 31 - 1)
    {location location' : List UInt8} (h : location <:+ begin_) (h' : location' <:+ begin_)
    (heq : locationText past begin_ location = locationText past begin_ location') :
    location = location' := by
  obtain ⟨line, column, hpair, htext⟩ := locationText_eq past hlength location
  obtain ⟨line', column', hpair', htext'⟩ := locationText_eq past hlength location'
  have hcomma : ascii ", Column " = 0x2C :: ascii " Column " := rfl
  rw [htext, htext', hcomma] at heq
  simp only [List.append_assoc, List.cons_append] at heq
  obtain ⟨hline, hrest⟩ := eq_of_ended (not_mem_decimal rfl line) (not_mem_decimal rfl line')
    (List.append_cancel_left heq)
  have hcolumn := decimal_injective (List.append_cancel_left hrest)
  rw [decimal_injective hline, hcolumn, ← hpair'] at hpair
  have hoffset : begin_.length - location.length = begin_.length - location'.length :=
    lineAndColumn_injective _ hpair
  have hle := h.length_le
  have hle' := h'.length_le
  have hlengths : location.length = location'.length := by omega
  exact (List.suffix_of_suffix_length_le h h' hlengths.le).eq_of_length hlengths

/-- **What is said of a location.**  Its line is one more than the ends of lines up to it, its
column is counted from the last of them; lines and columns are in the order of the locations, and no
two locations have one text.  An offset that splits the end of a line is taken for one behind it,
with the column 0. -/
theorem locationText_reports (past : UInt8) {begin_ : List UInt8}
    (hlength : begin_.length < 2 ^ 31 - 1) {location location' : List UInt8}
    (h : location <:+ begin_) (h' : location' <:+ begin_) :
    getLocationLineAndColumn past begin_ location =
        lineAndColumn (begin_ ++ [past]) (offsetOf begin_ location) ∧
      (offsetOf begin_ location < offsetOf begin_ location' ↔
        toLex (getLocationLineAndColumn past begin_ location) <
          toLex (getLocationLineAndColumn past begin_ location')) ∧
      (locationText past begin_ location = locationText past begin_ location' ↔
        location = location') := by
  have heq := getLocationLineAndColumn_eq past hlength location
  have heq' := getLocationLineAndColumn_eq past hlength location'
  refine ⟨heq, ?_, locationText_inj hlength h h', fun hsame => by rw [hsame]⟩
  rw [heq, heq']
  exact lineAndColumn_lt_iff _

/-- Before and behind a line feed that follows a carriage return. -/
theorem locationText_reports_split :
    getLocationLineAndColumn 0 (ascii "[\r\n1") (ascii "\n1") = (2, 0) ∧
      getLocationLineAndColumn 0 (ascii "[\r\n1") (ascii "1") = (2, 1) ∧
      locationText 0 (ascii "[\r\n1") (ascii "\n1") ≠
        locationText 0 (ascii "[\r\n1") (ascii "1") := by
  have hlength : (ascii "[\r\n1").length < 2 ^ 31 - 1 := by decide
  have h : ascii "\n1" <:+ ascii "[\r\n1" := ⟨ascii "[\r", rfl⟩
  have h' : ascii "1" <:+ ascii "[\r\n1" := ⟨ascii "[\r\n", rfl⟩
  obtain ⟨hfirst, -, htext⟩ := locationText_reports 0 hlength h h'
  have hsecond := (locationText_reports 0 hlength h' h).1
  refine ⟨hfirst.trans (by decide), hsecond.trans (by decide), fun heq => ?_⟩
  exact absurd (htext.mp heq) (by decide)

/-! ### Messages -/

theorem not_mem_locationText {past : UInt8} {begin_ : List UInt8}
    (hlength : begin_.length < 2 ^ 31 - 1) (location : List UInt8) :
    0x0A ∉ locationText past begin_ location := by
  obtain ⟨line, column, -, htext⟩ := locationText_eq past hlength location
  rw [htext]
  simp only [List.mem_append, not_or]
  exact ⟨⟨⟨by decide, not_mem_decimal rfl line⟩, by decide⟩, not_mem_decimal rfl column⟩

theorem getFormattedErrorMessages_cons (past : UInt8) (begin_ : List UInt8) (error : ErrorInfo)
    (errors_ : List ErrorInfo) :
    getFormattedErrorMessages past begin_ (error :: errors_) =
      ascii "* " ++ (locationText past begin_ error.token_.start_ ++ 0x0A ::
        (ascii "  " ++ (error.message_ ++ 0x0A ::
          (extraText past begin_ error.extra_ ++
            getFormattedErrorMessages past begin_ errors_)))) := by
  have hnewline : ascii "\n" = [0x0A] := rfl
  rw [getFormattedErrorMessages, List.flatMap_cons, ← getFormattedErrorMessages, hnewline]
  simp only [List.append_assoc, List.cons_append, List.nil_append]

theorem getFormattedErrorMessages_cons_ne_nil (past : UInt8) (begin_ : List UInt8)
    (error : ErrorInfo) (errors_ : List ErrorInfo) :
    getFormattedErrorMessages past begin_ (error :: errors_) ≠ [] := by
  rw [getFormattedErrorMessages_cons]
  apply List.append_ne_nil_of_left_ne_nil
  decide

/-- What is printed of the errors begins with a star, and not like `extraText`. -/
theorem see_append_ne (past : UInt8) (begin_ : List UInt8) (errors_ : List ErrorInfo)
    (text : List UInt8) :
    ascii "See " ++ text ≠ getFormattedErrorMessages past begin_ errors_ := by
  intro h
  have hhead := congrArg List.head? h
  cases errors_ with
  | nil => exact absurd hhead (by simp [getFormattedErrorMessages, ascii])
  | cons error errors_ =>
    rw [getFormattedErrorMessages_cons] at hhead
    have hbyte : (0x53 : UInt8) = 0x2A := Option.some.inj hhead
    exact absurd hbyte (by decide)

/-- An error of one line about the document. -/
structure ErrorInfo.Plain (begin_ : List UInt8) (error : ErrorInfo) : Prop where
  within : error.Within begin_
  message : 0x0A ∉ error.message_

theorem ErrorInfo.Plain.extra_suffix {begin_ : List UInt8} {error : ErrorInfo}
    (h : error.Plain begin_) {extra : List UInt8} (hextra : error.extra_ = some extra) :
    extra <:+ begin_ :=
  (h.within.extra_suffix extra hextra).trans h.within.start_suffix

/-- The second location is there if a line says so, which is then its own. -/
theorem extraText_told {past : UInt8} {begin_ : List UInt8} (hlength : begin_.length < 2 ^ 31 - 1)
    {extra extra' : Option (List UInt8)} (h : ∀ location ∈ extra, location <:+ begin_)
    (h' : ∀ location ∈ extra', location <:+ begin_) {errors_ errors' : List ErrorInfo}
    (heq : extraText past begin_ extra ++ getFormattedErrorMessages past begin_ errors_ =
      extraText past begin_ extra' ++ getFormattedErrorMessages past begin_ errors') :
    extra = extra' ∧ getFormattedErrorMessages past begin_ errors_ =
      getFormattedErrorMessages past begin_ errors' := by
  have hdetail : ascii " for detail.\n" = ascii " for detail." ++ [0x0A] := rfl
  have hended (location : List UInt8) :
      0x0A ∉ locationText past begin_ location ++ ascii " for detail." := by
    rw [List.mem_append, not_or]
    exact ⟨not_mem_locationText hlength location, by decide⟩
  cases extra with
  | none =>
    cases extra' with
    | none => exact ⟨rfl, heq⟩
    | some location' =>
      simp only [extraText, List.nil_append, List.append_assoc] at heq
      exact absurd heq.symm (see_append_ne past begin_ errors_ _)
  | some location =>
    cases extra' with
    | none =>
      simp only [extraText, List.nil_append, List.append_assoc] at heq
      exact absurd heq (see_append_ne past begin_ errors' _)
    | some location' =>
      rw [extraText, extraText, hdetail] at heq
      simp only [List.append_assoc, List.cons_append, List.nil_append] at heq
      have hline := List.append_cancel_left heq
      -- the line goes up to the end of the text of the detail
      rw [← List.append_assoc,
        ← List.append_assoc (locationText past begin_ location')] at hline
      obtain ⟨htext, hrest⟩ := eq_of_ended (hended location) (hended location') hline
      have hlocation := locationText_inj hlength (h location rfl) (h' location' rfl)
        (List.append_cancel_right htext)
      exact ⟨congrArg some hlocation, hrest⟩

/-- **What is printed of the errors tells what they are**: where each is, what it is, and where it
says to see. -/
theorem getFormattedErrorMessages_told {past : UInt8} {begin_ : List UInt8}
    (hlength : begin_.length < 2 ^ 31 - 1) {errors_ errors' : List ErrorInfo}
    (h : ∀ error ∈ errors_, error.Plain begin_) (h' : ∀ error ∈ errors', error.Plain begin_)
    (heq : getFormattedErrorMessages past begin_ errors_ =
      getFormattedErrorMessages past begin_ errors') :
    errors_.map (fun error => (error.token_.start_, error.message_, error.extra_)) =
      errors'.map fun error => (error.token_.start_, error.message_, error.extra_) := by
  induction errors_ generalizing errors' with
  | nil =>
    cases errors' with
    | nil => rfl
    | cons error' es' =>
      exact absurd heq.symm (getFormattedErrorMessages_cons_ne_nil past begin_ error' es')
  | cons error es ih =>
    cases errors' with
    | nil => exact absurd heq (getFormattedErrorMessages_cons_ne_nil past begin_ error es)
    | cons error' es' =>
      have hplain := h error (.head es)
      have hplain' := h' error' (.head es')
      rw [getFormattedErrorMessages_cons, getFormattedErrorMessages_cons] at heq
      obtain ⟨hstart, hbehind⟩ := eq_of_ended (not_mem_locationText hlength _)
        (not_mem_locationText hlength _) (List.append_cancel_left heq)
      obtain ⟨hmessage, hextras⟩ := eq_of_ended hplain.message hplain'.message
        (List.append_cancel_left hbehind)
      obtain ⟨hextra, hrest⟩ := extraText_told hlength (fun _ => hplain.extra_suffix)
        (fun _ => hplain'.extra_suffix) hextras
      have hlocation := locationText_inj hlength hplain.within.start_suffix
        hplain'.within.start_suffix hstart
      have hes := ih (fun e he => h e (.tail error he)) (fun e he => h' e (.tail error' he)) hrest
      rw [List.map_cons, List.map_cons, hlocation, hmessage, hextra, hes]

/-- Two errors that differ in whether they are before or behind a line feed. -/
theorem getFormattedErrorMessages_told_split :
    getFormattedErrorMessages 0 (ascii "[\r\n1")
        [⟨⟨.tokenError, ascii "\n1", ascii "1"⟩, ascii "Syntax error", none⟩] ≠
      getFormattedErrorMessages 0 (ascii "[\r\n1")
        [⟨⟨.tokenError, ascii "1", []⟩, ascii "Syntax error", none⟩] := by
  have hplain {start_ end_ : List UInt8} (hstart : start_ <:+ ascii "[\r\n1")
      (hend : end_ <:+ start_) : ∀ error ∈ [ErrorInfo.mk ⟨.tokenError, start_, end_⟩
        (ascii "Syntax error") none], error.Plain (ascii "[\r\n1") := by
    intro error herror
    rw [List.mem_singleton.mp herror]
    have hmessage : 0x0A ∉ ascii "Syntax error" := by decide
    exact ⟨⟨hstart, hend, fun _ h => by cases h⟩, hmessage⟩
  intro heq
  have hbefore := hplain ⟨ascii "[\r", rfl⟩ ⟨ascii "\n", rfl⟩
  have hbehind := hplain ⟨ascii "[\r\n", rfl⟩ ⟨ascii "1", rfl⟩
  exact absurd (getFormattedErrorMessages_told (by decide) hbefore hbehind heq) (by decide)

end LinuxDemo.Json

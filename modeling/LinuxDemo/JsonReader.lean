/-
LinuxDemo/JsonReader.lean

The JSON reader.

A location in the document is the list of the bytes from it on, up to `end_`, so
that the bytes read next are the head of the list, and a token is given by two
locations, one behind the other.  The byte at `end_` itself, which the reader
looks at in two places, is the parameter `past`; in a document that is a
`std::string` it is the NUL.

`Reader` and `OurReader` are the same code but for what `OurReader` adds, so
there is one model, of `OurReader`, and a flag `our` that `Reader` clears.

`readValue`, `readObject` and `readArray` call each other, and a round of one of
their loops is a call here; a call with the number 0 does not return.  `parse`
has a number of calls that is always enough.

Comments are read and dropped: this is a reader with `collectComments` off.  With
it on, as it is by default, values get comments, and `setComment` throws where one
does not begin with a slash; without `allowSingleQuotes` one may begin with a single
quote.
-/
import LinuxDemo.JsonValue

namespace LinuxDemo.Json

/-! ### Features -/

structure OurFeatures where
  allowComments_ : Bool
  strictRoot_ : Bool
  allowDroppedNullPlaceholders_ : Bool
  allowNumericKeys_ : Bool
  allowSingleQuotes_ : Bool
  failIfExtra_ : Bool
  rejectDupKeys_ : Bool
  stackLimit_ : ℤ
deriving DecidableEq

structure Features where
  allowComments_ : Bool
  strictRoot_ : Bool
  allowDroppedNullPlaceholders_ : Bool
  allowNumericKeys_ : Bool
deriving DecidableEq

def Features.all : Features := ⟨true, false, false, false⟩

def Features.strictMode : Features := ⟨false, true, false, false⟩

/-- The settings of `CharReaderBuilder::setDefaults`. -/
def OurFeatures.setDefaults : OurFeatures := ⟨true, false, false, false, false, false, false, 1000⟩

/-- The defaults, with the settings of `CharReaderBuilder::strictMode`. -/
def OurFeatures.strictMode : OurFeatures := ⟨false, true, false, false, false, true, true, 1000⟩

/-- A reader with `collectComments` off, the byte behind its document, and its `double`s. -/
structure OurReader (ρ : Type*) where
  features_ : OurFeatures
  our : Bool
  past : UInt8
  doubles : Doubles ρ

/-- `stackLimit_g` is 1000. -/
def Reader {ρ : Type*} (features : Features) (past : UInt8) (doubles : Doubles ρ) : OurReader ρ where
  features_ :=
    { allowComments_ := features.allowComments_
      strictRoot_ := features.strictRoot_
      allowDroppedNullPlaceholders_ := features.allowDroppedNullPlaceholders_
      allowNumericKeys_ := features.allowNumericKeys_
      allowSingleQuotes_ := false
      failIfExtra_ := false
      rejectDupKeys_ := false
      stackLimit_ := 1000 }
  our := false
  past := past
  doubles := doubles

/-! ### Tokens -/

inductive TokenType where
  | tokenEndOfStream
  | tokenObjectBegin
  | tokenObjectEnd
  | tokenArrayBegin
  | tokenArrayEnd
  | tokenString
  | tokenNumber
  | tokenTrue
  | tokenFalse
  | tokenNull
  | tokenArraySeparator
  | tokenMemberSeparator
  | tokenComment
  | tokenError
deriving DecidableEq

structure Token where
  type_ : TokenType
  start_ : List UInt8
  end_ : List UInt8
deriving DecidableEq

/-- `std::string(token.start_, token.end_)`. -/
def Token.text (token : Token) : List UInt8 :=
  token.start_.take (token.start_.length - token.end_.length)

structure ErrorInfo where
  token_ : Token
  message_ : List UInt8
  extra_ : Option (List UInt8)
deriving DecidableEq

def isJsonSpace (c : UInt8) : Bool := c = 0x20 ∨ c = 0x09 ∨ c = 0x0D ∨ c = 0x0A

def skipSpaces (current : List UInt8) : List UInt8 := current.dropWhile isJsonSpace

/-- The byte at the location, 0 at the end, and the location behind it. -/
def getNextChar : List UInt8 → UInt8 × List UInt8
  | [] => (0, [])
  | c :: current => (c, current)

/-- `match`: nothing is consumed if the pattern is not there. -/
def matchPattern (pattern current : List UInt8) : Bool × List UInt8 :=
  if pattern <+: current then (true, current.drop pattern.length) else (false, current)

/-- Up to a `*` that stands before a `/`. -/
def readCStyleLoop (past : UInt8) : List UInt8 → List UInt8
  | [] => []
  | c :: current =>
      if c = 0x2A ∧ current.headD past = 0x2F then current else readCStyleLoop past current

def readCStyleComment (past : UInt8) (current : List UInt8) : Bool × List UInt8 :=
  let next := getNextChar (readCStyleLoop past current)
  (next.1 = 0x2F, next.2)

/-- Up to and with the end of the line. -/
def readCppStyleComment : List UInt8 → List UInt8
  | [] => []
  | c :: current =>
      if c = 0x0A then current
      else if c = 0x0D then if current.head? = some 0x0A then current.tail else current
      else readCppStyleComment current

def readComment (past : UInt8) (current : List UInt8) : Bool × List UInt8 :=
  let next := getNextChar current
  if next.1 = 0x2A then readCStyleComment past next.2
  else if next.1 = 0x2F then (true, readCppStyleComment next.2)
  else (false, next.2)

/-- `c` is the last byte read; behind a backslash one is skipped. -/
def readStringLoop (quote c : UInt8) : List UInt8 → Bool × List UInt8
  | [] => (c = quote, [])
  | [c] => (c = quote, [])
  | c :: d :: current =>
      if c = 0x5C then readStringLoop quote c current
      else if c = quote then (true, d :: current)
      else readStringLoop quote c (d :: current)

def readString (current : List UInt8) : Bool × List UInt8 := readStringLoop 0x22 0 current

def readStringSingleQuote (current : List UInt8) : Bool × List UInt8 :=
  readStringLoop 0x27 0 current

/-- fractional part -/
def readFraction (current : List UInt8) : List UInt8 :=
  if current.headD 0 = 0x2E then current.tail.dropWhile isDecDigit else current

def readSign (current : List UInt8) : List UInt8 :=
  if current.headD 0 = 0x2B ∨ current.headD 0 = 0x2D then current.tail else current

/-- exponential part -/
def readExponent (current : List UInt8) : List UInt8 :=
  if current.headD 0 = 0x65 ∨ current.headD 0 = 0x45 then
    (readSign current.tail).dropWhile isDecDigit
  else current

/-- The byte `c` of the source is the one at `current_`, or 0 at the end. -/
def readNumber (current : List UInt8) : List UInt8 :=
  readExponent (readFraction (current.dropWhile isDecDigit))

namespace OurReader

variable {ρ : Type*} (r : OurReader ρ)

/-- The type of a token that begins with `c`, if the rest of it is right, and
the end of it. -/
def scanToken (c : UInt8) (current : List UInt8) : TokenType × Bool × List UInt8 :=
  match c with
  | 0x7B => (.tokenObjectBegin, true, current)
  | 0x7D => (.tokenObjectEnd, true, current)
  | 0x5B => (.tokenArrayBegin, true, current)
  | 0x5D => (.tokenArrayEnd, true, current)
  | 0x22 => (.tokenString, readString current)
  | 0x27 =>
      if !r.our then (.tokenError, false, current)
      else if r.features_.allowSingleQuotes_ then (.tokenString, readStringSingleQuote current)
      -- without the feature the case goes on into the one of a comment
      else (.tokenComment, readComment r.past current)
  | 0x2F => (.tokenComment, readComment r.past current)
  | 0x30 | 0x31 | 0x32 | 0x33 | 0x34 | 0x35 | 0x36 | 0x37 | 0x38 | 0x39 | 0x2D =>
      (.tokenNumber, true, readNumber current)
  | 0x74 => (.tokenTrue, matchPattern (ascii "rue") current)
  | 0x66 => (.tokenFalse, matchPattern (ascii "alse") current)
  | 0x6E => (.tokenNull, matchPattern (ascii "ull") current)
  | 0x2C => (.tokenArraySeparator, true, current)
  | 0x3A => (.tokenMemberSeparator, true, current)
  | 0 => (.tokenEndOfStream, true, current)
  | _ => (.tokenError, false, current)

/-- It always returns true. -/
def readToken (current : List UInt8) : Token :=
  let start_ := skipSpaces current
  let next := getNextChar start_
  let scanned := r.scanToken next.1 next.2
  { type_ := if scanned.2.1 then scanned.1 else .tokenError
    start_ := start_
    end_ := scanned.2.2 }

/-- The first token that is not a comment, after at most `n` comments. -/
def skipCommentsLoop : ℕ → List UInt8 → Token
  | 0, current => r.readToken current
  | n + 1, current =>
      let token := r.readToken current
      if token.type_ = .tokenComment then skipCommentsLoop n token.end_ else token

/-- The loops that read tokens until one is not a comment.  A comment takes at
least one byte. -/
def skipComments (current : List UInt8) : Token := r.skipCommentsLoop current.length current

def skipCommentTokens (current : List UInt8) : Token :=
  if r.features_.allowComments_ then r.skipComments current else r.readToken current

/-- The location where `recoverFromError` stops, after at most `n` tokens. -/
def recoverLoop (skipUntilToken : TokenType) : ℕ → List UInt8 → List UInt8
  | 0, current => (r.readToken current).end_
  | n + 1, current =>
      let skip := r.readToken current
      if skip.type_ = skipUntilToken ∨ skip.type_ = .tokenEndOfStream then skip.end_
      else recoverLoop skipUntilToken n skip.end_

end OurReader

/-! ### Decoding

A string is decoded from the bytes between its quotes.  An error is its message
and the location where it was found, up to the closing quote. -/

/-- The digit of a `\u` escape. -/
def hexDigitValue (c : UInt8) : Option UInt32 :=
  if 0x30 ≤ c ∧ c ≤ 0x39 then some (c - 0x30).toUInt32
  else if 0x61 ≤ c ∧ c ≤ 0x66 then some ((c - 0x61).toUInt32 + 10)
  else if 0x41 ≤ c ∧ c ≤ 0x46 then some ((c - 0x41).toUInt32 + 10)
  else none

/-- The four rounds of the loop, `n` of them left. -/
def unicodeDigits : ℕ → UInt32 → List UInt8 → Except (List UInt8 × List UInt8) (UInt32 × List UInt8)
  | 0, unicode, current => .ok (unicode, current)
  | n + 1, unicode, current =>
      let next := getNextChar current
      match hexDigitValue next.1 with
      | some digit => unicodeDigits n (unicode * 16 + digit) next.2
      | none =>
          .error (ascii "Bad unicode escape sequence in string: hexadecimal digit expected.", next.2)

def decodeUnicodeEscapeSequence (current : List UInt8) :
    Except (List UInt8 × List UInt8) (UInt32 × List UInt8) :=
  if current.length < 4 then
    .error (ascii "Bad unicode escape sequence in string: four digits expected.", current)
  else unicodeDigits 4 0 current

/-- The second half of a pair, behind the first. -/
def decodeSurrogatePair (unicode : UInt32) (current : List UInt8) :
    Except (List UInt8 × List UInt8) (UInt32 × List UInt8) :=
  if current.length < 6 then
    .error (ascii "additional six characters expected to parse unicode surrogate pair.", current)
  else if current.headD 0 = 0x5C ∧ current.tail.headD 0 = 0x75 then
    (decodeUnicodeEscapeSequence (current.drop 2)).map fun second =>
      (((unicode &&& 0x3FF) <<< 10) + 0x10000 + (second.1 &&& 0x3FF), second.2)
  else
    .error (ascii <| "expecting another \\u token to begin the second half of " ++
      "a unicode surrogate pair",
      if current.headD 0 = 0x5C then current.drop 2 else current.drop 1)

def decodeUnicodeCodePoint (current : List UInt8) :
    Except (List UInt8 × List UInt8) (UInt32 × List UInt8) :=
  match decodeUnicodeEscapeSequence current with
  | .error e => .error e
  | .ok (unicode, current) =>
      if 0xD800 ≤ unicode ∧ unicode ≤ 0xDBFF then decodeSurrogatePair unicode current
      else .ok (unicode, current)

/-- The escapes of one letter. -/
def escapeValue (escape : UInt8) : Option UInt8 :=
  match escape with
  | 0x22 => some 0x22
  | 0x2F => some 0x2F
  | 0x5C => some 0x5C
  | 0x62 => some 0x08
  | 0x66 => some 0x0C
  | 0x6E => some 0x0A
  | 0x72 => some 0x0D
  | 0x74 => some 0x09
  | _ => none

/-- At most `n` rounds of the loop. -/
def decodeStringLoop : ℕ → List UInt8 → List UInt8 → Except (List UInt8 × List UInt8) (List UInt8)
  | 0, _, decoded => .ok decoded
  | _ + 1, [], decoded => .ok decoded
  | n + 1, c :: current, decoded =>
      if c = 0x22 then .ok decoded
      else if c = 0x5C then
        match current with
        | [] => .error (ascii "Empty escape sequence in string", current)
        | escape :: current =>
            match escapeValue escape with
            | some b => decodeStringLoop n current (decoded ++ [b])
            | none =>
                if escape = 0x75 then
                  match decodeUnicodeCodePoint current with
                  | .ok (unicode, current) =>
                      decodeStringLoop n current (decoded ++ codePointToUTF8 unicode)
                  | .error e => .error e
                else .error (ascii "Bad escape sequence in string", current)
      else decodeStringLoop n current (decoded ++ [c])

/-- The bytes between the quotes.  Each round takes one of them at least. -/
def decodeContent (content : List UInt8) : Except (List UInt8 × List UInt8) (List UInt8) :=
  decodeStringLoop content.length content []

def Token.content (token : Token) : List UInt8 := token.text.tail.dropLast

/-- `decodeString`, and the error it adds. -/
def decodeString (token : Token) : Except ErrorInfo (List UInt8) :=
  (decodeContent token.content).mapError fun e =>
    { token_ := token
      message_ := e.1
      extra_ := some (e.2 ++ token.start_.drop (token.content.length + 1)) }

/-- The digits of a number, or none if it has to be a `double`. -/
def decodeNumberLoop (maxIntegerValue threshold : UInt64) : UInt64 → List UInt8 → Option UInt64
  | value, [] => some value
  | value, c :: current =>
      if ¬ isDecDigit c then none
      else
        let digit := (c - 0x30).toUInt64
        if value ≥ threshold ∧ (value > threshold ∨ current ≠ [] ∨ digit > maxIntegerValue % 10) then
          none
        else decodeNumberLoop maxIntegerValue threshold (value * 10 + digit) current

variable {ρ : Type*}

/-- `decodeNumber` on a text of digits, or none if it is left to `decodeDouble`. -/
def decodeInteger (text : List UInt8) : Option (Value ρ) :=
  let isNegative := text.headD 0 = 0x2D
  let current := if isNegative then text.tail else text
  let maxIntegerValue : UInt64 := if isNegative then (-Int64.minValue).toUInt64 else -1
  let threshold := maxIntegerValue / 10
  (decodeNumberLoop maxIntegerValue threshold 0 current).map fun value =>
    if isNegative then .intValue (-value.toInt64)
    else if value ≤ 2147483647 then .intValue value.toInt64
    else .uintValue value

namespace OurReader

variable (r : OurReader ρ)

def decodeDouble (token : Token) : Except ErrorInfo (Value ρ) :=
  -- Sanity check to avoid buffer overflow exploits.
  if r.our ∧ int32 token.text.length < 0 then
    .error ⟨token, ascii "Unable to parse token length", none⟩
  else
    match r.doubles.sscanf token.text with
    | some value => .ok (.realValue value)
    | none => .error ⟨token, ascii "'" ++ token.text ++ ascii "' is not a number.", none⟩

def decodeNumber (token : Token) : Except ErrorInfo (Value ρ) :=
  match decodeInteger token.text with
  | some decoded => .ok decoded
  | none => r.decodeDouble token

end OurReader

/-! ### Values -/

structure ReaderState where
  current_ : List UInt8
  errors_ : List ErrorInfo
  stackDepth_ : ℕ
deriving DecidableEq

namespace ReaderState

def addError (s : ReaderState) (info : ErrorInfo) : ReaderState :=
  { s with errors_ := s.errors_ ++ [info] }

/-- The location behind a token. -/
def behind (s : ReaderState) (token : Token) : ReaderState := { s with current_ := token.end_ }

def enter (s : ReaderState) : ReaderState := { s with stackDepth_ := s.stackDepth_ + 1 }

def leave (s : ReaderState) : ReaderState := { s with stackDepth_ := s.stackDepth_ - 1 }

end ReaderState

/-- A call returns, throws, or needs more calls than it has. -/
inductive Outcome (α : Type*) where
  | done (result : α)
  | thrown (e : Exception)
  | outOfCalls

/-- What a function that reads returns, the value that it leaves in its place,
and the state. -/
structure Read (ρ : Type*) where
  ok : Bool
  value : Value ρ
  state : ReaderState

/-- `--stackDepth_` when a container was read. -/
def Outcome.leave : Outcome (Read ρ) → Outcome (Read ρ)
  | .done result => .done { result with state := result.state.leave }
  | .thrown e => .thrown e
  | .outOfCalls => .outOfCalls

namespace OurReader

variable (r : OurReader ρ)

/-- Its token reads add no errors, so none is discarded. -/
def recoverFromError (s : ReaderState) (skipUntilToken : TokenType) : ReaderState :=
  { s with current_ := r.recoverLoop skipUntilToken s.current_.length s.current_ }

def addErrorAndRecover (s : ReaderState) (message : List UInt8) (token : Token)
    (skipUntilToken : TokenType) : ReaderState :=
  r.recoverFromError (s.addError ⟨token, message, none⟩) skipUntilToken

/-- The name of a member, if the token may be one. -/
def memberName (tokenName : Token) : Option (Except ErrorInfo (List UInt8)) :=
  if tokenName.type_ = .tokenString then some (decodeString tokenName)
  else if tokenName.type_ = .tokenNumber ∧ r.features_.allowNumericKeys_ then
    match r.decodeNumber tokenName with
    | .ok numberName =>
        some (.ok ((numberName.asString r.doubles).toOption.getD []))
    | .error e => some (.error e)
  else none

/-- The end of a round of `readObject`, when the value of the member was read; `next` are the
rounds after it. -/
def memberRest (name : List UInt8) (m : List (List UInt8 × Value ρ))
    (next : List (List UInt8 × Value ρ) → ReaderState → Outcome (Read ρ)) :
    Outcome (Read ρ) → Outcome (Read ρ)
  | .outOfCalls => .outOfCalls
  | .thrown e => .thrown e
  | .done ⟨ok, v, s⟩ =>
      let m := OrdMap.set name v m
      if !ok then .done ⟨false, .objectValue m, r.recoverFromError s .tokenObjectEnd⟩
      else
        let comma := r.readToken s.current_
        if comma.type_ ≠ .tokenObjectEnd ∧ comma.type_ ≠ .tokenArraySeparator ∧
            comma.type_ ≠ .tokenComment then
          .done ⟨false, .objectValue m, r.addErrorAndRecover (s.behind comma)
            (ascii "Missing ',' or '\x7d' in object declaration") comma .tokenObjectEnd⟩
        else
          let comma := if comma.type_ = .tokenComment then r.skipComments comma.end_ else comma
          let s := s.behind comma
          if comma.type_ = .tokenObjectEnd then .done ⟨true, .objectValue m, s⟩ else next m s

mutual

/-- `v` is the value in the place that is read into. -/
def readValue : ℕ → Value ρ → ReaderState → Outcome (Read ρ)
  | 0, _, _ => .outOfCalls
  | n + 1, v, s =>
      if (s.stackDepth_ : ℤ) ≥ r.features_.stackLimit_ then
        .thrown (.runtimeError (ascii "Exceeded stackLimit in readValue()."))
      else
        let token := r.skipCommentTokens s.current_
        let s := s.enter.behind token
        match token.type_ with
        | .tokenObjectBegin => (readObject n [] [] s).leave
        | .tokenArrayBegin =>
            let s := { s with current_ := skipSpaces s.current_ }
            if s.current_.headD r.past = 0x5D then
              -- empty array
              .done ⟨true, .arrayValue [], (s.behind (r.readToken s.current_)).leave⟩
            else (readArray n 0 [] s).leave
        | .tokenNumber =>
            match r.decodeNumber token with
            | .ok decoded => .done ⟨true, decoded, s.leave⟩
            | .error info => .done ⟨false, v, (s.addError info).leave⟩
        | .tokenString =>
            match decodeString token with
            | .ok decoded_string =>
                match Value.ofString decoded_string with
                | .ok decoded => .done ⟨true, decoded, s.leave⟩
                | .error e => .thrown e
            | .error info => .done ⟨false, v, (s.addError info).leave⟩
        | .tokenTrue => .done ⟨true, .booleanValue true, s.leave⟩
        | .tokenFalse => .done ⟨true, .booleanValue false, s.leave⟩
        | .tokenNull => .done ⟨true, .nullValue, s.leave⟩
        | .tokenArraySeparator | .tokenObjectEnd | .tokenArrayEnd =>
            if r.features_.allowDroppedNullPlaceholders_ then
              -- "Un-read" the current token, which is one byte long
              .done ⟨true, .nullValue, { s with current_ := token.start_ }.leave⟩
            else
              .done ⟨false, v, s.addError
                ⟨token, ascii "Syntax error: value, object or array expected.", none⟩⟩
        -- this exit leaves the depth as it is
        | _ =>
            .done ⟨false, v, s.addError
              ⟨token, ascii "Syntax error: value, object or array expected.", none⟩⟩

/-- One round of the loop of `readObject`, and the rounds after it; `name` is
the name of the member before, empty at first. -/
def readObject : ℕ → List UInt8 → List (List UInt8 × Value ρ) → ReaderState → Outcome (Read ρ)
  | 0, _, _, _ => .outOfCalls
  | n + 1, name, m, s =>
      let tokenName := r.skipComments s.current_
      let s := s.behind tokenName
      if tokenName.type_ = .tokenObjectEnd ∧ name = [] then
        -- empty object
        .done ⟨true, .objectValue m, s⟩
      else
        match r.memberName tokenName with
        | none =>
            .done ⟨false, .objectValue m, r.addErrorAndRecover s
              (ascii "Missing '\x7d' or object member name") tokenName .tokenObjectEnd⟩
        | some (.error info) =>
            .done ⟨false, .objectValue m, r.recoverFromError (s.addError info) .tokenObjectEnd⟩
        | some (.ok name) =>
            let colon := r.readToken s.current_
            let s := s.behind colon
            if colon.type_ ≠ .tokenMemberSeparator then
              .done ⟨false, .objectValue m, r.addErrorAndRecover s
                (ascii "Missing ':' after object member name") colon .tokenObjectEnd⟩
            else if r.our ∧ name.length ≥ 2 ^ 30 then
              .thrown (.runtimeError (ascii "keylength >= 2^30"))
            else if r.features_.rejectDupKeys_ ∧ (OrdMap.find m name).isSome then
              .done ⟨false, .objectValue m, r.addErrorAndRecover s
                (ascii "Duplicate key: '" ++ name ++ ascii "'") tokenName .tokenObjectEnd⟩
            else
              memberRest r name m (readObject n name)
                (readValue n ((OrdMap.find m name).getD .nullValue) s)

/-- One round of the loop of `readArray`, and the rounds after it. -/
def readArray : ℕ → ℕ → List (ℕ × Value ρ) → ReaderState → Outcome (Read ρ)
  | 0, _, _, _ => .outOfCalls
  | n + 1, index, m, s =>
      match readValue n ((OrdMap.find m index).getD .nullValue) s with
      | .outOfCalls => .outOfCalls
      | .thrown e => .thrown e
      | .done ⟨ok, v, s⟩ =>
          let m := OrdMap.set index v m
          if !ok then .done ⟨false, .arrayValue m, r.recoverFromError s .tokenArrayEnd⟩
          else
            -- Accept Comment after last item in the array.
            let token := r.skipComments s.current_
            let s := s.behind token
            if token.type_ ≠ .tokenArraySeparator ∧ token.type_ ≠ .tokenArrayEnd then
              .done ⟨false, .arrayValue m, r.addErrorAndRecover s
                (ascii "Missing ',' or ']' in array declaration") token .tokenArrayEnd⟩
            else if token.type_ = .tokenArrayEnd then .done ⟨true, .arrayValue m, s⟩
            else readArray n (index + 1) m s

end

/-- Two calls for each byte are enough. -/
def parse (document : List UInt8) (root : Value ρ) : Outcome (Bool × Value ρ × List ErrorInfo) :=
  match r.readValue (2 * document.length + 1) root ⟨document, [], 0⟩ with
  | .outOfCalls => .outOfCalls
  | .thrown e => .thrown e
  | .done ⟨successful, root, s⟩ =>
      let token := r.skipCommentTokens s.current_
      if r.features_.failIfExtra_ ∧ token.type_ ≠ .tokenError ∧ token.type_ ≠ .tokenEndOfStream then
        .done (false, root, s.errors_ ++
          [⟨token, ascii "Extra non-whitespace after JSON value.", none⟩])
      else if r.features_.strictRoot_ ∧ !root.isArray ∧ !root.isObject then
        .done (false, root, s.errors_ ++
          [⟨⟨.tokenError, document, []⟩,
            ascii "A valid JSON document must be either an array or an object value.", none⟩])
      else .done (successful, root, s.errors_)

end OurReader

end LinuxDemo.Json

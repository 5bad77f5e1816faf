/-
LinuxDemo/JsonWriter.lean

The JSON writers.

`FastWriter` writes a value on one line.  `StyledWriter`, `StyledStreamWriter`
and `BuiltStyledStreamWriter` are one writer (`Style.writeValue`) with different
ways to indent, and different texts for a colon, a null and a name.  It lays an
array out on one line if its values fit there: the values are written once into
`childValues_` to find that out.

A value in an array is looked up by its index, so that an index without an
entry is written as null; what would be written for each entry is a map itself.
The values have no comments, so the functions of the styled writers that write
them, `writeCommentBeforeValue` and the others, write nothing and are left out.
-/
import LinuxDemo.JsonValue
import LinuxDemo.Lib.CInt

namespace LinuxDemo.Json

variable {ρ : Type*}

/-! ### Strings -/

def containsControlCharacter (str : List UInt8) : Bool := str.any isControlCharacter

def containsControlCharacter0 (str : List UInt8) : Bool :=
  str.any fun c => isControlCharacter c || c = 0

/-- `strpbrk(value, "\"\\\b\f\n\r\t") != NULL` -/
def containsEscaped (value : List UInt8) : Bool :=
  value.any fun c => [0x22, 0x5C, 0x08, 0x0C, 0x0A, 0x0D, 0x09].contains c

/-- What the loop adds for a byte. -/
def escapeByte (c : UInt8) : List UInt8 :=
  match c with
  | 0x22 => [0x5C, 0x22]
  | 0x5C => [0x5C, 0x5C]
  | 0x08 => [0x5C, 0x62]
  | 0x0C => [0x5C, 0x66]
  | 0x0A => [0x5C, 0x6E]
  | 0x0D => [0x5C, 0x72]
  | 0x09 => [0x5C, 0x74]
  | _ => if isControlCharacter c || c = 0 then ascii "\\u00" ++ sprintf02X c else [c]

/-- The string at `value`, up to its NUL. -/
def valueToQuotedString (value : List UInt8) : List UInt8 :=
  let value := cstr value
  if !containsEscaped value && !containsControlCharacter value then 0x22 :: (value ++ [0x22])
  else 0x22 :: (value.flatMap escapeByte ++ [0x22])

/-- All bytes of `value`; where none has to be escaped it is taken for a string
with a NUL. -/
def valueToQuotedStringN (value : List UInt8) : List UInt8 :=
  if !containsEscaped value && !containsControlCharacter0 value then
    0x22 :: (cstr value ++ [0x22])
  else 0x22 :: (value.flatMap escapeByte ++ [0x22])

/-! ### `FastWriter` -/

structure FastWriter where
  yamlCompatiblityEnabled_ : Bool := false
  dropNullPlaceholders_ : Bool := false
  omitEndingLineFeed_ : Bool := false
deriving DecidableEq

namespace FastWriter

variable (w : FastWriter) (D : Doubles ρ)

def writeNull : List UInt8 := if !w.dropNullPlaceholders_ then ascii "null" else []

mutual

/-- What is added to `document_`. -/
def writeValue : Value ρ → List UInt8
  | .nullValue => w.writeNull
  | .intValue int_ => valueToStringInt int_
  | .uintValue uint_ => valueToStringUInt uint_
  | .realValue real_ => valueToStringDouble D real_
  | .stringValue string_ => string_.elim [] valueToQuotedStringN
  | .booleanValue bool_ => valueToStringBool bool_
  | .arrayValue m =>
      let texts := writeElems m
      let size := int32 (Value.arrayValue m).size
      0x5B :: (List.intercalate [0x2C]
        ((List.range size.toNat).map fun index => (OrdMap.find texts index).getD w.writeNull) ++
          [0x5D])
  | .objectValue m => 0x7B :: (List.intercalate [0x2C] (writeMembers m) ++ [0x7D])

def writeElems : List (ℕ × Value ρ) → List (ℕ × List UInt8)
  | [] => []
  | (index, v) :: m => (index, writeValue v) :: writeElems m

def writeMembers : List (List UInt8 × Value ρ) → List (List UInt8)
  | [] => []
  | (name, v) :: m =>
      (valueToQuotedStringN name ++
        ((if w.yamlCompatiblityEnabled_ then ascii ": " else ascii ":") ++ writeValue v)) ::
          writeMembers m

end

def write (root : Value ρ) : List UInt8 :=
  w.writeValue D root ++ if !w.omitEndingLineFeed_ then [0x0A] else []

end FastWriter

/-! ### The styled writers -/

/-- The state of a styled writer. -/
structure Page where
  document_ : List UInt8
  childValues_ : List (List UInt8)
  indentString_ : List UInt8
  addChildValues_ : Bool
  indented_ : Bool
deriving DecidableEq

namespace Page

def append (p : Page) (value : List UInt8) : Page := { p with document_ := p.document_ ++ value }

def pushValue (p : Page) (value : List UInt8) : Page :=
  if p.addChildValues_ then { p with childValues_ := p.childValues_ ++ [value] }
  else p.append value

end Page

/-- How a styled writer, on values without comments, differs from the others.  `inside` is what stands behind
the opening bracket of an array on one line, and before the closing one. -/
structure Style where
  indentation_ : List UInt8
  colonSymbol_ : List UInt8
  nullSymbol_ : List UInt8
  inside : List UInt8
  allMultiLine : Bool
  writeName : List UInt8 → List UInt8
  writeWithIndent : Page → List UInt8 → Page
  beforeChild : Page → Page
  afterChild : Page → Page

namespace Style

variable (style : Style) (D : Doubles ρ)

def rightMargin_ : ℤ := 74

def indent (p : Page) : Page := { p with indentString_ := p.indentString_ ++ style.indentation_ }

def unindent (p : Page) : Page :=
  { p with indentString_ :=
      p.indentString_.take (p.indentString_.length - style.indentation_.length) }

/-- The values of an array from `index` on, one after the other, into
`childValues_`, and the length of the line with them; `n` are left. -/
def pushChildren (child : ℕ → Page → Page) : ℕ → ℕ → ℤ → Page → ℤ × Page
  | 0, _, lineLength, p => (lineLength, p)
  | n + 1, index, lineLength, p =>
      let p := child index p
      pushChildren child n (index + 1) (lineLength + (p.childValues_.getD index []).length) p

/-- `child` writes the value of an index, and `isNested` tells if it is a
container that is not empty. -/
def isMultineArray (size : ℕ) (child : ℕ → Page → Page) (isNested : ℕ → Bool) (p : Page) :
    Bool × Page :=
  let isMultiLine := int32 size * 3 ≥ rightMargin_
  let p := { p with childValues_ := [] }
  let isMultiLine := isMultiLine || (List.range size).any isNested
  if !isMultiLine then
    let pushed :=
      pushChildren child size 0 (4 + (int32 size - 1) * 2) { p with addChildValues_ := true }
    (pushed.1 ≥ rightMargin_, { pushed.2 with addChildValues_ := false })
  else (true, p)

/-- The loop of a multi-line array from `index` on; `n` values are left. -/
def writeLines (child : ℕ → Page → Page) (hasChildValue : Bool) : ℕ → ℕ → Page → Page
  | 0, _, p => p
  | n + 1, index, p =>
      let p :=
        if hasChildValue then style.writeWithIndent p (p.childValues_.getD index [])
        else style.afterChild (child index (style.beforeChild p))
      if n = 0 then p else writeLines child hasChildValue n (index + 1) (p.append [0x2C])

def writeArrayValue (size : ℕ) (child : ℕ → Page → Page) (isNested : ℕ → Bool) (p : Page) : Page :=
  if size = 0 then p.pushValue (ascii "[]")
  else
    let multine := if style.allMultiLine then (true, p) else isMultineArray size child isNested p
    let p := multine.2
    if multine.1 then
      let p := style.indent (style.writeWithIndent p [0x5B])
      let p := style.writeLines child (!p.childValues_.isEmpty) size 0 p
      style.writeWithIndent (style.unindent p) [0x5D]
    else
      p.append (0x5B :: (style.inside ++ (List.intercalate (ascii ", ")
        ((List.range size).map fun index => p.childValues_.getD index []) ++
          (style.inside ++ [0x5D]))))

/-- The loop over the members of an object. -/
def writeMemberLines : List (List UInt8 × (Page → Page)) → Page → Page
  | [], p => p
  | (name, child) :: members, p =>
      let p := child ((style.writeWithIndent p (style.writeName name)).append style.colonSymbol_)
      if members.isEmpty then p else writeMemberLines members (p.append [0x2C])

/-- A container that is not empty. -/
def isNested (v : Value ρ) : Bool := (v.isArray || v.isObject) && v.size > 0

mutual

def writeValue : Value ρ → Page → Page
  | .nullValue => fun p => p.pushValue style.nullSymbol_
  | .intValue int_ => fun p => p.pushValue (valueToStringInt int_)
  | .uintValue uint_ => fun p => p.pushValue (valueToStringUInt uint_)
  | .realValue real_ => fun p => p.pushValue (valueToStringDouble D real_)
  | .stringValue string_ => fun p => p.pushValue (string_.elim [] valueToQuotedStringN)
  | .booleanValue bool_ => fun p => p.pushValue (valueToStringBool bool_)
  | .arrayValue m =>
      let writers := elemWriters m
      style.writeArrayValue (Value.arrayValue m).size
        (fun index =>
          (OrdMap.find writers index).getD fun p => p.pushValue style.nullSymbol_)
        (fun index => isNested (Value.elem m index))
  | .objectValue m =>
      let writers := memberWriters m
      fun p =>
        if writers.isEmpty then p.pushValue (ascii "\x7b\x7d")
        else
          let p := style.indent (style.writeWithIndent p [0x7B])
          let p := style.writeMemberLines writers p
          style.writeWithIndent (style.unindent p) [0x7D]

def elemWriters : List (ℕ × Value ρ) → List (ℕ × (Page → Page))
  | [] => []
  | (index, v) :: m => (index, writeValue v) :: elemWriters m

def memberWriters : List (List UInt8 × Value ρ) → List (List UInt8 × (Page → Page))
  | [] => []
  | (name, v) :: m => (name, writeValue v) :: memberWriters m

end

/-- The page of a `write`, whatever is left of the one before. -/
def write (p : Page) (root : Value ρ) : Page :=
  style.writeValue D root
    { p with document_ := [], addChildValues_ := false, indentString_ := [], indented_ := true }

end Style

/-! ### The three of them -/

namespace StyledWriter

def writeIndent (p : Page) : Page :=
  if p.document_ = [] then p.append p.indentString_
  else if p.document_.getLast? = some 0x20 then p -- already indented
  else if p.document_.getLast? ≠ some 0x0A then p.append (0x0A :: p.indentString_)
  else p.append p.indentString_

def style : Style where
  indentation_ := ascii "   "
  colonSymbol_ := ascii " : "
  nullSymbol_ := ascii "null"
  inside := [0x20]
  allMultiLine := false
  writeName := valueToQuotedString
  writeWithIndent p value := (writeIndent p).append value
  beforeChild := writeIndent
  afterChild := id

def write (D : Doubles ρ) (p : Page) (root : Value ρ) : List UInt8 :=
  (style.write D p root).document_ ++ [0x0A]

end StyledWriter

namespace StyledStreamWriter

def writeIndent (p : Page) : Page := p.append (0x0A :: p.indentString_)

def style (indentation : List UInt8) : Style where
  indentation_ := indentation
  colonSymbol_ := ascii " : "
  nullSymbol_ := ascii "null"
  inside := [0x20]
  allMultiLine := false
  writeName := valueToQuotedString
  writeWithIndent p value :=
    { (if !p.indented_ then writeIndent p else p).append value with indented_ := false }
  beforeChild p := { (if !p.indented_ then writeIndent p else p) with indented_ := true }
  afterChild p := { p with indented_ := false }

def write (D : Doubles ρ) (indentation : List UInt8) (p : Page) (root : Value ρ) : List UInt8 :=
  ((style indentation).write D p root).document_ ++ [0x0A]

end StyledStreamWriter

/-- The settings of a `StreamWriterBuilder`; `commentStyle` is `"All"` or `"None"`. -/
structure StreamWriterBuilder where
  indentation : List UInt8 := [0x09]
  commentStyleAll : Bool := true
  enableYAMLCompatibility : Bool := false
  dropNullPlaceholders : Bool := false

namespace BuiltStyledStreamWriter

/-- Without an indentation there are no newlines. -/
def writeIndent (indentation_ : List UInt8) (p : Page) : Page :=
  if indentation_ ≠ [] then p.append (0x0A :: p.indentString_) else p

/-- `newStreamWriter` -/
def style (builder : StreamWriterBuilder) : Style where
  indentation_ := builder.indentation
  colonSymbol_ :=
    if builder.enableYAMLCompatibility then ascii ": "
    else if builder.indentation = [] then ascii ":"
    else ascii " : "
  nullSymbol_ := if builder.dropNullPlaceholders then [] else ascii "null"
  inside := if builder.indentation ≠ [] then [0x20] else []
  allMultiLine := builder.commentStyleAll
  writeName := valueToQuotedStringN
  writeWithIndent p value :=
    { (if !p.indented_ then writeIndent builder.indentation p else p).append value with
      indented_ := false }
  beforeChild p :=
    { (if !p.indented_ then writeIndent builder.indentation p else p) with indented_ := true }
  afterChild p := { p with indented_ := false }

/-- A value without comments; `endingLineFeedSymbol_` is empty. -/
def write (D : Doubles ρ) (builder : StreamWriterBuilder) (p : Page) (root : Value ρ) :
    List UInt8 :=
  ((style builder).write D p root).document_

end BuiltStyledStreamWriter

end LinuxDemo.Json

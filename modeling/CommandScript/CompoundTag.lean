import CommandScript.Number.Decimal
import CommandScript.Text.Cursor

/-!
Compound tags.

```text
tag   := '{' (key ':' value (',' key ':' value)* ','?)? '}'
value := tag | array | list | scalar
array := '[' T ';' ... ']'
list  := '[' (value (',' value)* ','?)? ']'
```

Keys and scalars are quoted or made of unquoted characters, and blanks may stand
around every part except inside an array, which is taken as it is up to its
closing bracket. The first structural error stops the whole tag; whatever was
reported up to there is kept.
-/

namespace CommandScript.CompoundTag

/-- What is wrong with a tag, apart from a missing character or value. -/
inductive Fault where
  | missingKey
  | illegalKey
  | trailing
deriving DecidableEq, Repr

/-- The wording of a fault. -/
def Fault.message : Fault → String
  | .missingKey => "expected key but got end of string"
  | .illegalKey => "expected non-empty key but got illegal char"
  | .trailing => "unexpected characters after compound tag"

/-- The text is `true` or `false`. -/
def isBoolean (s : Slice) : Bool :=
  s.is "true" || s.is "false"

/-- A letter that may follow a number to give its type. -/
def isTypeSuffix (c : Char) : Bool :=
  ['b', 's', 'l', 'f', 'd'].contains (Charset.toLower c)

/-- A text without the letter at its end that gives the type of a number. -/
def withoutTypeSuffix (cs : List Char) : List Char :=
  if cs.getLast?.any isTypeSuffix then cs.dropLast else cs

/-- Booleans are keywords and finite numbers, with or without a type, are numbers;
any other scalar is a string. -/
def scalarKind (s : Slice) : Highlight :=
  if isBoolean s then .keyword
  else if (Decimal.readFloat? (withoutTypeSuffix s.text)).any Binary64.isFinite then .number
  else .string

/-- Reads a key. -/
def readKey : Reading Unit := do
  if (← Reading.current?).any Charset.isQuote then
    let key ← Reading.readQuoted
    Reading.token key.span .property
  else
    let key ← Reading.readUnquoted
    if key.isEmpty then
      let c ← Reading.look id
      if c.atEnd then
        Reading.fail c.whole.span Fault.missingKey.message
      else
        Reading.fail c.currentSlice.span Fault.illegalKey.message
    else
      Reading.token key.span .property

/-- Reads a quoted or unquoted scalar. -/
def readScalar : Reading Unit := do
  if (← Reading.current?).any Charset.isQuote then
    let quoted ← Reading.readQuoted
    Reading.token quoted.span .string
  else
    let value ← Reading.readUnquoted
    if value.isEmpty then Reading.expectedValue
    else Reading.token value.span (scalarKind value)

/-- A bracket is the beginning of an array if a character that is not a quote and
a semicolon follow it. -/
def startsArray (c : Cursor) : Bool :=
  c.canRead 3 && !(c.peek? 1).any Charset.isQuote && c.peek? 2 = some ';'

/-- Reads an array, whose elements are not looked at. -/
def readArray : Reading Unit := do
  Reading.expect '['
  Reading.advanceOver .keyword
  Reading.advance
  let _ ← Reading.readWhile (· != ']')
  Reading.expect ']'

/-- Passes a comma after an entry or element and says whether there was one. A
comma at the end of the text lacks the value after it. -/
def passComma : Reading Bool := do
  if ← Reading.passComma then
    if ← Reading.look Cursor.atEnd then Reading.expectedValue
    else return true
  else
    return false

mutual

/-- Reads a tag. -/
def readTag : Nat → Reading Unit
  | 0 => Reading.expectedValue
  | fuel + 1 => do
    Reading.expect '{'
    Reading.skipBlanks
    readEntries fuel
    Reading.expect '}'

/-- Reads entries up to the closing brace. -/
def readEntries : Nat → Reading Unit
  | 0 => Reading.expectedValue
  | fuel + 1 => do
    if (← Reading.current?).all (· = '}') then
      return ()
    else
      readKey
      Reading.skipBlanks
      Reading.expect ':' (some .operator)
      readValue fuel
      if ← passComma then readEntries fuel
      else return ()

/-- Reads a value and the blanks before it. -/
def readValue : Nat → Reading Unit
  | 0 => Reading.expectedValue
  | fuel + 1 => do
    Reading.skipBlanks
    match ← Reading.current? with
    | some '{' => readTag fuel
    | some '[' => readList fuel
    | _ => readScalar

/-- Reads an array or a list. -/
def readList : Nat → Reading Unit
  | 0 => Reading.expectedValue
  | fuel + 1 => do
    if ← Reading.look startsArray then
      readArray
    else
      Reading.expect '['
      Reading.skipBlanks
      if ← Reading.look Cursor.atEnd then
        Reading.expectedValue
      else
        readElements fuel
        Reading.expect ']'

/-- Reads elements up to the closing bracket. -/
def readElements : Nat → Reading Unit
  | 0 => Reading.expectedValue
  | fuel + 1 => do
    if (← Reading.current?).all (· = ']') then
      return ()
    else
      readValue fuel
      if ← passComma then readElements fuel
      else return ()

end

/-- Steps that suffice for any text of `n` characters: at most three calls are
nested between two characters that are passed. -/
def fuelFor (n : Nat) : Nat :=
  3 * n + 3

/-- Reads a tag at the beginning of a slice and yields what follows it, or nothing
after a structural error. -/
def read (s : Slice) : Reported (Option Slice) := do
  let outcome ← readTag (fuelFor s.text.length) (.ofSlice s)
  return outcome.map fun (_, c) => c.rest

/-- Reads a tag that makes up all of a slice. -/
def readWhole (s : Slice) : Reported Unit := do
  match ← read s with
  | some rest => Reported.errorIf (!rest.isEmpty) rest.span Fault.trailing.message
  | none => pure ()

end CommandScript.CompoundTag

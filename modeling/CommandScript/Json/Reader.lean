import CommandScript.Json.Numeral

/-!
Reading JSON text.

The reader takes the grammar as it is: no comments, no trailing commas, no text
after the value, no control characters in strings. It never looks at what a
string or numeral means beyond giving it a value if it has one.
-/

namespace CommandScript.Json

/-- A blank of the grammar. -/
def isBlank (c : Char) : Bool :=
  c == ' ' || c == '\t' || c == '\n' || c == '\r'

/-- A text without the blanks at its beginning. -/
def skipBlanks (cs : List Char) : List Char :=
  cs.dropWhile isBlank

/-! ## Strings -/

/-- The characters of a string so far, the latest first; the first half of a
surrogate pair that waits for its second half; and whether all halves met. -/
structure Letters where
  chars : List Char
  pending : Option Nat
  sound : Bool

namespace Letters

/-- No characters yet. -/
def empty : Letters :=
  ⟨[], none, true⟩

/-- One more character. -/
def push (l : Letters) (c : Char) : Letters :=
  ⟨c :: l.chars, none, l.sound && l.pending.isNone⟩

/-- One more code unit of 16 bits. -/
def pushUnit (l : Letters) (unit : Nat) : Letters :=
  let isFirst := 0xd800 ≤ unit && unit < 0xdc00
  let isSecond := 0xdc00 ≤ unit && unit < 0xe000
  match l.pending with
  | some first =>
    if isSecond then
      let code := 0x10000 + (first - 0xd800) * 0x400 + (unit - 0xdc00)
      { l with chars := Char.ofNat code :: l.chars, pending := none }
    else { l with sound := false, pending := none }
  | none =>
    if isFirst then { l with pending := some unit }
    else if isSecond then { l with sound := false }
    else l.push (Char.ofNat unit)

/-- The text, if every half of a pair met the other. -/
def text? (l : Letters) : Option String :=
  if l.sound && l.pending.isNone then some (String.ofList l.chars.reverse) else none

end Letters

/-- The value of a hexadecimal digit. -/
def hexDigit? (c : Char) : Option Nat :=
  if Charset.isHexDigit c then
    let low := Charset.toLower c
    some (if Charset.isDigit c then c.toNat - '0'.toNat else low.toNat - 'a'.toNat + 10)
  else
    none

/-- The code unit that four hexadecimal digits stand for. -/
def hexUnit? (cs : List Char) : Option Nat := do
  let digits ← cs.mapM hexDigit?
  return digits.foldl (fun n d => 16 * n + d) 0

/-- The character that a backslash and a letter stand for. -/
def escaped? : Char → Option Char
  | '"' => some '"'
  | '\\' => some '\\'
  | '/' => some '/'
  | 'b' => some '\x08'
  | 'f' => some '\x0c'
  | 'n' => some '\n'
  | 'r' => some '\r'
  | 't' => some '\t'
  | _ => none

/-- Reads the rest of a string after its opening quote. -/
def readString? (letters : Letters) : List Char → Option (Option String × List Char)
  | [] => none
  | '"' :: cs => some (letters.text?, cs)
  | '\\' :: 'u' :: a :: b :: c :: d :: cs =>
    match hexUnit? [a, b, c, d] with
    | some unit => readString? (letters.pushUnit unit) cs
    | none => none
  | '\\' :: e :: cs =>
    match escaped? e with
    | some c => readString? (letters.push c) cs
    | none => none
  | c :: cs => if c.toNat < 0x20 then none else readString? (letters.push c) cs

/-! ## Numerals -/

/-- Splits off at least one digit. -/
def digits? (cs : List Char) : Option (List Char × List Char) :=
  let (digits, rest) := cs.span Charset.isDigit
  if digits.isEmpty then none else some (digits, rest)

/-- Splits off the digits before the point: a zero, or digits that do not begin
with one. -/
def wholeDigits? (cs : List Char) : Option (List Char × List Char) := do
  let (digits, rest) ← digits? cs
  if digits.head? = some '0' && digits.length ≠ 1 then none else some (digits, rest)

/-- Splits off the digits after the point; no point, no digits. -/
def fractionDigits? : List Char → Option (List Char × List Char)
  | '.' :: cs => digits? cs
  | cs => some ([], cs)

/-- Splits off the exponent; none is zero. -/
def exponent? : List Char → Option (Int × List Char)
  | [] => some (0, [])
  | c :: cs =>
    if Charset.toLower c = 'e' then do
      let (negative, afterSign) := Decimal.splitSign cs
      let (digits, rest) ← digits? afterSign
      let magnitude : Int := Decimal.ofDigits digits
      return (if negative then -magnitude else magnitude, rest)
    else
      some (0, c :: cs)

/-- Reads a numeral. -/
def readNumeral? (cs : List Char) : Option (Numeral × List Char) := do
  let (negative, unsigned) := if cs.head? = some '-' then (true, cs.drop 1) else (false, cs)
  let (whole, afterWhole) ← wholeDigits? unsigned
  let (fraction, afterFraction) ← fractionDigits? afterWhole
  let (exponent, rest) ← exponent? afterFraction
  return (⟨negative, whole, fraction, exponent, afterWhole.length = rest.length⟩, rest)

/-! ## Values -/

/-- Splits off a word. -/
def dropWord? (word : String) (cs : List Char) : Option (List Char) :=
  if word.toList.isPrefixOf cs then some (cs.drop word.toList.length) else none

mutual

/-- Reads a value at the beginning of a text without leading blanks. -/
def readValue? : Nat → List Char → Option (Json × List Char)
  | 0, _ => none
  | _ + 1, [] => none
  | fuel + 1, c :: cs =>
    match c with
    | '"' => (readString? .empty cs).map fun (s, rest) => (.string s, rest)
    | '[' =>
      match skipBlanks cs with
      | ']' :: rest => some (.array [], rest)
      | rest => readElements? fuel [] rest
    | '{' =>
      match skipBlanks cs with
      | '}' :: rest => some (.object [], rest)
      | rest => readMembers? fuel [] rest
    | 't' => (dropWord? "rue" cs).map (.bool true, ·)
    | 'f' => (dropWord? "alse" cs).map (.bool false, ·)
    | 'n' => (dropWord? "ull" cs).map (.null, ·)
    | _ => (readNumeral? (c :: cs)).map fun (n, rest) => (.number n.value?, rest)

/-- Reads the elements of an array up to its end; those before them stand in
`done`, the latest first. -/
def readElements? : Nat → List Json → List Char → Option (Json × List Char)
  | 0, _, _ => none
  | fuel + 1, done, cs =>
    match readValue? fuel cs with
    | none => none
    | some (value, rest) =>
      match skipBlanks rest with
      | ',' :: rest => readElements? fuel (value :: done) (skipBlanks rest)
      | ']' :: rest => some (.array (value :: done).reverse, rest)
      | _ => none

/-- Reads the members of an object up to its end; those before them stand in
`done`, the latest first. -/
def readMembers? : Nat → List (Option String × Json) → List Char → Option (Json × List Char)
  | 0, _, _ => none
  | fuel + 1, done, cs =>
    match readKey? cs with
    | none => none
    | some (key, rest) =>
      match readValue? fuel rest with
      | none => none
      | some (value, rest) =>
        match skipBlanks rest with
        | ',' :: rest => readMembers? fuel ((key, value) :: done) (skipBlanks rest)
        | '}' :: rest => some (.object ((key, value) :: done).reverse, rest)
        | _ => none
where
  /-- Reads a key, the colon after it and the blanks around that. -/
  readKey? (cs : List Char) : Option (Option String × List Char) :=
    match cs with
    | '"' :: cs =>
      match readString? .empty cs with
      | some (key, rest) =>
        match skipBlanks rest with
        | ':' :: rest => some (key, skipBlanks rest)
        | _ => none
      | none => none
    | _ => none

end

/-- The value of a text, with blanks before and after it. At most two calls are
nested for a character that is passed. -/
def read? (text : List Char) : Option Json :=
  match readValue? (2 * text.length + 2) (skipBlanks text) with
  | some (value, rest) => if (skipBlanks rest).isEmpty then some value else none
  | none => none

end CommandScript.Json

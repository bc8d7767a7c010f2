import CommandScript.Argument.Basic
import CommandScript.Text.Cursor

/-!
Arguments that are text: words, phrases, which may be quoted, and the rest of a
line.
-/

namespace CommandScript.Argument

/-- How far a string goes. -/
inductive StringKind where
  | word
  | phrase
  | greedy
deriving DecidableEq, Repr

namespace StringKind

/-- The name of a kind of string. -/
def name : StringKind → String
  | word => "word"
  | phrase => "phrase"
  | greedy => "greedy"

/-- The kind with a given name. -/
def ofName? (name : String) : Option StringKind :=
  [word, phrase, greedy].find? (·.name == name)

/-- The label of a string in messages. -/
def label (kind : StringKind) : String :=
  s!"StringArgument({kind.name}): "

/-- What is wrong with a string, apart from its quotes. -/
inductive Fault where
  | missing
  | missingText
  | illegalChar
  | trailing
deriving DecidableEq, Repr

/-- The wording of a fault. -/
def Fault.message : Fault → String
  | .missing => "expected a string"
  | .missingText => "expected text"
  | .illegalChar => "illegal character in word; it should match [a-zA-Z0-9_.+-]+"
  | .trailing => "unexpected characters after quoted string"

/-- Reads a string without quotes. -/
def checkWord (word : Slice) : Reported Unit := do
  Reported.errorIf (!Charset.isUnquotedText word.text) word.span Fault.illegalChar.message
  Reported.token word.span .string

/-- Reads a quoted string. What follows the closing quote is not part of it; if
that quote is missing, all of the word is highlighted. -/
def checkQuoted (word : Slice) : Reported Unit := do
  let (quoted, c) ← (Cursor.ofSlice word).readQuoted
  match quoted with
  | some quoted =>
    Reported.errorIf (!c.rest.isEmpty) c.rest.span Fault.trailing.message
    Reported.token quoted.span .string
  | none => Reported.token word.span .string

/-- Reads a string of one word of the line. -/
def check (kind : StringKind) (word : Slice) : Reported Unit :=
  Reported.labelled kind.label <|
    if kind = phrase && word.front?.any Charset.isQuote then checkQuoted word
    else checkWord word

/-- Examples of strings of this kind. -/
def examples : StringKind → List String
  | greedy => ["word", "words with spaces", "\"and symbols\""]
  | phrase => ["\"quoted phrase\"", "word", "\"\""]
  | word => ["word", "words_with_underscores"]

end StringKind

/-- Reads the rest of the line; at its end, `missing` is reported. -/
def readRest (missing : String) (r : TokenReader) : Reported TokenReader :=
  if r.atEnd then do
    Reported.error r.remaining.span missing
    return r
  else do
    Reported.token r.remaining.span .string
    return r.consumeAll

/-- Reads a string of a given kind. -/
def readString (kind : StringKind) : TokenReader → Reported TokenReader :=
  match kind with
  | .greedy => readRest (kind.label ++ StringKind.Fault.missingText.message)
  | _ => readWord (kind.label ++ StringKind.Fault.missing.message) kind.check

/-- Reads a message: the rest of the line as it is. -/
def readMessage : TokenReader → Reported TokenReader :=
  readRest "MessageArgument: expected a message"

end CommandScript.Argument

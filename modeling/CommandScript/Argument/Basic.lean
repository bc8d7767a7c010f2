import CommandScript.Report
import CommandScript.Token.Reader

/-!
What arguments have in common.

An argument reads its tokens from a reader and leaves it just past what it read,
whether it found errors or not. Problems never end a line: they are reported. Most
arguments are a single word (`Argument.readWord`), the others are words with a
space between them (`Argument.skipSeparator`).
-/

namespace CommandScript

/-- The legal values of each property of a block, in the order of declaration. -/
abbrev BlockProperties : Type :=
  List (String × List String)

/-- The tables that an argument may consult. -/
structure Registries where
  blocks : List (String × BlockProperties)
  tables : List (String × List String)

namespace Registries

/-- Nothing is known. -/
def empty : Registries :=
  ⟨[], []⟩

/-- The properties of a block by its full id, if the block is known. -/
def block? (registries : Registries) (id : String) : Option BlockProperties :=
  registries.blocks.lookup id

/-- The ids of a table by its name, if there is such a table. -/
def table? (registries : Registries) (name : String) : Option (List String) :=
  registries.tables.lookup name

end Registries

/-- A value offered for completion, with a tag that is shown beside it. -/
structure Sample where
  value : String
  tag : Option String
deriving DecidableEq, Repr

namespace Sample

/-- A sample without a tag. -/
def plain (value : String) : Sample :=
  ⟨value, none⟩

/-- A sample with a tag. -/
def tagged (tag value : String) : Sample :=
  ⟨value, some tag⟩

end Sample

namespace Argument

/-- What is wrong with the spaces between words. -/
def extraSpace : String :=
  "Extra space in command"

/-- Reads an argument of one word. If the reader does not stand on a word, it stays
and `missing` is reported over what is left of the line. -/
def readWord (missing : String) (check : Slice → Reported Unit) (r : TokenReader) :
    Reported TokenReader :=
  match r.currentWord? with
  | some word => do
    check word
    return r.advance
  | none => do
    Reported.error r.remaining.span missing
    return r

/-- Reports spaces that are more than one. -/
def checkSeparator (token : Token) : Reported Unit :=
  Reported.errorIf (token.slice.text != [' ']) token.slice.span extraSpace

/-- Passes the spaces between two words of an argument; says whether there were
any. -/
def skipSeparator (r : TokenReader) : Reported (Bool × TokenReader) :=
  match r.current? with
  | some token =>
    if token.isSpace then do
      checkSeparator token
      return (true, r.advance)
    else
      return (false, r)
  | none => return (false, r)

/-- Reports every character of a slice for which `fault?` has a message. -/
def checkChars (fault? : Char → Option String) (s : Slice) : Reported Unit :=
  Reported.each (fun (c, slice) =>
    match fault? c with
    | some message => Reported.error slice.span message
    | none => pure ()) s.chars

end Argument

end CommandScript

import CommandScript.Text.Quoted

/-!
Tokens of a line.

A line is cut into atoms: runs of spaces, quoted strings, brackets and plain
text. Atoms are then grouped with a stack of open brackets, so that a space inside
quotes or brackets does not end a word. The tokens that result alternate between
words and runs of spaces, and joined together they are the line.
-/

namespace CommandScript

/-! ## Atoms -/

/-- A kind of bracket. -/
inductive Bracket where
  | curly
  | square
deriving DecidableEq, Repr

/-- What an atom of a line is. -/
inductive AtomKind where
  | spaces
  | quoted
  | opener (bracket : Bracket)
  | closer (bracket : Bracket)
  | plain
deriving DecidableEq, Repr

/-- The smallest piece of a line that is never cut. -/
structure Atom where
  kind : AtomKind
  text : List Char
deriving DecidableEq, Repr

namespace Atom

/-- Characters of plain text: no space, quote or bracket. -/
def isPlain (c : Char) : Bool :=
  !(c == ' ' || Charset.isQuote c || c == '{' || c == '}' || c == '[' || c == ']')

/-- How many characters a quoted string goes on after its opening quote: up to
and with the closing quote, or to the end of the text. A backslash protects the
character after it, unless that is a line break or missing: there the string ends
in front of the backslash. -/
def quotedLength (quote : Char) : List Char → Nat
  | [] => 0
  | [c] => if c = '\\' then 0 else 1
  | c :: d :: cs =>
    if c = quote then 1
    else if c = '\\' then
      if d = '\n' then 0 else 2 + quotedLength quote cs
    else 1 + quotedLength quote (d :: cs)

/-- What the atom that begins with the character `c` is, and how many of the
characters `cs` after it belong to it. -/
def extent (c : Char) (cs : List Char) : AtomKind × Nat :=
  if c = ' ' then (.spaces, (cs.takeWhile (· == ' ')).length)
  else if Charset.isQuote c then (.quoted, quotedLength c cs)
  else if c = '{' then (.opener .curly, 0)
  else if c = '[' then (.opener .square, 0)
  else if c = '}' then (.closer .curly, 0)
  else if c = ']' then (.closer .square, 0)
  else (.plain, (cs.takeWhile isPlain).length)

/-- The atoms of a text, of which there are at most as many as characters. -/
def atomsFrom : Nat → List Char → List Atom
  | 0, _ => []
  | _ + 1, [] => []
  | fuel + 1, c :: cs =>
    let (kind, n) := extent c cs
    ⟨kind, c :: cs.take n⟩ :: atomsFrom fuel (cs.drop n)

/-- The atoms of a line. -/
def ofLine (line : List Char) : List Atom :=
  atomsFrom line.length line

end Atom

/-! ## Tokens -/

/-- A word of a line or a run of spaces between words. -/
structure Token where
  slice : Slice
  isSpace : Bool
deriving DecidableEq, Repr

namespace Token

/-- The open brackets after a bracket closes: those above its opener are dropped
with it, and all of them if it has none. -/
def closeBracket (bracket : Bracket) (opened : List Bracket) : List Bracket :=
  (opened.dropWhile (· != bracket)).drop 1

/-- The open brackets after an atom. -/
def bracketsAfter (opened : List Bracket) : AtomKind → List Bracket
  | .opener bracket => bracket :: opened
  | .closer bracket => closeBracket bracket opened
  | _ => opened

/-- Puts a piece of a word in front of some tokens: it becomes the beginning of
the first of them if that is a word, and a word of its own otherwise. -/
def joinWord (piece : Slice) : List Token → List Token
  | ⟨word, false⟩ :: tokens => ⟨⟨piece.text ++ word.text, piece.start⟩, false⟩ :: tokens
  | tokens => ⟨piece, false⟩ :: tokens

/-- Groups atoms, the first of which begins at `start` while `opened` brackets
are open: spaces with nothing open stand alone, all else makes up words. -/
def group (opened : List Bracket) (start : Nat) : List Atom → List Token
  | [] => []
  | ⟨kind, text⟩ :: atoms =>
    let piece : Slice := ⟨text, start⟩
    if kind = .spaces ∧ opened = [] then
      ⟨piece, true⟩ :: group opened piece.stop atoms
    else
      joinWord piece (group (bracketsAfter opened kind) piece.stop atoms)

/-- The tokens of a line. -/
def ofLine (line : List Char) : List Token :=
  group [] 0 (Atom.ofLine line)

end Token

end CommandScript

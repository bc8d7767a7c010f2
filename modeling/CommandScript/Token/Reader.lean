import CommandScript.Token

/-!
A reader over the tokens of a line.

A `TokenReader` is an index into the tokens. Since it is a value, keeping the old
one is all that backtracking needs. A reader never passes the last token, and at
the end it stands at the end of the line.
-/

namespace CommandScript

/-- The tokens of a line and how many of them are read. -/
structure TokenReader where
  tokens : List Token
  index : Nat
  line : List Char
deriving DecidableEq, Repr

namespace TokenReader

/-- The reader in front of the first of some tokens of a line. -/
def ofTokens (tokens : List Token) (line : List Char) : TokenReader :=
  ⟨tokens, 0, line⟩

/-- The reader in front of the first token of a line. -/
def ofLine (line : List Char) : TokenReader :=
  ofTokens (Token.ofLine line) line

/-- All tokens are read. -/
def atEnd (r : TokenReader) : Bool :=
  r.tokens.length ≤ r.index

/-- The next token. -/
def current? (r : TokenReader) : Option Token :=
  r.tokens[r.index]?

/-- The token `n` places after the next one. -/
def peek? (n : Nat) (r : TokenReader) : Option Token :=
  r.tokens[r.index + n]?

/-- The token read last. -/
def previous? (r : TokenReader) : Option Token :=
  match r.index with
  | 0 => none
  | n + 1 => r.tokens[n]?

/-- The last token of the line. -/
def last? (r : TokenReader) : Option Token :=
  r.tokens.getLast?

/-- The next token as a word, unless it is a run of spaces. -/
def currentWord? (r : TokenReader) : Option Slice :=
  match r.current? with
  | some token => if token.isSpace then none else some token.slice
  | none => none

/-- Moves past the next token; at the end it stays. -/
def advance (r : TokenReader) : TokenReader :=
  if r.atEnd then r else { r with index := r.index + 1 }

/-- Moves past the next token and yields it. -/
def consume (r : TokenReader) : Option Token × TokenReader :=
  (r.current?, r.advance)

/-- Moves past the next token if it is a word and yields the word. -/
def consumeWord (r : TokenReader) : Option Slice × TokenReader :=
  match r.currentWord? with
  | some word => (some word, r.advance)
  | none => (none, r)

/-- Moves to the end of the line. -/
def consumeAll (r : TokenReader) : TokenReader :=
  { r with index := r.tokens.length }

/-- The offset at which the unread text begins. -/
def offset (r : TokenReader) : Nat :=
  match r.current? with
  | some token => token.slice.start
  | none => byteLength r.line

/-- The unread text. -/
def remaining (r : TokenReader) : Slice :=
  (Slice.ofLine r.line).dropBytes r.offset

end TokenReader

end CommandScript

import CommandScript.Report

/-!
Semantic tokens as editors want them: one flat list of numbers.

Tokens are ordered by line and then by where they begin. Each takes five numbers:
how many lines further on it stands, its column, counted from the token before if
that is on the same line, its length, the index of its kind, and zero.
-/

namespace CommandScript

/-- A semantic token and the number of its line. -/
structure LineToken where
  line : Nat
  token : SemanticToken
deriving DecidableEq, Repr

namespace LineToken

/-- Orders tokens by line, then by where they begin. -/
def before (a b : LineToken) : Bool :=
  a.line < b.line || (a.line = b.line && a.token.startsBefore b.token)

/-- The column at which a token begins. -/
def column (t : LineToken) : Nat :=
  t.token.span.start

/-- The numbers of tokens in order, after a token at the given line and column. -/
def encodeFrom (line column : Nat) : List LineToken → List Nat
  | [] => []
  | t :: ts =>
    let columnDelta := if t.line = line then t.column - column else t.column
    [t.line - line, columnDelta, t.token.span.length, t.token.kind.index, 0] ++
      encodeFrom t.line t.column ts

/-- The numbers of some tokens. Tokens that begin at the same place keep their
order. -/
def encode (tokens : List LineToken) : List Nat :=
  encodeFrom 0 0 (tokens.mergeSort before)

end LineToken

end CommandScript

import CommandScript.Grammar

/-!
What is known of a line after its walk through the command tree.
-/

namespace CommandScript

/-- One hop of a path through the tree: the node, its name and the text that it
took. The hop that a failed walk ends on is not matched. -/
structure PathEntry where
  name : String
  span : Span
  node : CommandNode
  matched : Bool

/-- What several paths through the tree have in common: all reached an executable
node, all ran out of input before one, or all failed. -/
inductive AmbiguityKind where
  | terminals
  | incomplete
  | failures
deriving DecidableEq, Repr

/-- The name of a kind of ambiguity. -/
def AmbiguityKind.name : AmbiguityKind → String
  | terminals => "MultipleTerminals"
  | incomplete => "MultipleIncomplete"
  | failures => "MultipleFailures"

/-- The paths beside the reported one, in the order in which they were tried. -/
structure Ambiguity where
  kind : AmbiguityKind
  alternatives : List (List PathEntry)

/-- Diagnostics, tokens and path of a line. Tokens are ordered by where they begin,
and the path leaves the root out. -/
structure LineReport where
  diagnostics : List Diagnostic
  tokens : List SemanticToken
  path : List PathEntry
  success : Bool
  ambiguity : Option Ambiguity

namespace LineReport

/-- The diagnostics that are errors. -/
def errors (report : LineReport) : List Diagnostic :=
  report.diagnostics.filter Diagnostic.isError

/-- The deepest matched hop that ends strictly before `offset`. -/
def entryBefore? (report : LineReport) (offset : Nat) : Option PathEntry :=
  report.path.reverse.find? fun entry => entry.matched && entry.span.stop < offset

end LineReport

/-- The walk met a space where a word is due, or a word where a space is: some kind
of argument left its reader inside a word or past a separator. -/
structure WalkError where
  offset : Nat
deriving DecidableEq, Repr

/-- The wording of the error. -/
def WalkError.message (error : WalkError) : String :=
  s!"token stream out of step with the command tree at offset {error.offset}"

end CommandScript

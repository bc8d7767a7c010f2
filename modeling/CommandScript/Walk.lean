import CommandScript.Context
import CommandScript.Walk.Report

/-!
The walk of a line through the command tree.

The walk is breadth first. A `Trail` is a sequence of hops from the root, each with
the reader behind it and what it reported. In every generation the trails whose
reader is at the end leave the frontier, as terminals if their last node is
executable and as incomplete ones otherwise; every other trail is extended by each
node that may follow. The extensions that match pass one separator and form the
next frontier.

The walk ends when no trail is left to extend or no extension matches. Terminals
then win over everything, the earliest of them first. Without one, the first
incomplete trail is reported, or else the extension that read furthest. Every
matching extension passes a token, so there are at most as many generations as
tokens, and one more.
-/

namespace CommandScript

/-! ## Trails -/

/-- One hop of a trail, matched or not. -/
structure Hop where
  name : String
  node : CommandNode
  span : Span
  reader : TokenReader
  report : Report
  matched : Bool

namespace Hop

/-- The hop with more to report. -/
def add (hop : Hop) (report : Report) : Hop :=
  { hop with report := hop.report ++ report }

/-- The hop as an entry of a path. -/
def entry (hop : Hop) : PathEntry :=
  ⟨hop.name, hop.span, hop.node, hop.matched⟩

end Hop

/-- A sequence of hops from the root: the latest hop, and those before it, the
latest first. The root is the first of them all. -/
structure Trail where
  latest : Hop
  earlier : List Hop

namespace Trail

/-- The hops in order, the root included. -/
def hops (trail : Trail) : List Hop :=
  (trail.latest :: trail.earlier).reverse

/-- The entries of the path, the root left out. -/
def path (trail : Trail) : List PathEntry :=
  (trail.hops.drop 1).map Hop.entry

/-- The reader behind the latest hop. -/
def reader (trail : Trail) : TokenReader :=
  trail.latest.reader

/-- The node of the latest hop. -/
def node (trail : Trail) : CommandNode :=
  trail.latest.node

/-- The trail whose latest hop has more to report. -/
def add (trail : Trail) (report : Report) : Trail :=
  { trail with latest := trail.latest.add report }

/-- The trail with one more hop. -/
def push (trail : Trail) (hop : Hop) : Trail :=
  ⟨hop, trail.latest :: trail.earlier⟩

/-- Nothing is left to read. -/
def atEnd (trail : Trail) : Bool :=
  trail.reader.atEnd

/-- The trail ends a command: nothing is left to read after an executable node. -/
def isTerminal (trail : Trail) : Bool :=
  trail.atEnd && trail.node.executable

/-- Nothing is left to read, but the node does not end a command. -/
def isIncomplete (trail : Trail) : Bool :=
  trail.atEnd && !trail.node.executable

end Trail

namespace Walk

/-- What is wrong with a line as a whole. -/
inductive Fault where
  | leadingSpace
  | incomplete
  | expectedEnd
  | unknownKind (name : String)
  | unknownLiteral (typed : String) (expected : List String)

/-- The wording of a fault. -/
def Fault.message : Fault → String
  | .leadingSpace => "Unexpected leading whitespace"
  | .incomplete => "Incomplete command"
  | .expectedEnd => "Expected end of command"
  | .unknownKind name => s!"Parser not implemented for {name}"
  | .unknownLiteral typed expected =>
    s!"Unknown literal '{typed}', expected one of " ++ String.intercalate ", " expected

/-! ## Attempts -/

/-- The error at a token that should not be there. -/
def outOfStep (reader : TokenReader) : WalkError :=
  ⟨reader.offset⟩

/-- The text between two positions of a reader, the first of which is in front of
the word `first`; empty if nothing was read. -/
def spanRead (first : Slice) (before after : TokenReader) : Span :=
  if before.index < after.index then
    ⟨first.start, (after.previous?.map (·.slice.stop)).getD first.start⟩
  else
    .emptyAt first.start

/-- Tries a literal on the word under a reader. -/
def attemptLiteral (name : String) (node : CommandNode) (word : Slice) (reader : TokenReader) :
    Hop :=
  if word.is name then
    ⟨name, node, word.span, reader.advance, .token word.span .commandLiteral, true⟩
  else
    ⟨name, node, word.span, reader, ∅, false⟩

/-- Tries an argument from the word under a reader on. -/
def attemptArgument (context : Context) (name : String) (node : CommandNode) (word : Slice)
    (reader : TokenReader) : Hop :=
  let kind := node.parser.getD ""
  match context.kinds.create? kind node.properties with
  | none =>
    let report := Report.error reader.remaining.span (Fault.unknownKind kind).message
    ⟨name, node, word.span, reader, report, false⟩
  | some parser =>
    let outcome := parser.read context.registries reader
    ⟨name, node, spanRead word reader outcome.value, outcome.value, outcome.report,
      outcome.report.success⟩

/-- Tries a node from the word under a reader on. -/
def attemptNode (context : Context) (name : String) (node : CommandNode) (word : Slice)
    (reader : TokenReader) : Hop :=
  if node.isLiteral then attemptLiteral name node word reader
  else attemptArgument context name node word reader

/-- Tries a node after a trail. The reader has to stand on a word. -/
def attempt (context : Context) (trail : Trail) (name : String) (node : CommandNode) :
    Except WalkError Trail :=
  match trail.reader.currentWord? with
  | none => .error (outOfStep trail.reader)
  | some word => .ok (trail.push (attemptNode context name node word trail.reader))

/-- Tries every node that may follow a trail. The flag tells the attempts from a
trail that nothing may follow: that one is yielded as it is, with an error over
what is left of the line. -/
def extend (context : Context) (trail : Trail) : Except WalkError (List (Bool × Trail)) :=
  match trail.node.effectiveChildren context.root with
  | [] =>
    let report := Report.error trail.reader.remaining.span Fault.expectedEnd.message
    .ok [(false, trail.add report)]
  | children =>
    children.mapM fun (name, node) => (attempt context trail name node).map (true, ·)

/-- Passes the separator after the latest hop of a trail. Spaces that are more than
one are an error, after which the walk goes on. -/
def passSeparator (trail : Trail) : Except WalkError Trail :=
  match trail.reader.current? with
  | none => .ok trail
  | some token =>
    if token.isSpace then
      let reported := trail.add (Argument.checkSeparator token).report
      .ok { reported with latest := { reported.latest with reader := trail.reader.advance } }
    else
      .error (outOfStep trail.reader)

/-! ## Reports -/

/-- The report on one trail, beside which there are others. -/
def report (kind : AmbiguityKind) (chosen : Trail) (others : List Trail) : LineReport where
  diagnostics := chosen.hops.flatMap fun hop => hop.report.diagnostics
  tokens := chosen.hops.flatMap fun hop => hop.report.sortedTokens
  path := chosen.path
  success := kind = .terminals
  ambiguity := if others.isEmpty then none else some ⟨kind, others.map Trail.path⟩

/-- The names of the literals that may follow a node. -/
def literalsAfter (root node : CommandNode) : List String :=
  ((node.effectiveChildren root).filter fun child => child.2.isLiteral).map Prod.fst

/-- The trail with an error over what is left of the line if its latest hop is a
literal that did not match. -/
def explain (context : Context) (trail : Trail) : Trail :=
  match trail.earlier with
  | parent :: _ =>
    if trail.node.isLiteral && !trail.latest.matched then
      let typed := (parent.reader.current?.map (·.slice.toString)).getD ""
      let expected := literalsAfter context.root parent.node
      trail.add (.error parent.reader.remaining.span (Fault.unknownLiteral typed expected).message)
    else
      trail
  | [] => trail

/-- Takes the trail that read furthest out of some, the earliest of several, and
yields the others in order as well. -/
def furthest (first : Trail) : List Trail → Trail × List Trail
  | [] => (first, [])
  | trail :: trails =>
    let (best, others) := furthest trail trails
    if first.reader.index < best.reader.index then (best, first :: others)
    else (first, trail :: trails)

/-- The report on a walk in which every attempt failed. -/
def reportFailure (context : Context) (first : Trail) (others : List Trail) : LineReport :=
  let (chosen, others) := furthest first others
  report .failures (explain context chosen) others

/-! ## Generations -/

/-- The trails to extend, and the terminals found so far. -/
structure State where
  frontier : List Trail
  terminals : List Trail

/-- What a generation leads to: the end of the walk or another generation. -/
inductive Progress where
  | done (report : LineReport)
  | next (state : State)

/-- The trails of a frontier that ran out of input before the end of a command. -/
def incomplete (line : List Char) (frontier : List Trail) : List Trail :=
  (frontier.filter Trail.isIncomplete).map fun trail =>
    trail.add (.error (.upTo (byteLength line)) Fault.incomplete.message)

/-- The end of a walk: the first terminal, or what `otherwise` reports. -/
def finish (terminals : List Trail) (otherwise : LineReport) : LineReport :=
  match terminals with
  | chosen :: others => report .terminals chosen others
  | [] => otherwise

/-- The report on the first of some trails; `fallback` stands in if there are none. -/
def reportFirst (kind : AmbiguityKind) (fallback : Trail) : List Trail → LineReport
  | [] => report kind fallback []
  | chosen :: others => report kind chosen others

/-- One generation. -/
def generation (context : Context) (line : List Char) (start : Trail) (state : State) :
    Except WalkError Progress := do
  let live := state.frontier.filter fun trail => !trail.atEnd
  let terminals := state.terminals ++ state.frontier.filter Trail.isTerminal
  if live.isEmpty then
    let unfinished := incomplete line state.frontier
    return .done (finish terminals (reportFirst .incomplete start unfinished))
  else
    let attempts := (← live.mapM (extend context)).flatten
    let survivors := (attempts.filter fun (isNew, trail) => isNew && trail.latest.matched).map
      Prod.snd
    if survivors.isEmpty then
      let failures := attempts.map Prod.snd
      let failure := match failures with
        | [] => report .failures start []
        | first :: others => reportFailure context first others
      return .done (finish terminals failure)
    else
      return .next ⟨← survivors.mapM passSeparator, terminals⟩

/-- Generation after generation; `none` if more of them are needed than `fuel`
allows. -/
def run (context : Context) (line : List Char) (start : Trail) :
    Nat → State → Option (Except WalkError LineReport)
  | 0, _ => none
  | fuel + 1, state =>
    match generation context line start state with
    | .error error => some (.error error)
    | .ok (.done report) => some (.ok report)
    | .ok (.next state) => run context line start fuel state

/-- The trail in front of the first word of a line. Leading spaces are a warning. -/
def startTrail (context : Context) (line : List Char) : Trail :=
  let tokens := Token.ofLine line
  let (tokens, report) := match tokens with
    | first :: others =>
      if first.isSpace then
        (others, Report.warning first.slice.span Fault.leadingSpace.message)
      else
        (tokens, ∅)
    | [] => (tokens, ∅)
  ⟨⟨"", context.root, .emptyAt 0, .ofTokens tokens line, report, true⟩, []⟩

end Walk

/-- Reads a line against a context. One generation more than there are tokens is
always enough. -/
def walk (context : Context) (line : List Char) : Except WalkError LineReport :=
  let start := Walk.startTrail context line
  let fuel := start.reader.tokens.length + 1
  (Walk.run context line start fuel ⟨[start], []⟩).getD (.error (Walk.outOfStep start.reader))

end CommandScript

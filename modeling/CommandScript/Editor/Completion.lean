import CommandScript.Walk

/-!
Completion: what may stand at the caret.

The candidates are what may follow the deepest hop of the line's path that ends
before the caret: literals by their names, arguments by their samples. Those that
begin with the word at the caret are kept, literals first.
-/

namespace CommandScript

/-- What a completion inserts. -/
inductive CompletionKind where
  | literal
  | value
deriving DecidableEq, Repr

/-- The number that editors use for a kind of completion. -/
def CompletionKind.editorCode : CompletionKind → Nat
  | literal => 3
  | value => 21

/-- The place of a kind of completion in a list; smaller numbers come first. -/
def CompletionKind.priority : CompletionKind → Nat
  | literal => 10
  | value => 50

/-- A text to insert, with the argument that it stands for. -/
structure CompletionItem where
  label : String
  kind : CompletionKind
  detail : Option String
deriving DecidableEq, Repr

namespace CompletionItem

/-- Literals come before values. -/
def startsBefore (a b : CompletionItem) : Bool :=
  a.kind.priority ≤ b.kind.priority

/-- Two items look the same. -/
def sameText (a b : CompletionItem) : Bool :=
  a.label = b.label && a.detail = b.detail

/-- A list without the items that look like the one before them, which is
`previous` for the first. -/
def dropRepeats (previous : Option CompletionItem) : List CompletionItem → List CompletionItem
  | [] => []
  | item :: items =>
    if previous.any item.sameText then dropRepeats previous items
    else item :: dropRepeats (some item) items

/-- A sample of the argument with a given parser. -/
def ofSample (parser : String) (sample : Sample) : CompletionItem :=
  let detail := match sample.tag with
    | some tag => s!"{parser} ({tag})"
    | none => parser
  ⟨sample.value, .value, some detail⟩

/-- What an argument offers: the samples of its kind, or else the examples of its
parser. -/
def ofArgument (context : Context) (node : CommandNode) : List CompletionItem :=
  match node.parser with
  | none => []
  | some parser =>
    match context.kinds.get? parser with
    | none => []
    | some kind =>
      if kind.samples.isEmpty then
        (kind.build node.properties).examples.map (ofSample parser)
      else
        kind.samples.map fun sample => ofSample parser (.plain sample)

/-- What one of the nodes that may follow offers. -/
def ofChild (context : Context) (name : String) (node : CommandNode) : List CompletionItem :=
  if node.isLiteral then [⟨name, .literal, none⟩] else ofArgument context node

/-- What may follow a node. -/
def candidates (context : Context) (node : CommandNode) : List CompletionItem :=
  (node.effectiveChildren context.root).flatMap fun (name, child) => ofChild context name child

end CompletionItem

/-- The text of a line in front of a caret; all of the line if the caret stands
inside a character. -/
def beforeCaret (line : List Char) (caret : Nat) : List Char :=
  let whole := Slice.ofLine line
  let caret := min caret whole.length
  if whole.isBoundary caret then (whole.takeBytes caret).text else line

/-- The characters after the last space. -/
def lastWord (text : List Char) : List Char :=
  (text.reverse.takeWhile (· != ' ')).reverse

/-- What may stand at the caret of a line, given the report on it. -/
def completions (context : Context) (line : List Char) (report : Option LineReport) (caret : Nat) :
    List CompletionItem :=
  let before := beforeCaret line caret
  let word := lastWord before
  let entry := report.bind fun r => r.entryBefore? (byteLength before)
  let node := (entry.map PathEntry.node).getD context.root
  let items := (CompletionItem.candidates context node).filter fun item =>
    word.isPrefixOf item.label.toList
  CompletionItem.dropRepeats none (items.mergeSort CompletionItem.startsBefore)

end CommandScript

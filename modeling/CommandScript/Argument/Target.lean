import CommandScript.Argument.Id
import CommandScript.Selector.Table

/-!
Targets: entities, players and score holders.

```text
target   := selector | uuid | player
selector := '@' class ('[' key '=' value? (',' key '=' value?)* ']')?
class    := 'p' | 'a' | 'r' | 's' | 'e'
```
-/

namespace CommandScript.Argument

/-- Who a target may be; only a score holder may be the wildcard `*`. -/
inductive TargetKind where
  | entity
  | gameProfile
  | scoreHolder
deriving DecidableEq, Repr

namespace Target

/-- The longest name of a player, in characters. -/
def maxPlayerName : Nat :=
  16

/-- What is wrong with a target, apart from the values of its predicates. -/
inductive Fault where
  | missing
  | missingClass
  | unknownClass (c : Slice)
  | afterClass
  | afterList
  | unknownPredicate
  | emptyValue
  | longName
  | badName

/-- The wording of a fault. -/
def Fault.message (fault : Fault) : String :=
  "EntityParser: " ++ match fault with
    | .missing => "expected an entity"
    | .missingClass => "missing selector class (possible @p, @a, @r, @s, @e)"
    | .unknownClass c => s!"unknown selector class '{c}'"
    | .afterClass => "illegal characters after entity selector class"
    | .afterList => "unexpected characters after predicate block"
    | .unknownPredicate => "unknown predicate"
    | .emptyValue => "empty predicate value not allowed"
    | .longName => s!"player name too long (max {maxPlayerName} characters)"
    | .badName => "bad player name (illegal character)"

/-- The classes of a selector. -/
def classes : List Char :=
  ['p', 'a', 'r', 's', 'e']

/-- The list of predicates of a selector. -/
def predicateSpec : PropertySpec where
  opener := '['
  closer := ']'
  keyValid := Charset.isWordText
  valueValid := fun _ => true
  allowEmptyKey := false
  allowEmptyValue := true
  keyKind := .property
  wording := {
    unclosed := "EntityParser: unclosed predicate block (missing ']')"
    badKey := "EntityParser: illegal character in predicate key"
    badValue := "EntityParser: illegal character in predicate value"
    emptyKey := "EntityParser: empty predicate key is not allowed"
    emptyValue := "EntityParser: empty predicate value is not allowed"
    missingEquals := "EntityParser: missing '=' in predicate"
    extraComma := "EntityParser: extra comma in property" }

/-- The label of the value of a predicate in messages. -/
def predicateLabel (key : Slice) : String :=
  s!"EntityParser (predicate '{key}'): "

/-- Reads one predicate. A key of bad characters was reported with the list. -/
def checkPredicate (entry : PropertyEntry) : Reported Unit :=
  if !Charset.isWordText entry.key.text then
    pure ()
  else match SelectorEntry.find? entry.key.toString with
    | none => Reported.error entry.key.span Fault.unknownPredicate.message
    | some row =>
      if entry.value.isEmpty && !row.predicate.allowsEmpty then
        Reported.error (Span.cover entry.key entry.value) Fault.emptyValue.message
      else
        Reported.labelled (predicateLabel entry.key) (row.predicate.read entry.value)

/-- Reads what follows the class of a selector. -/
def checkPredicates (block : Slice) : Reported Unit :=
  if block.isEmpty then
    pure ()
  else if block.front? ≠ some '[' then
    Reported.error block.span Fault.afterClass.message
  else do
    match ← predicateSpec.read block with
    | none => pure ()
    | some list =>
      Reported.errorIf (!list.rest.isEmpty) list.rest.span Fault.afterList.message
      Reported.each checkPredicate list.entries

/-- Reads a selector. -/
def checkSelector (word : Slice) : Reported Unit :=
  let name := (word.drop 1).take 1
  match name.front? with
  | none => Reported.error word.span Fault.missingClass.message
  | some c =>
    if classes.contains c then do
      Reported.token (Span.cover word name) .selector
      checkPredicates (word.drop 2)
    else
      Reported.error word.span (Fault.unknownClass name).message

/-- Reads a UUID or the name of a player. -/
def checkPlayer (word : Slice) : Reported Unit :=
  if isUuid word then
    Reported.token word.span .uuid
  else do
    Reported.token word.span .playerName
    if maxPlayerName < word.text.length then
      Reported.error word.span Fault.longName.message
    else
      Reported.errorIf (!word.text.all Charset.isWord) word.span Fault.badName.message

/-- Reads a target that makes up all of a word. -/
def check (kind : TargetKind) (word : Slice) : Reported Unit :=
  if kind = .scoreHolder && word.is "*" then Reported.token word.span .selector
  else if word.front? = some '@' then checkSelector word
  else checkPlayer word

/-- The first sample of every predicate, in a selector. -/
def predicateExamples : List Sample :=
  SelectorEntry.table.filterMap fun row =>
    row.samples.head?.map fun sample => .tagged "predicate" s!"@e[{row.key}={sample}]"

/-- Examples of targets. -/
def examples (kind : TargetKind) : List Sample :=
  ["@p", "@a", "@r", "@s", "@e", "Steve"].map .plain ++
    (if kind = .scoreHolder then [.plain "*"] else []) ++ predicateExamples

end Target

/-- Reads a target. -/
def readTarget (kind : TargetKind) : TokenReader → Reported TokenReader :=
  readWord Target.Fault.missing.message (Target.check kind)

end CommandScript.Argument

import CommandScript.CompoundTag
import CommandScript.Number.Range
import CommandScript.PropertyList
import CommandScript.Resource
import CommandScript.Selector.Advancements

/-!
Predicates of a selector: the values of the entries in `@e[key=value,...]`.

A predicate reads the value of one entry. Most of them are a number, a range or a
checked word that may be negated with a leading `!`; scores and advancements have
small grammars of their own.
-/

namespace CommandScript

/-- A check of a value that is a word, an id or a tag. -/
inductive ValueCheck where
  | anything
  | unquoted (message : String)
  | oneOf (words : List String) (message : String)
  | resource (allowTag : Bool)
  | compoundTag
deriving DecidableEq, Repr

/-- Reports what is wrong with a value. -/
def ValueCheck.run (check : ValueCheck) (value : Slice) : Reported Unit :=
  match check with
  | .anything => pure ()
  | .unquoted message =>
    Reported.errorIf (!Charset.isUnquotedText value.text) value.span message
  | .oneOf words message => Reported.errorIf (!words.any value.is) value.span message
  | .resource allowTag => do
    let _ ← Resource.read allowTag .resource value
  | .compoundTag => CompoundTag.readWhole value

/-- What the value of a selector entry has to be. -/
inductive SelectorPredicate where
  | float
  | nonNegativeInteger
  | range (form : NumberForm) (allowNegative : Bool)
  | scores
  | advancements
  | negatable (allowEmpty : Bool) (check : ValueCheck) (kind : Option Highlight)
  | word (check : ValueCheck) (kind : Highlight)
deriving DecidableEq, Repr

namespace SelectorPredicate

/-- What is wrong with a value, apart from numbers and ranges. -/
inductive Fault where
  | emptyNegation
  | scoresUnopened
  | scoresUnclosed
  | scoresTrailing
deriving DecidableEq, Repr

/-- The wording of a fault. -/
def Fault.message : Fault → String
  | .emptyNegation => "empty ! not allowed"
  | .scoresUnopened => "missing '\x7b' in score predicate"
  | .scoresUnclosed => "missing closing '\x7d' in score predicate"
  | .scoresTrailing => "unexpected characters after score predicate"

/-- The message for a number that cannot be read. -/
def unreadable : NumberForm → String
  | .integer => "failed to parse integer"
  | .float => "failed to parse float"

/-- A float without bounds. -/
def floatSpec : NumberSpec :=
  .unbounded .float (unreadable .float)

/-- An integer of at least zero. -/
def nonNegativeSpec : NumberSpec where
  form := .integer
  min := some .zero
  max := none
  unreadable := unreadable .integer
  belowMin := some "expected non-negative integer"
  aboveMax := none

/-- A range of integers or floats. -/
def rangeSpec (form : NumberForm) (allowNegative : Bool) : RangeSpec where
  form := form
  allowNegative := allowNegative
  unreadable := unreadable form
  missingBounds := "range cannot be just '..'"
  tooManyParts := "too many components in range, only one '..' is allowed"
  negative := "value cannot be negative"

/-- The list `{name=range,...}` of scores. -/
def scoresSpec : PropertySpec where
  opener := '{'
  closer := '}'
  keyValid := Charset.isUnquotedText
  valueValid := fun _ => true
  allowEmptyKey := false
  allowEmptyValue := false
  keyKind := .scoreboardId
  wording := {
    unclosed := Fault.scoresUnclosed.message
    badKey := "illegal score name"
    badValue := "illegal score value"
    emptyKey := "score name cannot be empty"
    emptyValue := "score value cannot be empty"
    missingEquals := "missing '='"
    extraComma := "extra comma in score predicate" }

/-- Reads a range for the sake of its report. -/
def readRange (form : NumberForm) (allowNegative : Bool) (value : Slice) : Reported Unit := do
  let _ ← (rangeSpec form allowNegative).read value

/-- Reads scores: a list in braces, then the range of every entry. -/
def readScores (value : Slice) : Reported Unit :=
  if !value.startsWith ['{'] then
    Reported.error value.span Fault.scoresUnopened.message
  else if !value.endsWith ['}'] then
    Reported.error value.span Fault.scoresUnclosed.message
  else do
    match ← scoresSpec.read value with
    | none => pure ()
    | some list =>
      Reported.errorIf (!list.rest.isEmpty) list.rest.span Fault.scoresTrailing.message
      Reported.each (fun entry => readRange .integer true entry.value) list.entries

/-- Checks and highlights a value after any negation. -/
def readChecked (allowEmpty : Bool) (check : ValueCheck) (kind : Option Highlight)
    (value : Slice) : Reported Unit :=
  if value.isEmpty then
    Reported.errorIf (!allowEmpty) value.span Fault.emptyNegation.message
  else do
    check.run value
    match kind with
    | some kind => Reported.token value.span kind
    | none => pure ()

/-- Reads a value that may be negated. -/
def readNegatable (allowEmpty : Bool) (check : ValueCheck) (kind : Option Highlight)
    (value : Slice) : Reported Unit :=
  if value.front? = some '!' then do
    Reported.token (value.take 1).span .operator
    readChecked allowEmpty check kind (value.drop 1).trimStart
  else
    readChecked allowEmpty check kind value

/-- Reads the value of an entry. -/
def read (predicate : SelectorPredicate) (value : Slice) : Reported Unit :=
  match predicate with
  | .float => do
    let _ ← floatSpec.read value
  | .nonNegativeInteger => do
    let _ ← nonNegativeSpec.read value
  | .range form allowNegative => readRange form allowNegative value
  | .scores => readScores value
  | .advancements => Advancements.read value
  | .negatable allowEmpty check kind => readNegatable allowEmpty check kind value
  | .word check kind => do
    check.run value
    Reported.token value.span kind

/-- An entry may have nothing after its `=`. -/
def allowsEmpty : SelectorPredicate → Bool
  | .negatable allowEmpty _ _ => allowEmpty
  | _ => false

end SelectorPredicate

end CommandScript

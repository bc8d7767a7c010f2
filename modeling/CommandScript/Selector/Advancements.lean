import CommandScript.Resource
import CommandScript.Resource.Splitter
import CommandScript.Text.Cursor

/-!
The advancements predicate of a selector.

```text
value := '{' (item (',' item)* ','?)? '}'
item  := id '=' (bool | '{' (criterion '=' bool (',' criterion '=' bool)* ','?)? '}')
```

A bad id and a bad boolean are errors after which the reading goes on; a missing
character or criterion stops it.
-/

namespace CommandScript.Advancements

/-- What is wrong with a value, apart from a missing character. -/
inductive Fault where
  | notBoolean
  | missingCriterion
  | trailing
deriving DecidableEq, Repr

/-- The wording of a fault. -/
def Fault.message : Fault → String
  | .notBoolean => "must be 'true' or 'false'"
  | .missingCriterion => "expected criterion name"
  | .trailing => "unexpected characters after advancements"

/-- Reads an id, which may be empty. A bad one is an error, but the reading goes on
behind it. -/
def readId : Reading Unit := fun c => do
  let left ← Resource.splitter c.rest .empty
  let _ ← Resource.read false .resource (Combinator.consumed c.rest left.rest)
  return some ((), c.seek left.rest)

/-- Reads `true` or `false`. -/
def readBoolean : Reading Unit := do
  let value ← Reading.readUnquoted
  if value.is "true" || value.is "false" then pure ()
  else Reading.error value.span Fault.notBoolean.message
  Reading.token value.span .keyword

/-- Reads the name of a criterion. -/
def readCriterion : Reading Unit := do
  let here ← Reading.look Cursor.currentSlice
  let criterion ← Reading.readUnquoted
  if criterion.isEmpty then
    Reading.fail here.span Fault.missingCriterion.message
  else
    Reading.token criterion.span .string

/-- Reads criteria up to the closing brace. -/
def readCriteria : Nat → Reading Unit
  | 0 => Reading.expectedValue
  | fuel + 1 => do
    if (← Reading.current?).all (· = '}') then
      return ()
    else
      readCriterion
      Reading.skipBlanks
      Reading.expect '=' (some .operator)
      Reading.skipBlanks
      readBoolean
      if ← Reading.passComma then readCriteria fuel
      else return ()

/-- Reads what an id is set to: a boolean, or criteria in braces. -/
def readSetting (fuel : Nat) : Reading Unit := do
  if (← Reading.current?) = some '{' then
    Reading.advance
    Reading.skipBlanks
    readCriteria fuel
    Reading.expect '}'
  else
    readBoolean

/-- Reads items up to the closing brace. -/
def readItems : Nat → Reading Unit
  | 0 => Reading.expectedValue
  | fuel + 1 => do
    if (← Reading.current?).all (· = '}') then
      return ()
    else
      readId
      Reading.skipBlanks
      Reading.expect '=' (some .operator)
      Reading.skipBlanks
      readSetting fuel
      if ← Reading.passComma then readItems fuel
      else return ()

/-- Reads a value with at most `fuel` items or criteria in a row. -/
def readValue (fuel : Nat) : Reading Unit := do
  Reading.expect '{'
  Reading.skipBlanks
  readItems fuel
  Reading.expect '}'
  let rest ← Reading.look Cursor.rest
  Reading.report (Reported.errorIf (!rest.isEmpty) rest.span Fault.trailing.message)

/-- Reads a value that makes up all of a slice. Every item and every criterion
takes at least one character. -/
def read (s : Slice) : Reported Unit := do
  let _ ← readValue (2 * s.text.length + 1) (.ofSlice s)

end CommandScript.Advancements

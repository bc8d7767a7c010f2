import CommandScript.Argument.Basic
import CommandScript.Number.Range

/-!
Numeric arguments: numbers with bounds, ranges, and durations.
-/

namespace CommandScript.Argument

/-! ## Numbers -/

/-- The label of a number in messages. -/
def numberLabel : NumberForm → String
  | .integer => "IntegerArgument: "
  | .float => "FloatArgument: "

/-- A number of a given form between two optional bounds. -/
def numberSpec (form : NumberForm) (min max : Option Binary64) : NumberSpec where
  form := form
  min := min
  max := max
  unreadable := "failed to parse number"
  belowMin := none
  aboveMax := none

/-- Reads a number. -/
def readNumber (form : NumberForm) (min max : Option Binary64) :
    TokenReader → Reported TokenReader :=
  readWord "expected a number" fun word =>
    Reported.labelled (numberLabel form) do
      let _ ← (numberSpec form min max).read word

/-! ## Ranges -/

/-- A range of any numbers of a given form. -/
def rangeSpec (form : NumberForm) : RangeSpec where
  form := form
  allowNegative := true
  unreadable := "NumberRange: failed to parse number"
  missingBounds := "NumberRange: range cannot be just '..'"
  tooManyParts := "NumberRange: only one '..' expected"
  negative := "NumberRange: value cannot be negative"

/-- Reads a range. -/
def readRange (form : NumberForm) : TokenReader → Reported TokenReader :=
  readWord "NumberRange: expected a range" fun word => do
    let _ ← (rangeSpec form).read word

/-! ## Durations -/

namespace Duration

/-- What is wrong with a duration. -/
inductive Fault where
  | missing
  | unreadable (digits : Slice)
  | unknownUnit (unit : Slice)
  | tooShort (min : Int) (ticks : Binary64)

/-- The wording of a fault. -/
def Fault.message : Fault → String
  | .missing => "TimeArgument: expected number optionally followed by units"
  | .unreadable digits => s!"TimeArgument: failed to parse number '{digits}'"
  | .unknownUnit unit =>
    s!"TimeArgument: unknown unit '{unit}', allowed values are " ++
      "'d' (day), 's' (second), 't' (tick)"
  | .tooShort min ticks =>
    s!"TimeArgument: a minimum of {min} ticks was expected, but got {ticks}"

/-- How many ticks a unit has; a number without unit counts ticks. -/
def ticksPer? (unit : Slice) : Option Nat :=
  if unit.is "d" then some 24000
  else if unit.is "s" then some 20
  else if unit.is "t" || unit.isEmpty then some 1
  else none

/-- Reports a duration of less than `min` ticks. -/
def checkLength (min : Int) (word digits unit : Slice) : Reported Unit :=
  match Decimal.readFloat? digits.text with
  | none => Reported.error digits.span (Fault.unreadable digits).message
  | some value =>
    match ticksPer? unit with
    | none => Reported.error unit.span (Fault.unknownUnit unit).message
    | some ticks =>
      let duration := value.mul (.ofInt ticks)
      Reported.errorIf (duration.lt (.ofInt min)) word.span (Fault.tooShort min duration).message

/-- Reads a number and the unit that may follow it. -/
def check (min : Int) (word : Slice) : Reported Unit :=
  let (digits, unit) := word.splitWhile fun c => Charset.isDigit c || c == '.'
  if digits.isEmpty then
    Reported.error word.span Fault.missing.message
  else do
    Reported.token digits.span .number
    if unit.isEmpty then pure () else Reported.token unit.span .units
    checkLength min word digits unit

end Duration

/-- Reads a duration of at least `min` ticks. -/
def readDuration (min : Int) : TokenReader → Reported TokenReader :=
  readWord Duration.Fault.missing.message (Duration.check min)

end CommandScript.Argument

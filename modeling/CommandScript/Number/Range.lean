import CommandScript.Number.Bounded
import CommandScript.Text.Split

/-!
Ranges of numbers: `a`, `a..b`, `a..` and `..b`.

An open end is infinite. Both ends are read even if the first is wrong, and a
range in which one end cannot be read has no value.
-/

namespace CommandScript

/-- Form and wording of a range. -/
structure RangeSpec where
  form : NumberForm
  allowNegative : Bool
  unreadable : String
  missingBounds : String
  tooManyParts : String
  negative : String

namespace RangeSpec

/-- How one end of the range is written. -/
def bound (spec : RangeSpec) : NumberSpec where
  form := spec.form
  min := if spec.allowNegative then none else some .zero
  max := none
  unreadable := spec.unreadable
  belowMin := some spec.negative
  aboveMax := none

/-- Reads one end of a range, `openEnd` if nothing is written there. -/
def readBound (spec : RangeSpec) (openEnd : Binary64) (s : Slice) : Reported (Option Binary64) :=
  if s.isEmpty then pure (some openEnd) else spec.bound.read s

/-- Reads a range that makes up all of a slice. -/
def read (spec : RangeSpec) (s : Slice) : Reported (Option (Binary64 × Binary64)) :=
  match s.splitOn ['.', '.'] with
  | [single] => do
    let value ← spec.bound.read single
    return value.map fun v => (v, v)
  | [low, high] => do
    Reported.token ((s.drop low.text.length).take 2).span .operator
    if low.isEmpty && high.isEmpty then
      Reported.error s.span spec.missingBounds
      return none
    else
      let low ← spec.readBound (.infinity true) low
      let high ← spec.readBound (.infinity false) high
      return low.bind fun l => high.map fun h => (l, h)
  | _ => do
    Reported.error s.span spec.tooManyParts
    return none

end RangeSpec

end CommandScript

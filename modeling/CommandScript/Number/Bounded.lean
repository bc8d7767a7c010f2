import CommandScript.Number.Decimal
import CommandScript.Report

/-!
Bounded numbers.

A number is read as an integer or as a float and compared with its bounds as a
float. A number that can be read is highlighted and yielded even if it violates a
bound; each violated bound is one error.
-/

namespace CommandScript

/-- How a number is written. -/
inductive NumberForm where
  | integer
  | float
deriving DecidableEq, Repr

/-- The finite value of a text in a given form. -/
def NumberForm.read? (form : NumberForm) (cs : List Char) : Option Binary64 :=
  match form with
  | .integer => (Decimal.readInteger? cs).map Binary64.ofInt
  | .float => (Decimal.readFloat? cs).filter Binary64.isFinite

/-- Form, bounds and wording of a number. A bound without a message of its own is
named in the message. -/
structure NumberSpec where
  form : NumberForm
  min : Option Binary64
  max : Option Binary64
  unreadable : String
  belowMin : Option String
  aboveMax : Option String

namespace NumberSpec

/-- A number without bounds. -/
def unbounded (form : NumberForm) (unreadable : String) : NumberSpec :=
  ⟨form, none, none, unreadable, none, none⟩

/-- The message for a value below the bound. -/
def belowMessage (spec : NumberSpec) (value bound : Binary64) : String :=
  spec.belowMin.getD s!"{value} is below the minimum of {bound}"

/-- The message for a value above the bound. -/
def aboveMessage (spec : NumberSpec) (value bound : Binary64) : String :=
  spec.aboveMax.getD s!"{value} exceeds maximum of {bound}"

/-- Reports a value outside the bounds, at the slice where it is written. -/
def checkBounds (spec : NumberSpec) (s : Slice) (value : Binary64) : Reported Unit := do
  match spec.min with
  | some min => Reported.errorIf (value.lt min) s.span (spec.belowMessage value min)
  | none => pure ()
  match spec.max with
  | some max => Reported.errorIf (max.lt value) s.span (spec.aboveMessage value max)
  | none => pure ()

/-- Reads a number that makes up all of a slice. -/
def read (spec : NumberSpec) (s : Slice) : Reported (Option Binary64) :=
  match spec.form.read? s.text with
  | none => do
    Reported.error s.span spec.unreadable
    return none
  | some value => do
    Reported.token s.span .number
    spec.checkBounds s value
    return some value

end NumberSpec

end CommandScript

import CommandScript.Number.Binary64
import CommandScript.Text.Charset

/-!
Numbers in decimal digits: how they are read, and how one is shown in a message.

Integers are an optional sign and digits, within the bounds of a word. Floats may
have a fraction and an exponent, or be one of the words for infinity and for no
value. A float is shown with the fewest digits that read back to it, never with an
exponent, and without a point if it is an integer.
-/

namespace CommandScript.Decimal

/-! ## Reading -/

/-- The value of some digits. -/
def ofDigits (cs : List Char) : Nat :=
  cs.foldl (fun n c => 10 * n + (c.toNat - '0'.toNat)) 0

/-- At least one digit and nothing else. -/
def isDigits (cs : List Char) : Bool :=
  !cs.isEmpty && cs.all Charset.isDigit

/-- An optional sign; whether it is a minus, and what follows. -/
def splitSign : List Char → Bool × List Char
  | '+' :: cs => (false, cs)
  | '-' :: cs => (true, cs)
  | cs => (false, cs)

/-- An integer of 64 bits with sign: an optional sign and digits. -/
def readInteger? (cs : List Char) : Option Int :=
  let (negative, digits) := splitSign cs
  let magnitude : Int := ofDigits digits
  let value := if negative then -magnitude else magnitude
  if isDigits digits && -Nat.pow 2 63 ≤ value && value < Nat.pow 2 63 then some value else none

/-- A natural number of 32 bits: digits after an optional plus. -/
def readNatural? (cs : List Char) : Option Nat :=
  let (negative, digits) := splitSign cs
  let value := ofDigits digits
  if isDigits digits && !negative && value < Nat.pow 2 32 then some value else none

/-- An exponent, if there is one: the letter, an optional sign and digits. -/
def readExponent? : List Char → Option Int
  | [] => some 0
  | c :: cs =>
    let (negative, digits) := splitSign cs
    let magnitude : Int := ofDigits digits
    if Charset.toLower c = 'e' && isDigits digits then
      some (if negative then -magnitude else magnitude)
    else
      none

/-- The digits after a point, if there is one, and what follows them. -/
def splitFraction : List Char → List Char × List Char
  | '.' :: cs => cs.span Charset.isDigit
  | cs => ([], cs)

/-- A number without sign: digits with an optional point before, among or after
them, then an optional exponent. -/
def readMagnitude? (negative : Bool) (cs : List Char) : Option Binary64 :=
  let (whole, afterWhole) := cs.span Charset.isDigit
  let (fraction, afterFraction) := splitFraction afterWhole
  let digits := whole ++ fraction
  if digits.isEmpty then
    none
  else
    (readExponent? afterFraction).map fun exponent =>
      Binary64.ofDecimal negative (ofDigits digits) (exponent - fraction.length)

/-- A float: an optional sign, then a number or one of the words `inf`,
`infinity` and `nan` in any case. -/
def readFloat? (cs : List Char) : Option Binary64 :=
  let (negative, unsigned) := splitSign cs
  let word := unsigned.map Charset.toLower
  if word = ['i', 'n', 'f'] ∨ word = ['i', 'n', 'f', 'i', 'n', 'i', 't', 'y'] then
    some (.infinity negative)
  else if word = ['n', 'a', 'n'] then
    some .nan
  else
    readMagnitude? negative unsigned

/-! ## Showing -/

/-- The reals that round to a finite number lie between `low` and `high` quarters
of a unit, both included exactly when `closed`. -/
structure Interval where
  low : Nat
  high : Nat
  closed : Bool

/-- The reals that round to a positive number of units. Below a power of two the
next number is only half as far away as above it. -/
def roundingInterval (units : Nat) : Interval :=
  let quantum := Nat.pow 2 (Binary64.excessBits units)
  let below := if units = Nat.pow 2 52 * quantum ∧ 1 < quantum then quantum else 2 * quantum
  ⟨4 * units - below, 4 * units + 2 * quantum, units / quantum % 2 = 0⟩

/-- The fraction `num / den` of quarters of a unit lies in the interval. -/
def Interval.contains (i : Interval) (num den : Nat) : Bool :=
  if i.closed then i.low * den ≤ num && num ≤ i.high * den
  else i.low * den < num && num < i.high * den

/-- The multiple of `10 ^ exponent` in the rounding interval of a number of units
that is nearest to it, the larger one of two; `none` if there is no such multiple. -/
def nearestOnGrid? (units : Nat) (exponent : Int) : Option Nat :=
  let interval := roundingInterval units
  let up := if exponent < 0 then 1 else Nat.pow 10 exponent.natAbs
  let down := if exponent < 0 then Nat.pow 10 exponent.natAbs else 1
  let grid := Binary64.one * up
  let low := units * down / grid
  let isIn (k : Nat) := interval.contains (4 * k * grid) down
  if isIn low && isIn (low + 1) then
    some (if 2 * units * down < (2 * low + 1) * grid then low else low + 1)
  else if isIn low then some low
  else if isIn (low + 1) then some (low + 1)
  else none

/-- The first power of ten, from `exponent` downwards, of which a multiple reads
back to the number, with that multiple. -/
def shortestFrom (units : Nat) : Nat → Int → Nat × Int
  | 0, exponent => (0, exponent)
  | fuel + 1, exponent =>
    match nearestOnGrid? units exponent with
    | some digits => (digits, exponent)
    | none => shortestFrom units fuel (exponent - 1)

/-- The fewest digits that read back to a positive number of units, and the power
of ten that they count. The search ends at the latest where the number itself is
a multiple of the power. -/
def shortest (units : Nat) : Nat × Int :=
  let start := (Nat.toDigits 10 (units / Binary64.one)).length
  shortestFrom units (start + 1075) start

/-- Digits that count a power of ten, written with a point where one is needed. -/
def showPositional (digits : Nat) (exponent : Int) : List Char :=
  let ds := Nat.toDigits 10 digits
  if exponent < 0 then
    let places := exponent.natAbs
    let padded := List.replicate (places + 1 - ds.length) '0' ++ ds
    let whole := padded.length - places
    padded.take whole ++ '.' :: padded.drop whole
  else
    ds ++ List.replicate exponent.natAbs '0'

/-- A number as it is shown in messages. -/
def showFloat : Binary64 → String
  | .nan => "NaN"
  | .infinity negative => if negative then "-inf" else "inf"
  | .finite negative units =>
    let sign := if negative then ['-'] else []
    let (digits, exponent) := if units = 0 then (0, 0) else shortest units
    String.ofList (sign ++ showPositional digits exponent)

end CommandScript.Decimal

instance : ToString CommandScript.Binary64 := ⟨CommandScript.Decimal.showFloat⟩

import CommandScript.Json

/-!
The value of a JSON numeral.

Integers of 64 bits are exact. Any other numeral is a significand of at most 64
bits, made of its first digits, times or divided by one power of ten: both are
rounded to a float first, and so is the result. A numeral beyond all floats has no
value.
-/

namespace CommandScript

/-- A numeral: its sign, the digits before and after the point, and its exponent.
`isInteger` tells one without point and exponent. -/
structure Numeral where
  negative : Bool
  whole : List Char
  fraction : List Char
  exponent : Int
  isInteger : Bool
deriving DecidableEq, Repr

namespace Numeral

/-- The largest significand. -/
def maxSignificand : Nat :=
  Nat.pow 2 64 - 1

/-- A significand with one more digit, if it has room for it. -/
def pushDigit? (significand : Nat) (c : Char) : Option Nat :=
  let next := 10 * significand + Decimal.ofDigits [c]
  if next ≤ maxSignificand then some next else none

/-- The significand that the digits before the point make up, and how many of them
came too late for it. -/
def takeWhole (significand : Nat) : List Char → Nat × Nat
  | [] => (significand, 0)
  | c :: cs =>
    match pushDigit? significand c with
    | some next => takeWhole next cs
    | none => (significand, (c :: cs).length)

/-- The significand that the digits after the point bring it to, and how many of
them it took. -/
def takeFraction (significand : Nat) : List Char → Nat × Nat
  | [] => (significand, 0)
  | c :: cs =>
    match pushDigit? significand c with
    | some next =>
      let (final, taken) := takeFraction next cs
      (final, taken + 1)
    | none => (significand, 0)

/-- A power of ten as a float. -/
def tenTo (n : Nat) : Binary64 :=
  .ofDecimal false 1 n

/-- A float divided by a power of ten, in steps of `10 ^ 308` where that is needed. -/
def divideByTenTo (x : Binary64) (n : Nat) : Binary64 :=
  if n ≤ 308 then x.div (tenTo n)
  else if x = .zero then x
  else divideByTenTo (x.div (tenTo 308)) (n - 308)
termination_by n

/-- A significand scaled by a power of ten; `none` beyond all floats. -/
def scale? (significand : Nat) (exponent : Int) : Option Binary64 :=
  let x := Binary64.ofInt significand
  if exponent < 0 then some (divideByTenTo x exponent.natAbs)
  else if significand = 0 then some x
  else if exponent ≤ 308 then some (x.mul (tenTo exponent.natAbs)) |>.filter Binary64.isFinite
  else none

/-- The numeral as a float. -/
def float? (n : Numeral) : Option Binary64 :=
  let (significand, dropped) := takeWhole 0 n.whole
  let (significand, taken) := takeFraction significand n.fraction
  (scale? significand (n.exponent + dropped - taken)).map fun x =>
    if n.negative then x.neg else x

/-- The value of the numeral: minus zero is a float, and so is an integer of more
than 64 bits. -/
def value? (n : Numeral) : Option JsonNumber :=
  let magnitude := Decimal.ofDigits n.whole
  if n.isInteger && !n.negative && magnitude ≤ maxSignificand then
    some (.natural magnitude)
  else if n.isInteger && n.negative && 0 < magnitude && magnitude ≤ Nat.pow 2 63 then
    some (.negative (-magnitude))
  else
    n.float?.map .float

end Numeral

end CommandScript

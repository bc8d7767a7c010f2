/-!
Floating-point numbers of 64 bits, computed exactly.

Every finite number of the format is a whole number of units of `2 ^ -1074`, so
that is how it is kept: a sign and a count of units. Arithmetic is done on natural
numbers and then rounded to 53 significant bits, to the nearest and, from the
middle, to the even neighbour; what is too large for the format is infinite.
-/

namespace CommandScript

/-- A number of the binary64 format. -/
inductive Binary64 where
  | finite (negative : Bool) (units : Nat)
  | infinity (negative : Bool)
  | nan
deriving DecidableEq, Repr

namespace Binary64

/-- The number of units that make up one. -/
def one : Nat :=
  Nat.pow 2 1074

/-- The number of units from which on a magnitude is infinite. -/
def limit : Nat :=
  Nat.pow 2 2098

/-- How many low bits of a count of units are dropped to leave 53. -/
def excessBits (units : Nat) : Nat :=
  units.log2 - 52

/-- The count of units with at most 53 significant bits that is nearest to
`num / den`; of two nearest ones the even one. -/
def roundUnits (num den : Nat) : Nat :=
  let quantum := Nat.pow 2 (excessBits (num / den))
  let step := den * quantum
  let low := num / step
  let twice := 2 * (num % step)
  let near := if step < twice ∨ (twice = step ∧ low % 2 = 1) then low + 1 else low
  near * quantum

/-- The number nearest to `num / den` units. -/
def ofUnits (negative : Bool) (num den : Nat) : Binary64 :=
  let units := roundUnits num den
  if units < limit then finite negative units else infinity negative

/-- The number nearest to an integer. -/
def ofInt (i : Int) : Binary64 :=
  ofUnits (i < 0) (i.natAbs * one) 1

/-- The number nearest to `mantissa * 10 ^ exponent`. A magnitude of more than 310
digits before the point, or with more than 330 zeros after it, lies outside the
format whatever its digits. -/
def ofDecimal (negative : Bool) (mantissa : Nat) (exponent : Int) : Binary64 :=
  let magnitude := exponent + (Nat.toDigits 10 mantissa).length
  if mantissa = 0 then finite negative 0
  else if magnitude > 310 then infinity negative
  else if magnitude < -330 then finite negative 0
  else if exponent < 0 then ofUnits negative (mantissa * one) (Nat.pow 10 exponent.natAbs)
  else ofUnits negative (mantissa * Nat.pow 10 exponent.natAbs * one) 1

/-- Zero. -/
def zero : Binary64 :=
  finite false 0

/-- Neither infinite nor without a value. -/
def isFinite : Binary64 → Bool
  | finite .. => true
  | _ => false

/-- The count of units with its sign. -/
def signedUnits (negative : Bool) (units : Nat) : Int :=
  if negative then -units else units

/-- The first number is smaller. Nothing compares with a number without value. -/
def lt : Binary64 → Binary64 → Bool
  | finite s a, finite t b => signedUnits s a < signedUnits t b
  | finite _ _, infinity t => !t
  | infinity s, finite _ _ => s
  | infinity s, infinity t => s && !t
  | nan, _ => false
  | _, nan => false

/-- The opposite number. -/
def neg : Binary64 → Binary64
  | finite s a => finite (!s) a
  | infinity s => infinity (!s)
  | nan => nan

/-- The product, rounded. -/
def mul : Binary64 → Binary64 → Binary64
  | finite s a, finite t b => ofUnits (s != t) (a * b) one
  | finite s a, infinity t => if a = 0 then nan else infinity (s != t)
  | infinity s, finite t b => if b = 0 then nan else infinity (s != t)
  | infinity s, infinity t => infinity (s != t)
  | nan, _ => nan
  | _, nan => nan

/-- The quotient, rounded. -/
def div : Binary64 → Binary64 → Binary64
  | finite s a, finite t b =>
    if b = 0 then (if a = 0 then nan else infinity (s != t)) else ofUnits (s != t) (a * one) b
  | finite s _, infinity t => finite (s != t) 0
  | infinity s, finite t _ => infinity (s != t)
  | infinity _, infinity _ => nan
  | nan, _ => nan
  | _, nan => nan

/-! ## The word of 64 bits -/

/-- The bit of the sign in its place. -/
def signBit (negative : Bool) : Nat :=
  if negative then Nat.pow 2 63 else 0

/-- The word of 64 bits. The count of units is its own lower part as long as it
fits; beyond that, the exponent counts the bits dropped. -/
def bits : Binary64 → Nat
  | finite s units =>
    signBit s + excessBits units * Nat.pow 2 52 + units / Nat.pow 2 (excessBits units)
  | infinity s => signBit s + 2047 * Nat.pow 2 52
  | nan => 2047 * Nat.pow 2 52 + Nat.pow 2 51

/-- The word as sixteen hexadecimal digits. -/
def toHex (x : Binary64) : String :=
  let digits := Nat.toDigits 16 x.bits
  String.ofList (List.replicate (16 - digits.length) '0' ++ digits)

end Binary64

end CommandScript

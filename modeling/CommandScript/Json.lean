import CommandScript.Number.Decimal

/-!
JSON values as they are written.

Objects keep every member in the order of the text, repeated keys included; what a
repetition means is for the reader of the value to say. A numeral beyond all
floats and a string with half of a surrogate pair are kept without a value: they
do no harm in a part that nobody looks at, and whoever looks at them fails.
-/

namespace CommandScript

/-- A number: an integer of 64 bits, with or without sign, or a float. -/
inductive JsonNumber where
  | natural (n : Nat)
  | negative (i : Int)
  | float (x : Binary64)
deriving DecidableEq, Repr

namespace JsonNumber

/-- The number as a float. -/
def toFloat : JsonNumber → Binary64
  | natural n => .ofInt n
  | negative i => .ofInt i
  | float x => x

/-- The number as an integer of 64 bits with sign, if it is written as one. -/
def toInteger? : JsonNumber → Option Int
  | natural n => if n < Nat.pow 2 63 then some n else none
  | negative i => some i
  | float _ => none

end JsonNumber

/-- A JSON value. -/
inductive Json where
  | null
  | bool (b : Bool)
  | number (n : Option JsonNumber)
  | string (s : Option String)
  | array (elements : List Json)
  | object (members : List (Option String × Json))

namespace Json

/-- The truth value of `true` and `false`. -/
def bool? : Json → Option Bool
  | bool b => some b
  | _ => none

/-- The text of a string. -/
def string? : Json → Option String
  | string s => s
  | _ => none

/-- The value of a number. -/
def number? : Json → Option JsonNumber
  | number n => n
  | _ => none

/-- The elements of an array. -/
def array? : Json → Option (List Json)
  | array elements => some elements
  | _ => none

/-- The members of an object whose keys all have a text. -/
def members? : Json → Option (List (String × Json))
  | object members => members.mapM fun (key, value) => key.map (·, value)
  | _ => none

mutual

/-- Everything in the value has a text or a number, and at most `room` arrays and
objects are nested. -/
def isSound (room : Nat) : Json → Bool
  | null => true
  | bool _ => true
  | number n => n.isSome
  | string s => s.isSome
  | array elements =>
    match room with
    | 0 => false
    | room + 1 => allSound room elements
  | object members =>
    match room with
    | 0 => false
    | room + 1 => allMembersSound room members

/-- All elements of an array are sound. -/
def allSound (room : Nat) : List Json → Bool
  | [] => true
  | element :: elements => element.isSound room && allSound room elements

/-- All members of an object are sound. -/
def allMembersSound (room : Nat) : List (Option String × Json) → Bool
  | [] => true
  | (key, value) :: members =>
    key.isSome && value.isSound room && allMembersSound room members

end

/-- The string elements of an array of strings. -/
def strings? (json : Json) : Option (List String) := do
  (← json.array?).mapM string?

end Json

/-- Sets a key to a value: a key that is there keeps its place. -/
def setEntry {α : Type} (key : String) (value : α) : List (String × α) → List (String × α)
  | [] => [(key, value)]
  | (k, v) :: entries =>
    if k = key then (k, value) :: entries else (k, v) :: setEntry key value entries

/-- The entries of a map: of a repeated key the last value, in the first place. -/
def entriesOf {α : Type} (members : List (String × α)) : List (String × α) :=
  members.foldl (fun entries (key, value) => setEntry key value entries) []

end CommandScript

import CommandScript.Text.Slice

/-!
Splitting a slice at a separator.

`splitOn` cuts at every occurrence of the separator, leftmost first and without
overlaps, so that the parts joined by the separator give the text back. The
empty separator occurs in front of every character and at the end. `splitOnN`
stops cutting when one part less than its limit is cut off.
-/

namespace CommandScript

/-- Puts a character in front of the first of some parts. -/
def consHead (c : Char) : List (List Char) → List (List Char)
  | [] => [[c]]
  | part :: parts => (c :: part) :: parts

/-- The parts of a text between the occurrences of a separator that is not
empty; `skip` characters of an occurrence are still to be passed over. -/
def partsFrom (separator : List Char) : Nat → List Char → List (List Char)
  | _, [] => [[]]
  | skip + 1, _ :: cs => partsFrom separator skip cs
  | 0, c :: cs =>
    if separator.isPrefixOf (c :: cs) then
      [] :: partsFrom separator (separator.length - 1) cs
    else
      consHead c (partsFrom separator 0 cs)

/-- The parts of a text between the occurrences of a separator. -/
def partsOf (separator text : List Char) : List (List Char) :=
  if separator.isEmpty then
    [] :: text.map ([·]) ++ [[]]
  else
    partsFrom separator 0 text

/-- Parts from the one of index `n` on, joined into one again. -/
def rejoin (separator : List Char) (n : Nat) (parts : List (List Char)) : List (List Char) :=
  if parts.length ≤ n + 1 then
    parts
  else
    parts.take n ++ [separator.intercalate (parts.drop n)]

namespace Slice

/-- Consecutive parts of a text as slices, the first of which begins at `start`
while `gap` bytes stand between two of them. -/
def place (gap : Nat) : Nat → List (List Char) → List Slice
  | _, [] => []
  | start, part :: parts => ⟨part, start⟩ :: place gap (start + byteLength part + gap) parts

/-- The parts between the occurrences of a separator. -/
def splitOn (separator : List Char) (s : Slice) : List Slice :=
  place (byteLength separator) s.start (partsOf separator s.text)

/-- At most `limit` parts, the last of which holds all that is left. -/
def splitOnN (limit : Nat) (separator : List Char) (s : Slice) : List Slice :=
  match limit with
  | 0 => []
  | n + 1 => place (byteLength separator) s.start (rejoin separator n (partsOf separator s.text))

end Slice

end CommandScript

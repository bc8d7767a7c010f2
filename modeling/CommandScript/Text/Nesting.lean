import CommandScript.Text.Slice

/-!
Brackets and quotes inside a slice.

`Nesting` is the state of a scan from left to right: how many brackets are open,
which quote is open, and whether the next character is escaped. Curly and square
brackets count alike, a closing bracket with nothing open changes nothing, and
inside quotes only the escape and the closing quote matter. The closing bracket
of a list and the separators at top level are both read off this one scan.
-/

namespace CommandScript

/-- Where a scan stands among brackets and quotes. -/
structure Nesting where
  depth : Nat
  quote : Option Char
  escaped : Bool
deriving DecidableEq, Repr

namespace Nesting

/-- Nothing is open. -/
def outside : Nesting :=
  ⟨0, none, false⟩

/-- A bracket that opens. -/
def isOpener (c : Char) : Bool :=
  c == '\x7b' || c == '['

/-- A bracket that closes. -/
def isCloser (c : Char) : Bool :=
  c == '\x7d' || c == ']'

/-- The state after one more character. -/
def step (n : Nesting) (c : Char) : Nesting :=
  match n.quote with
  | some q =>
    if n.escaped then { n with escaped := false }
    else if c = '\\' then { n with escaped := true }
    else if c = q then { n with quote := none }
    else n
  | none =>
    if Charset.isQuote c then { n with quote := some c }
    else if isOpener c then { n with depth := n.depth + 1 }
    else if isCloser c then { n with depth := n.depth - 1 }
    else n

/-- The state after a text. -/
def scan (n : Nesting) (cs : List Char) : Nesting :=
  cs.foldl step n

/-- A bracket outside quotes whose closing leaves nothing open. -/
def closesAll (n : Nesting) (c : Char) : Bool :=
  n.quote.isNone && isCloser c && n.depth ≤ 1

/-- A separator counts outside quotes and brackets only, and neither a quote nor
a bracket ever is one. -/
def separates (n : Nesting) (separator c : Char) : Bool :=
  n.quote.isNone && n.depth == 0 && c == separator &&
    !Charset.isQuote c && !isOpener c && !isCloser c

/-- The characters before the first bracket that leaves nothing open. -/
def beforeClosing? : Nesting → List Char → Option (List Char)
  | _, [] => none
  | n, c :: cs =>
    if n.closesAll c then some [] else (beforeClosing? (n.step c) cs).map (c :: ·)

/-- The texts between the separators that count. -/
def topLevelParts (separator : Char) : Nesting → List Char → List (List Char)
  | _, [] => [[]]
  | n, c :: cs =>
    if n.separates separator c then
      [] :: topLevelParts separator n cs
    else
      match topLevelParts separator (n.step c) cs with
      | [] => [[c]]
      | part :: parts => (c :: part) :: parts

end Nesting

/-- The parts of a slice and the separators between them, one fewer. -/
structure TopLevelSplit where
  parts : List Slice
  separators : List Slice
deriving DecidableEq, Repr

namespace Slice

/-- The offset of the bracket that closes the one at the beginning: the first
bracket outside quotes that leaves nothing open. -/
def findClosing? (s : Slice) : Option Nat :=
  (Nesting.outside.beforeClosing? s.text).map byteLength

/-- Consecutive parts and the one-character separators between them as slices,
the first of which begins at `start`. -/
def placeParts (separator : Char) : Nat → List (List Char) → TopLevelSplit
  | _, [] => ⟨[], []⟩
  | start, [part] => ⟨[⟨part, start⟩], []⟩
  | start, part :: parts =>
    let cut := start + byteLength part
    let after := placeParts separator (cut + separator.utf8Size) parts
    ⟨⟨part, start⟩ :: after.parts, ⟨[separator], cut⟩ :: after.separators⟩

/-- Cuts at every separator outside quotes and brackets. -/
def splitTopLevel (separator : Char) (s : Slice) : TopLevelSplit :=
  placeParts separator s.start (Nesting.outside.topLevelParts separator s.text)

end Slice

end CommandScript

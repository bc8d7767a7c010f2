import CommandScript.Report
import CommandScript.Text.Quoted

/-!
A cursor over one slice, and readings with it.

A `Cursor` keeps the whole slice, for errors about all of it, and the part that is
not read yet, which is always a suffix of the whole. Moves never report; only
`expect`, `readQuoted` and `expectedValue` do.

`Reading` is the monad of the recursive readers built on a cursor: a step moves
the cursor on and yields a value, or it stops because the structure at hand cannot
be read any further. Whatever was reported before a stop is kept.
-/

namespace CommandScript

/-- A slice and what is left of it. -/
structure Cursor where
  whole : Slice
  rest : Slice
deriving DecidableEq, Repr

namespace Cursor

/-- The cursor in front of the first character. -/
def ofSlice (s : Slice) : Cursor :=
  ⟨s, s⟩

/-- The character under the cursor. -/
def current? (c : Cursor) : Option Char :=
  c.rest.front?

/-- The character `n` places ahead. -/
def peek? (n : Nat) (c : Cursor) : Option Char :=
  c.rest.text[n]?

/-- At least `n` characters are left. -/
def canRead (n : Nat) (c : Cursor) : Bool :=
  n ≤ c.rest.text.length

/-- Nothing is left. -/
def atEnd (c : Cursor) : Bool :=
  c.rest.isEmpty

/-- The character under the cursor as a slice, empty at the end. -/
def currentSlice (c : Cursor) : Slice :=
  c.rest.take 1

/-- Moves past one character; at the end it stays. -/
def advance (c : Cursor) : Cursor :=
  { c with rest := c.rest.drop 1 }

/-- Moves to what is left after `rest`, a suffix of the rest at hand. -/
def seek (rest : Slice) (c : Cursor) : Cursor :=
  { c with rest := rest }

/-- Moves past all characters that satisfy `p` and yields them. -/
def readWhile (p : Char → Bool) (c : Cursor) : Slice × Cursor :=
  let (taken, rest) := c.rest.splitWhile p
  (taken, c.seek rest)

/-- Moves past blanks. -/
def skipBlanks (c : Cursor) : Cursor :=
  (c.readWhile Charset.isBlank).2

/-- Moves past unquoted characters and yields them. -/
def readUnquoted (c : Cursor) : Slice × Cursor :=
  c.readWhile Charset.isUnquoted

/-- What a cursor fails to find. -/
inductive Fault where
  | expected (c : Char)
  | expectedBeforeEnd (c : Char)
  | expectedValue
deriving DecidableEq, Repr

/-- The wording of a fault. -/
def Fault.message : Fault → String
  | .expected c => s!"expected '{c}'"
  | .expectedBeforeEnd c => s!"expected '{c}' but got end of string"
  | .expectedValue => "expected value"

/-- Moves past the character `ch`, highlighted as `kind`. If something else is
under the cursor, that is an error there, or over the whole slice at its end, and
the cursor stays. -/
def expect (ch : Char) (kind : Option Highlight) (c : Cursor) : Reported (Bool × Cursor) :=
  if c.current? = some ch then do
    match kind with
    | some kind => Reported.token c.currentSlice.span kind
    | none => pure ()
    return (true, c.advance)
  else if c.atEnd then do
    Reported.error c.whole.span (Fault.expectedBeforeEnd ch).message
    return (false, c)
  else do
    Reported.error c.currentSlice.span (Fault.expected ch).message
    return (false, c)

/-- Reads a quoted string with both of its quotes, whichever character opens it.
A missing closing quote is an error and yields nothing; the cursor is then at the
end. -/
def readQuoted (c : Cursor) : Reported (Option Slice × Cursor) :=
  match c.rest.text with
  | [] => pure (some c.rest, c)
  | quote :: cs =>
    let (body, _) := splitQuoted quote cs
    let inside := c.seek (c.rest.drop (1 + body.length))
    do
      let (closed, after) ← inside.expect quote none
      if closed then
        return (some (c.rest.take (2 + body.length)), after)
      else
        return (none, after)

/-- Reports that a value is missing, over the whole slice. -/
def expectedValue (c : Cursor) : Reported Unit :=
  Reported.error c.whole.span Fault.expectedValue.message

end Cursor

/-! ## Readings -/

/-- A step of a recursive reader. -/
def Reading (α : Type) : Type :=
  Cursor → Reported (Option (α × Cursor))

namespace Reading

/-- Yields a value and leaves the cursor alone. -/
def pure {α : Type} (a : α) : Reading α :=
  fun c => Pure.pure (some (a, c))

/-- One step after the other; nothing follows a stop. -/
def bind {α β : Type} (x : Reading α) (f : α → Reading β) : Reading β :=
  fun c => do
    match ← x c with
    | some (a, c) => f a c
    | none => return none

instance : Monad Reading where
  pure := Reading.pure
  bind := Reading.bind

/-- What a step and those after it come to. -/
theorem run_bind {α β : Type} (x : Reading α) (f : α → Reading β) (c : Cursor) :
    (x >>= f) c = x c >>= fun
      | some (a, c) => f a c
      | none => Pure.pure none := rfl

instance : LawfulMonad Reading := LawfulMonad.mk' _
  (fun {α} x => by
    funext c
    have same : (fun o : Option (α × Cursor) => match o with
        | some (a, c) => (Pure.pure (some (a, c)) : Reported (Option (α × Cursor)))
        | none => Pure.pure none) = Pure.pure := by
      funext o
      cases o <;> rfl
    exact (congrArg (x c >>= ·) same).trans (bind_pure (x c)))
  (fun {α β} a f => by
    funext c
    exact pure_bind (some (a, c)) fun
      | some (a, c) => f a c
      | none => Pure.pure none)
  (fun x f g => by
    funext c
    rw [run_bind, run_bind, run_bind, bind_assoc]
    congr 1
    funext o
    cases o with
    | none => exact pure_bind _ _
    | some _ => rfl)

/-- Stops. -/
def stop {α : Type} : Reading α :=
  fun _ => Pure.pure none

/-- What `f` says of the cursor. -/
def look {α : Type} (f : Cursor → α) : Reading α :=
  fun c => Pure.pure (some (f c, c))

/-- Moves the cursor. -/
def move {α : Type} (f : Cursor → α × Cursor) : Reading α :=
  fun c => Pure.pure (some (f c))

/-- Runs a reader of slices beside the cursor, which stays. -/
def report {α : Type} (x : Reported α) : Reading α :=
  fun c => do return some (← x, c)

/-- Reports an error; the reading goes on. -/
def error (span : Span) (message : String) : Reading Unit :=
  report (Reported.error span message)

/-- Reports an error and stops. -/
def fail {α : Type} (span : Span) (message : String) : Reading α :=
  fun _ => do
    Reported.error span message
    return none

/-- Reports a token. -/
def token (span : Span) (kind : Highlight) : Reading Unit :=
  report (Reported.token span kind)

/-- The character under the cursor. -/
def current? : Reading (Option Char) :=
  look Cursor.current?

/-- Moves past one character. -/
def advance : Reading Unit :=
  move fun c => ((), c.advance)

/-- Moves past one character, highlighted as `kind`. -/
def advanceOver (kind : Highlight) : Reading Unit :=
  fun c => do
    Reported.token c.currentSlice.span kind
    return some ((), c.advance)

/-- Moves past blanks. -/
def skipBlanks : Reading Unit :=
  move fun c => ((), c.skipBlanks)

/-- Moves past all characters that satisfy `p`. -/
def readWhile (p : Char → Bool) : Reading Slice :=
  move (Cursor.readWhile p)

/-- Moves past unquoted characters. -/
def readUnquoted : Reading Slice :=
  move Cursor.readUnquoted

/-- Moves past the character `ch` or stops. -/
def expect (ch : Char) (kind : Option Highlight := none) : Reading Unit :=
  fun c => do
    let (found, c) ← c.expect ch kind
    return if found then some ((), c) else none

/-- Reads a quoted string or stops. -/
def readQuoted : Reading Slice :=
  fun c => do
    let (quoted, c) ← c.readQuoted
    return quoted.map (·, c)

/-- Reports that a value is missing and stops. -/
def expectedValue {α : Type} : Reading α :=
  fun c => do
    c.expectedValue
    return none

/-- Moves past a comma and the blanks around it; says whether there was one. -/
def passComma : Reading Bool := do
  skipBlanks
  if (← current?) = some ',' then
    advance
    skipBlanks
    return true
  else
    return false

end Reading

end CommandScript

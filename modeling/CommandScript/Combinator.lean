import CommandScript.Report

/-!
Combinators for small grammars.

A combinator reads a beginning of a slice and yields what is left together with a
flag. The flag only says whether the enclosing sequence goes on; it does not say
that nothing was reported. What a combinator read can be highlighted, or stored
under a name.
-/

namespace CommandScript

/-- Slices that were stored under names, the latest first. -/
structure Captures where
  entries : List (String × Slice)
deriving DecidableEq, Repr

namespace Captures

/-- Nothing is stored. -/
def empty : Captures :=
  ⟨[]⟩

/-- Stores a slice in place of any slice stored under that name before. -/
def insert (name : String) (s : Slice) (captures : Captures) : Captures :=
  ⟨(name, s) :: captures.entries⟩

/-- The slice stored under a name. -/
def get? (name : String) (captures : Captures) : Option Slice :=
  captures.entries.lookup name

/-- What is stored last under a name is what is found there; other names keep theirs. -/
theorem get?_insert (stored name : String) (s : Slice) (captures : Captures) :
    (captures.insert stored s).get? name = if name = stored then some s else captures.get? name := by
  rw [insert, get?, List.lookup_cons]
  split
  · rename_i same
    rw [if_pos (beq_iff_eq.1 same)]
  · rename_i other
    rw [if_neg (beq_eq_false_iff_ne.1 other)]
    rfl

end Captures

/-- What a combinator leaves: the unread rest, whether to go on, and the captures. -/
structure Leftover where
  rest : Slice
  goOn : Bool
  captures : Captures
deriving DecidableEq, Repr

/-- A reader of a beginning of a slice. -/
def Combinator : Type :=
  Slice → Captures → Reported Leftover

namespace Combinator

/-- The part of `input` that `rest` no longer contains. -/
def consumed (input rest : Slice) : Slice :=
  input.takeBytes (input.length - rest.length)

/-! ## Observers -/

/-- Runs `p`, then shows what it read to `observe`. If `p` says stop, that happens
only with `onStop`. -/
def observing (onStop : Bool) (observe : Slice → Captures → Reported Captures) (p : Combinator) :
    Combinator :=
  fun input captures => do
    let left ← p input captures
    if onStop || left.goOn then
      let captures ← observe (consumed input left.rest) left.captures
      return { left with captures := captures }
    else
      return left

/-- Highlights what `p` reads. -/
def highlighted (onStop : Bool) (kind : Highlight) : Combinator → Combinator :=
  observing onStop fun read captures => do
    Reported.token read.span kind
    return captures

/-- Stores what `p` reads. -/
def stored (onStop : Bool) (name : String) : Combinator → Combinator :=
  observing onStop fun read captures => return captures.insert name read

/-! ## Control flow -/

/-- One combinator after the other, up to the first that says stop. With
`exitOnEmpty`, the sequence also ends well once nothing is left. -/
def chain (exitOnEmpty : Bool) : List Combinator → Combinator
  | [], input, captures => pure ⟨input, true, captures⟩
  | p :: ps, input, captures => do
    let left ← p input captures
    if !left.goOn then
      return left
    else if exitOnEmpty && left.rest.isEmpty then
      return left
    else
      chain exitOnEmpty ps left.rest left.captures

/-- When `p` says stop, goes on from where `resume` puts the rest. -/
def recover (resume : Slice → Slice) (p : Combinator) : Combinator :=
  fun input captures => do
    let left ← p input captures
    if left.goOn then return left
    else return { left with rest := resume left.rest, goOn := true }

/-- When `p` says stop, goes on from the first character that satisfies `target`. -/
def recoverTo (target : Char → Bool) (p : Combinator) : Combinator :=
  recover (fun rest => (rest.splitWhile fun c => !target c).2) p

/-- Runs `p` only on an input that satisfies `condition`, and reads nothing
otherwise. -/
def onlyIf (condition : List Char → Bool) (p : Combinator) : Combinator :=
  fun input captures =>
    if condition input.text then p input captures else pure ⟨input, true, captures⟩

/-- When `p` says stop, goes on as if it had read nothing. -/
def optional (p : Combinator) : Combinator :=
  fun input captures => do
    let left ← p input captures
    if left.goOn then return left
    else return { left with rest := input, goOn := true }

/-- Passes `pattern` if it is there, then runs `p`. -/
def after (pattern : List Char) (p : Combinator) : Combinator :=
  fun input captures => p ((input.dropPrefix? pattern).getD input) captures

/-! ## Expectations -/

/-- Reports `message` over what `p` leaves, unless that is nothing. -/
def expectingEmpty (message : String) (p : Combinator) : Combinator :=
  fun input captures => do
    let left ← p input captures
    Reported.errorIf (left.goOn && !left.rest.isEmpty) left.rest.span message
    return left

/-- Passes `pattern`, then runs `p`. If it is not there, reports `message` over as
many characters as it has and runs `p` from the beginning. -/
def expecting (pattern : List Char) (message : String) (p : Combinator) : Combinator :=
  fun input captures =>
    match input.dropPrefix? pattern with
    | some rest => p rest captures
    | none => do
      Reported.error (input.take pattern.length).span message
      p input captures

/-! ## Characters -/

/-- Reads the longest beginning of characters that satisfy `p`. -/
def takeWhile (p : Char → Bool) : Combinator :=
  fun input captures => pure ⟨(input.splitWhile p).2, true, captures⟩

/-- The same, and `validate` says whether to go on after what was read. -/
def takeWhileValid (p : Char → Bool) (validate : Slice → Reported Bool) : Combinator :=
  fun input captures => do
    let (taken, rest) := input.splitWhile p
    let goOn ← validate taken
    return ⟨rest, goOn, captures⟩

end Combinator

end CommandScript

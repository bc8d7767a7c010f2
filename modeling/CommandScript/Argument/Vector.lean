import CommandScript.Argument.Basic
import CommandScript.Number.Bounded

/-!
Vectors: positions, rotations, angles and colours.

A vector is a fixed number of words with spaces between them. A component may begin
with a mark that makes it relative, and marks must not be mixed. All components are
read before any of them is checked, so a line that ends early is one error.
-/

namespace CommandScript.Argument

/-- Name, number of components and form of a vector. With `integer`, a component
without a mark is an integer. -/
structure VectorSpec where
  name : String
  dim : Nat
  marks : List Char
  integer : Bool
deriving DecidableEq, Repr

namespace VectorSpec

/-- What is wrong with a vector. -/
inductive Fault where
  | missing (dim : Nat)
  | tooShort
  | unreadable (form : NumberForm) (component : Slice)
  | mixedMarks

/-- The wording of a fault. -/
def Fault.message : Fault → String
  | .missing dim => s!"expected {dim} coordinates"
  | .tooShort => "unexpected end-of-line command"
  | .unreadable .integer component => s!"failed to parse integer '{component}'"
  | .unreadable .float component => s!"failed to parse float '{component}'"
  | .mixedMarks => "cannot mix relative coord types"

/-- The label of a vector in messages. -/
def label (spec : VectorSpec) : String :=
  spec.name ++ ": "

/-- The message for a fault of a vector. -/
def message (spec : VectorSpec) (fault : Fault) : String :=
  spec.label ++ fault.message

/-- A component: its mark, if it has one, and its number. -/
structure Component where
  mark : Option Slice
  number : Slice
deriving DecidableEq, Repr

/-- Takes a word apart. -/
def component (spec : VectorSpec) (word : Slice) : Component :=
  if word.front?.any spec.marks.contains then ⟨some (word.take 1), word.drop 1⟩ else ⟨none, word⟩

/-- How the number of a component is written. -/
def form (spec : VectorSpec) (c : Component) : NumberForm :=
  if spec.integer && c.mark.isNone then .integer else .float

/-- Reports and highlights the number of a component, unless there is none. -/
def checkNumber (spec : VectorSpec) (c : Component) : Reported Unit :=
  if c.number.isEmpty then
    pure ()
  else do
    let form := spec.form c
    Reported.errorIf (form.read? c.number.text).isNone c.number.span
      (spec.message (.unreadable form c.number))
    Reported.token c.number.span .number

/-- Reports and highlights a component. -/
def checkComponent (spec : VectorSpec) (c : Component) : Reported Unit := do
  match c.mark with
  | some mark => Reported.token mark.span .posRel
  | none => pure ()
  spec.checkNumber c

/-- Two components have marks that differ. -/
def mixesMarks (components : List Component) : Bool :=
  match components.filterMap fun c => c.mark.map Slice.text with
  | [] => false
  | mark :: marks => marks.any (· != mark)

/-- Reports and highlights the words of a vector. -/
def checkWords (spec : VectorSpec) (first : Slice) (others : List Slice) : Reported Unit := do
  let components := (first :: others).map spec.component
  Reported.each spec.checkComponent components
  Reported.errorIf (mixesMarks components) (Span.cover first (others.getLastD first))
    (spec.message .mixedMarks)

/-- Reads `n` more words, each after a separator; no words if the line ends before
the last of them. -/
def readOthers : Nat → TokenReader → Reported (Option (List Slice) × TokenReader)
  | 0, r => return (some [], r)
  | n + 1, r => do
    let (_, r) ← skipSeparator r
    match r.currentWord? with
    | some word => do
      let (others, r) ← readOthers n r.advance
      return (others.map (word :: ·), r)
    | none => return (none, r)

end VectorSpec

/-- Reads a vector. -/
def readVector (spec : VectorSpec) (r : TokenReader) : Reported TokenReader :=
  match r.currentWord? with
  | none => do
    Reported.error r.remaining.span (spec.message (.missing spec.dim))
    return r
  | some first => do
    let (others, r) ← VectorSpec.readOthers (spec.dim - 1) r.advance
    match others with
    | some others => spec.checkWords first others
    | none =>
      let stop := (r.last?.map (·.slice.stop)).getD first.stop
      Reported.error ⟨first.start, stop⟩ (spec.message .tooShort)
    return r

end CommandScript.Argument

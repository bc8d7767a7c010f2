import CommandScript.Report
import CommandScript.Text.Nesting

/-!
Property lists: `[k=v,...]` and `{k=v,...}`.

A list is cut at its top-level commas and each entry at its first `=`; both sides
are trimmed. Every part of the list is either one entry of the result or one
error, so nothing is dropped without a word.
-/

namespace CommandScript

/-- The messages of one kind of list. -/
structure PropertyWording where
  unclosed : String
  badKey : String
  badValue : String
  emptyKey : String
  emptyValue : String
  missingEquals : String
  extraComma : String
deriving DecidableEq, Repr

/-- How one kind of list is written and checked. -/
structure PropertySpec where
  opener : Char
  closer : Char
  keyValid : List Char → Bool
  valueValid : List Char → Bool
  allowEmptyKey : Bool
  allowEmptyValue : Bool
  keyKind : Highlight
  wording : PropertyWording

/-- A key and a value. -/
structure PropertyEntry where
  key : Slice
  value : Slice
deriving DecidableEq, Repr

/-- The entries of a list and what follows its closing bracket. -/
structure PropertyList where
  entries : List PropertyEntry
  rest : Slice
deriving DecidableEq, Repr

namespace PropertySpec

/-- Reads one `key=value`. A key or value of bad characters is an error, but still
an entry. -/
def readEntry (spec : PropertySpec) (part : Slice) : Reported (Option PropertyEntry) :=
  let data := part.trim
  match data.find? '=' with
  | none => do
    Reported.error data.span spec.wording.missingEquals
    return none
  | some equals =>
    let key := (data.takeBytes equals).trim
    let value := (data.dropBytes (equals + 1)).trim
    if key.isEmpty && !spec.allowEmptyKey then do
      Reported.error data.span spec.wording.emptyKey
      return none
    else if value.isEmpty && !spec.allowEmptyValue then do
      Reported.error data.span spec.wording.emptyValue
      return none
    else do
      Reported.errorIf (!spec.keyValid key.text) key.span spec.wording.badKey
      Reported.errorIf (!spec.valueValid value.text) value.span spec.wording.badValue
      if key.isEmpty then pure () else Reported.token key.span spec.keyKind
      Reported.token (data.extract equals (equals + 1)).span .operator
      return some ⟨key, value⟩

/-- Reads the parts of a list. A blank part is an extra comma: the one after it,
or, for the last part, the one before it. -/
def readParts (spec : PropertySpec) (inner : Slice) :
    Option Slice → List Slice → List Slice → Reported (List PropertyEntry)
  | _, [], _ => pure []
  | before, part :: parts, commas => do
    let comma := commas.head?.or before
    if part.trim.isEmpty then
      Reported.error (comma.getD inner).span spec.wording.extraComma
      readParts spec inner commas.head? parts commas.tail
    else
      let entry ← spec.readEntry part
      let entries ← readParts spec inner commas.head? parts commas.tail
      return entry.toList ++ entries

/-- The characters between the brackets and the rest, if the slice begins with the
opening bracket of the list and that one is closed by the closing one. -/
def bracketed? (spec : PropertySpec) (s : Slice) : Option (Slice × Slice) :=
  match s.findClosing? with
  | some close =>
    if s.front? = some spec.opener && (s.dropBytes close).front? = some spec.closer then
      some (s.extract spec.opener.utf8Size close, s.dropBytes (close + spec.closer.utf8Size))
    else
      none
  | none => none

/-- Reads a list at the beginning of a slice. A list without its closing bracket
is one error and nothing else. -/
def read (spec : PropertySpec) (s : Slice) : Reported (Option PropertyList) :=
  match spec.bracketed? s with
  | none => do
    Reported.error s.span spec.wording.unclosed
    return none
  | some (inner, rest) =>
    if inner.trim.isEmpty then
      pure (some ⟨[], rest⟩)
    else do
      let split := inner.splitTopLevel ','
      let entries ← spec.readParts inner none split.parts split.separators
      return some ⟨entries, rest⟩

end PropertySpec

end CommandScript

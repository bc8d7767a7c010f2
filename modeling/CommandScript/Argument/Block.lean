import CommandScript.Argument.Item
import CommandScript.PropertyList

/-!
Blocks.

```text
block := id ('[' key '=' value (',' key '=' value)* ']')? ('{' tag '}')?
```

The properties are checked against the table of the block. A block that has no
table is only a warning, and then its properties are not checked any further; the
same holds for a tag, which names many blocks.
-/

namespace CommandScript.Argument

/-- The name of a kind of block argument and whether it may name a tag. -/
structure BlockSpec where
  name : String
  allowTag : Bool
deriving DecidableEq, Repr

namespace BlockSpec

/-- What is wrong with a block, apart from its id and the form of its properties. -/
inductive Fault where
  | missingId
  | unknownBlock (block : String)
  | repeatedProperty (key : Slice)
  | unknownProperty (block : String) (key : Slice)
  | illegalValue (block : String) (key value : Slice) (allowed : List String)
  | trailing

/-- The wording of a fault. -/
def Fault.message : Fault → String
  | .missingId => "missing block id"
  | .unknownBlock block => s!"unknown block '{block}'"
  | .repeatedProperty key => s!"duplicate property {key}"
  | .unknownProperty block key => s!"unknown block state property '{key}' in block '{block}'"
  | .illegalValue block key value allowed =>
    s!"unknown block state value '{value}' in property '{key}' in block '{block}'. " ++
      "Note: allowed values are " ++ String.intercalate ", " allowed
  | .trailing => "unexpected trailing characters"

/-- The label of a block in messages. -/
def label (spec : BlockSpec) : String :=
  spec.name ++ ": "

/-- The list of properties of a block. -/
def propertySpec : PropertySpec where
  opener := '['
  closer := ']'
  keyValid := Charset.isWordText
  valueValid := Charset.isWordText
  allowEmptyKey := false
  allowEmptyValue := false
  keyKind := .property
  wording := {
    unclosed := "unclosed block state property expression"
    badKey := "bad character in property key"
    badValue := "bad character in property value"
    emptyKey := "missing property key"
    emptyValue := "missing property value"
    missingEquals := "missing '=' in property"
    extraComma := "extra comma in property" }

/-- A block that has a table, with that table. -/
structure Known where
  id : String
  properties : BlockProperties

/-- Reads the id of a block and looks the block up. -/
def readId (spec : BlockSpec) (registries : Registries) (id : Slice) :
    Reported (Option Known) := do
  match ← Resource.read spec.allowTag .resource id with
  | none => return none
  | some resource =>
    if resource.isTag then
      return none
    else
      let name := resource.normalized
      match registries.block? name with
      | some properties => return some ⟨name, properties⟩
      | none =>
        Reported.warning id.span (Fault.unknownBlock name).message
        return none

/-- A number as the value of a property is highlighted as one, any other value as a
keyword. -/
def highlightValue (entry : PropertyEntry) : Reported Unit :=
  if entry.value.isEmpty then
    pure ()
  else
    Reported.token entry.value.span
      (if entry.value.text.all Charset.isDigit then .number else .keyword)

/-- Reports what is wrong with one property, given the keys before it. -/
def checkEntry (block : Known) (seen : List (List Char)) (entry : PropertyEntry) :
    Reported Unit := do
  Reported.errorIf (seen.contains entry.key.text) entry.key.span
    (Fault.repeatedProperty entry.key).message
  match block.properties.lookup entry.key.toString with
  | none => Reported.error entry.key.span (Fault.unknownProperty block.id entry.key).message
  | some allowed =>
    Reported.errorIf (!allowed.contains entry.value.toString) entry.value.span
      (Fault.illegalValue block.id entry.key entry.value allowed).message

/-- Reports what is wrong with the properties of a block, given the keys before
them. -/
def checkEntries (block : Known) (seen : List (List Char)) : List PropertyEntry → Reported Unit
  | [] => pure ()
  | entry :: entries => do
    checkEntry block seen entry
    checkEntries block (entry.key.text :: seen) entries

/-- Reads what follows the properties: nothing, or a compound tag. -/
def readTag (rest : Slice) : Reported Unit :=
  if rest.front? = some '{' then CompoundTag.readWhole rest
  else Reported.errorIf (!rest.isEmpty) rest.span Fault.trailing.message

/-- Reads what follows the id: the properties, if there are any, and the rest. -/
def readSuffix (block : Option Known) (suffix : Slice) : Reported Unit :=
  if suffix.front? = some '[' then do
    match ← propertySpec.read suffix with
    | none => pure ()
    | some list =>
      Reported.each highlightValue list.entries
      match block with
      | some block => checkEntries block [] list.entries
      | none => pure ()
      readTag list.rest
  else
    readTag suffix

/-- Reads a block that makes up all of a word. -/
def check (spec : BlockSpec) (registries : Registries) (word : Slice) : Reported Unit :=
  let (id, suffix) := word.splitWhile Item.isIdChar
  Reported.labelled spec.label <|
    if id.isEmpty then
      Reported.error word.span Fault.missingId.message
    else do
      let block ← spec.readId registries id
      readSuffix block suffix

/-- Examples of blocks. -/
def examples (spec : BlockSpec) : List String :=
  ["stone", "minecraft:barrel[facing=up]"] ++
    if spec.allowTag then ["#minecraft:logs"] else []

end BlockSpec

/-- Reads a block. -/
def readBlock (spec : BlockSpec) (registries : Registries) : TokenReader → Reported TokenReader :=
  readWord (spec.label ++ BlockSpec.Fault.missingId.message) (spec.check registries)

end CommandScript.Argument

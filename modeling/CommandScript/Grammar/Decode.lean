import CommandScript.Grammar
import CommandScript.Json.Reader

/-!
Command trees and tables in JSON.

A node is an object of its fields, of which only `type` is required, or an array of
them in a fixed order. Unknown fields are passed over and a repeated field is an
error. Children, properties and tables are maps: of a repeated key the last value
counts, in the first place. Only the redirect and the parser may be `null`. Arrays
and objects may be nested up to a fixed depth, except in unknown fields.
-/

namespace CommandScript

/-- How deep arrays and objects of a data file may be nested. -/
def maxNesting : Nat :=
  127

/-! ## Nodes -/

namespace CommandNode

/-- A field of a node. -/
inductive Field where
  | type
  | children
  | executable
  | redirect
  | parser
  | properties
deriving DecidableEq, Repr

namespace Field

/-- The fields in the order of the array form. -/
def all : List Field :=
  [type, children, executable, redirect, parser, properties]

/-- The name of a field. -/
def name : Field → String
  | type => "type"
  | children => "children"
  | executable => "executable"
  | redirect => "redirect"
  | parser => "parser"
  | properties => "properties"

/-- The field with a given name. -/
def ofName? (name : String) : Option Field :=
  all.find? (·.name == name)

end Field

/-- The fields read so far, on top of their defaults. -/
structure Draft where
  seen : List Field
  kind : Option NodeKind
  children : List (String × CommandNode)
  executable : Bool
  redirect : Option (List String)
  parser : Option String
  properties : Properties

namespace Draft

/-- No field is read. -/
def empty : Draft :=
  ⟨[], none, [], false, none, none, []⟩

/-- The node, if it has a kind. -/
def node? (draft : Draft) : Option CommandNode :=
  draft.kind.map fun kind =>
    ⟨kind, draft.children, draft.executable, draft.redirect, draft.parser, draft.properties⟩

end Draft

/-- A kind: its name, or an object whose only member has that name and is `null`. -/
def kindOf? (room : Nat) : Json → Option NodeKind
  | .string (some name) => NodeKind.ofName? name
  | .object [(some name, .null)] => if room = 0 then none else NodeKind.ofName? name
  | _ => none

/-- A path, or `null` for none. -/
def redirectOf? (room : Nat) : Json → Option (Option (List String))
  | .null => some none
  | json => if room = 0 then none else json.strings?.map some

/-- A name, or `null` for none. -/
def parserOf? : Json → Option (Option String)
  | .null => some none
  | json => json.string?.map some

/-- Properties, whose values have to be sound. -/
def propertiesOf? (room : Nat) (json : Json) : Option Properties :=
  if json.isSound room then json.members?.map entriesOf else none

mutual

/-- The node that a value stands for. -/
def ofJson? (room : Nat) : Json → Option CommandNode
  | .object members =>
    match room with
    | 0 => none
    | room + 1 => (ofMembers? room .empty members).bind Draft.node?
  | .array elements =>
    match room with
    | 0 => none
    | room + 1 => (ofElements? room .empty Field.all elements).bind Draft.node?
  | _ => none

/-- Adds the members of an object to a draft. -/
def ofMembers? (room : Nat) (draft : Draft) : List (Option String × Json) → Option Draft
  | [] => some draft
  | (none, _) :: _ => none
  | (some name, value) :: members =>
    match Field.ofName? name with
    | none => ofMembers? room draft members
    | some field =>
      if draft.seen.contains field then none
      else match setField? room draft field value with
        | none => none
        | some draft => ofMembers? room draft members

/-- Adds the elements of an array to a draft, as the given fields. -/
def ofElements? (room : Nat) (draft : Draft) : List Field → List Json → Option Draft
  | _, [] => some draft
  | [], _ :: _ => none
  | field :: fields, value :: elements =>
    match setField? room draft field value with
    | none => none
    | some draft => ofElements? room draft fields elements

/-- Adds one field to a draft. -/
def setField? (room : Nat) (draft : Draft) (field : Field) (value : Json) : Option Draft :=
  let draft := { draft with seen := field :: draft.seen }
  match field, value with
  | .children, .object members =>
    match room with
    | 0 => none
    | room + 1 =>
      (childrenOf? room members).map fun children => { draft with children := entriesOf children }
  | .children, _ => none
  | .type, value => (kindOf? room value).map fun kind => { draft with kind := some kind }
  | .executable, value => value.bool?.map fun b => { draft with executable := b }
  | .redirect, value => (redirectOf? room value).map fun path => { draft with redirect := path }
  | .parser, value => (parserOf? value).map fun name => { draft with parser := name }
  | .properties, value =>
    (propertiesOf? room value).map fun properties => { draft with properties := properties }

/-- The nodes that the members of an object stand for. -/
def childrenOf? (room : Nat) : List (Option String × Json) → Option (List (String × CommandNode))
  | [] => some []
  | (none, _) :: _ => none
  | (some name, value) :: members =>
    match ofJson? room value with
    | none => none
    | some child => (childrenOf? room members).map ((name, child) :: ·)

end

end CommandNode

/-! ## Tables -/

/-- A map whose values are read by `value?`. -/
def mapOf? {α : Type} (value? : Json → Option α) (json : Json) : Option (List (String × α)) := do
  let members ← json.members?
  let entries ← members.mapM fun (key, value) => (value? value).map (key, ·)
  return entriesOf entries

/-- The properties of every block. -/
def blocksOf? : Json → Option (List (String × BlockProperties)) :=
  mapOf? (mapOf? Json.strings?)

/-- The ids of every table. -/
def tablesOf? : Json → Option (List (String × List String)) :=
  mapOf? Json.strings?

end CommandScript

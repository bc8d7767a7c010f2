import CommandScript.Report
import CommandScript.Text.Split

/-!
Resource ids: `namespace:path`, or a bare `path` in the default namespace.

`Resource.read` validates an id that makes up all of a slice: it reports exactly
one error or highlights exactly the id, together with the `#` of a tag where tags
are allowed. Two ids name the same resource if they have the same normal form.
-/

namespace CommandScript

/-- The parts of a resource id. -/
structure ResourceId where
  isTag : Bool
  space : Option Slice
  path : Slice
deriving DecidableEq, Repr

namespace ResourceId

/-- The namespace of ids that are written without one. -/
def defaultSpace : String :=
  "minecraft"

/-- The namespace, written or not. -/
def spaceName (id : ResourceId) : String :=
  match id.space with
  | some space => space.toString
  | none => defaultSpace

/-- The id with its namespace, `namespace:path`. -/
def normalized (id : ResourceId) : String :=
  id.spaceName ++ ":" ++ id.path.toString

end ResourceId

namespace Resource

/-- What is wrong with a resource id. -/
inductive Fault where
  | emptyTag
  | extraSeparator
  | missingSpace
  | missingPath
  | badPath
  | badSpace
deriving DecidableEq, Repr

/-- The wording of a fault. -/
def Fault.message : Fault → String
  | .emptyTag => "empty tag is not allowed"
  | .extraSeparator => "extra namespace separators found, expected <id> or <ns>:<p>"
  | .missingSpace => "missing namespace in resource"
  | .missingPath => "missing path in resource"
  | .badPath => "resource path should match [a-z0-9._\\/-]+"
  | .badSpace => "resource namespace should match [a-z0-9._-]+"

/-- The first thing wrong with the parts of an id, and where. -/
def faultOf? (body : Slice) (space : Option Slice) (path : Slice) : Option (Span × Fault) :=
  if space.any Slice.isEmpty then some (body.span, .missingSpace)
  else if path.isEmpty then some (body.span, .missingPath)
  else if !path.text.all Charset.isPath then some (path.span, .badPath)
  else match space with
    | some space =>
      if space.text.all Charset.isNamespace then none else some (space.span, .badSpace)
    | none => none

/-- Reads an id that was cut into its parts; the mark of a tag stands at `mark` if
there was one. -/
def readParts (kind : Highlight) (mark : Option Slice) (body : Slice) (space : Option Slice)
    (path : Slice) : Reported (Option ResourceId) :=
  match faultOf? body space path with
  | some (span, fault) => do
    Reported.error span fault.message
    return none
  | none => do
    match mark with
    | some mark => Reported.token mark.span .tag
    | none => pure ()
    Reported.token body.span kind
    return some ⟨mark.isSome, space, path⟩

/-- Reads an id without the mark of a tag, which stands at `mark` if there was one. -/
def readBody (kind : Highlight) (mark : Option Slice) (body : Slice) :
    Reported (Option ResourceId) :=
  match body.splitOn [':'] with
  | [path] => readParts kind mark body none path
  | [space, path] => readParts kind mark body (some space) path
  | _ => do
    Reported.error body.span Fault.extraSeparator.message
    return none

/-- Reads an id that makes up all of a slice and highlights it as `kind`. Where
tags are allowed, a leading `#` marks one. -/
def read (allowTag : Bool) (kind : Highlight) (s : Slice) : Reported (Option ResourceId) :=
  if allowTag && s.front? = some '#' then
    let body := s.drop 1
    if body.isEmpty then do
      Reported.error s.span Fault.emptyTag.message
      return none
    else
      readBody kind (some (s.take 1)) body
  else
    readBody kind none s

end Resource

end CommandScript

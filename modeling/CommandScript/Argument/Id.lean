import CommandScript.Argument.Basic
import CommandScript.Resource

/-!
Arguments that are ids: resource ids, with or without tags, and UUIDs.
-/

namespace CommandScript.Argument

/-- The label of a resource id in messages. -/
def resourceLabel (allowTag : Bool) : String :=
  if allowTag then "ResourceOrTagArgument: " else "ResourceArgument: "

/-- Reads a resource id. -/
def readResource (allowTag : Bool) : TokenReader → Reported TokenReader :=
  readWord "ResourceArgument: expected a resource" fun word =>
    Reported.labelled (resourceLabel allowTag) do
      let _ ← Resource.read allowTag .resource word

/-- Lengths of the groups of digits of a UUID. -/
def uuidGroups : List Nat :=
  [8, 4, 4, 4, 12]

/-- Hexadecimal digits in groups of the right lengths with hyphens between them. -/
def isUuid (s : Slice) : Bool :=
  let groups := partsOf ['-'] s.text
  groups.map List.length == uuidGroups && groups.all (·.all Charset.isHexDigit)

/-- What is said of anything that is not a UUID. -/
def invalidUuid : String :=
  "Invalid UUID, see https://datatracker.ietf.org/doc/html/rfc4122"

/-- Reads a UUID. -/
def readUuid : TokenReader → Reported TokenReader :=
  readWord invalidUuid fun word =>
    if isUuid word then Reported.token word.span .uuid
    else Reported.error word.span invalidUuid

end CommandScript.Argument

import CommandScript.Combinator

/-!
Splitting a resource id off the beginning of a text.

The splitter reads `path` or `space:path`, where both are made of path characters,
and stores the parts. It stops in front of the first character that cannot belong
to an id and leaves the validation of what it read to `Resource.read`.
-/

namespace CommandScript.Resource

/-- The name under which the text before the colon is stored, or all of the id if
it has none. -/
def spaceOrPathKey : String :=
  "namespace_or_path"

/-- The name under which the text after the colon is stored. -/
def pathKey : String :=
  "path"

/-- Reads an id and stores its parts. -/
def splitter : Combinator :=
  .chain false
    [.stored true spaceOrPathKey (.takeWhile Charset.isPath),
      .onlyIf (fun text => text.head? = some ':')
        (.after [':'] (.stored true pathKey (.takeWhile Charset.isPath)))]

end CommandScript.Resource

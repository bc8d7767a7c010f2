import CommandScript.Argument
import CommandScript.Json

/-!
Kinds of arguments and the registry in which a grammar looks them up.

A kind makes a parser out of the properties of a grammar node. The registry is open:
a program may register kinds of its own beside the ones of the library, which are
listed in `BuiltinKind`, or replace those.
-/

namespace CommandScript

/-- The properties of a grammar node, by name. -/
abbrev Properties : Type :=
  List (String × Json)

/-- What reads, suggests and shows by example one argument. -/
structure ArgumentParser where
  read : Registries → TokenReader → Reported TokenReader
  suggest : TokenReader → List String
  examples : List Sample

/-- The parser of an argument of the library, which has no suggestions. -/
def Argument.parser (argument : Argument) : ArgumentParser where
  read := argument.read
  suggest := fun _ => []
  examples := argument.examples

/-- A kind of argument. Its samples are offered for completion; without them, the
examples of its parser are. -/
structure Kind where
  build : Properties → ArgumentParser
  samples : List String

/-! ## The registry -/

/-- The kinds that are known, by name. -/
structure KindRegistry where
  entries : List (String × Kind)

namespace KindRegistry

/-- No kind is known. -/
def empty : KindRegistry :=
  ⟨[]⟩

/-- Adds a kind in place of any kind of that name. -/
def register (name : String) (kind : Kind) (registry : KindRegistry) : KindRegistry :=
  ⟨setEntry name kind registry.entries⟩

/-- The kind of a name. -/
def get? (registry : KindRegistry) (name : String) : Option Kind :=
  registry.entries.lookup name

/-- There is a kind of that name. -/
def contains (registry : KindRegistry) (name : String) : Bool :=
  (registry.get? name).isSome

/-- The parser of the kind of a name. -/
def create? (registry : KindRegistry) (name : String) (properties : Properties) :
    Option ArgumentParser :=
  (registry.get? name).map fun kind => kind.build properties

/-- The number of kinds. -/
def size (registry : KindRegistry) : Nat :=
  registry.entries.length

/-- No kind is known. -/
def isEmpty (registry : KindRegistry) : Bool :=
  registry.entries.isEmpty

end KindRegistry

end CommandScript

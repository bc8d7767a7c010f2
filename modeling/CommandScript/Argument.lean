import CommandScript.Argument.Id
import CommandScript.Argument.Number
import CommandScript.Argument.Particle
import CommandScript.Argument.Target
import CommandScript.Argument.Text
import CommandScript.Argument.Word

/-!
All arguments that the library knows, as one type: an `Argument` is a kind together
with its settings, and `Argument.read` is its reader.
-/

namespace CommandScript

/-- An argument with its settings. -/
inductive Argument where
  | vector (spec : Argument.VectorSpec)
  | resource (allowTag : Bool)
  | uuid
  | duration (min : Int)
  | word (kind : Argument.WordKind)
  | criterion
  | operator
  | block (spec : Argument.BlockSpec)
  | item (allowTag : Bool)
  | particle
  | compoundTag
  | message
  | range (form : NumberForm)
  | target (kind : Argument.TargetKind)
  | string (kind : Argument.StringKind)
  | boolean
  | number (form : NumberForm) (min max : Option Binary64)
deriving DecidableEq, Repr

namespace Argument

/-- The label of a compound tag in messages. -/
def compoundTagLabel : String :=
  "CompoundTagParser: "

/-- Reads a compound tag. -/
def readCompoundTag : TokenReader → Reported TokenReader :=
  readWord (compoundTagLabel ++ "expected '\x7b'") fun word =>
    Reported.labelled compoundTagLabel (CompoundTag.readWhole word)

/-- Reads an argument. -/
def read (argument : Argument) (registries : Registries) : TokenReader → Reported TokenReader :=
  match argument with
  | vector spec => readVector spec
  | resource allowTag => readResource allowTag
  | uuid => readUuid
  | duration min => readDuration min
  | word kind => readKind kind
  | criterion => readCriterion
  | operator => readOperator
  | block spec => readBlock spec registries
  | item allowTag => readItem allowTag
  | particle => readParticle registries
  | compoundTag => readCompoundTag
  | message => readMessage
  | range form => readRange form
  | target kind => readTarget kind
  | string kind => readString kind
  | boolean => readBoolean
  | number form min max => readNumber form min max

/-- Examples of an argument, for completion. -/
def examples : Argument → List Sample
  | vector _ | resource _ | range _ | number .. => []
  | uuid => [.plain "dd12be42-52a9-4a91-a8a1-11c01849e498"]
  | duration _ => ["0d", "0s", "0t", "0"].map .plain
  | word kind => kind.examples.map .plain
  | criterion => ["dummy", "deathCount", "minecraft.mined:minecraft.stone"].map .plain
  | operator => operators.map .plain
  | block spec => spec.examples.map .plain
  | item allowTag => (Item.examples allowTag).map .plain
  | particle => Particle.examples.map .plain
  | compoundTag =>
    ["\x7b\x7d", "\x7bfoo:1b\x7d", "\x7bItems:[\x7bid:\"stone\",Count:1b\x7d]\x7d"].map .plain
  | message => [.plain "Hello world"]
  | target kind => Target.examples kind
  | string kind => kind.examples.map (.tagged kind.name)
  | boolean => ["true", "false"].map .plain

end Argument

end CommandScript

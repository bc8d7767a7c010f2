import CommandScript.Kind

/-!
The kinds of the library: their names in a grammar, the arguments that they stand
for and the samples that they offer.
-/

namespace CommandScript

/-- A kind of the library. -/
inductive BuiltinKind where
  | vec3
  | vec2
  | blockPos
  | columnPos
  | rotation
  | angle
  | resourceLocation
  | resource
  | dimension
  | entitySummon
  | mobEffect
  | itemEnchantment
  | resourceOrTag
  | function
  | uuid
  | time
  | objective
  | team
  | scoreboardSlot
  | objectiveCriteria
  | swizzle
  | itemSlot
  | operation
  | color
  | entityAnchor
  | blockState
  | blockPredicate
  | itemStack
  | itemPredicate
  | particle
  | compoundTag
  | message
  | intRange
  | floatRange
  | entity
  | gameProfile
  | scoreHolder
  | string
  | bool
  | integer
  | long
  | float
  | double
deriving DecidableEq, Repr

namespace BuiltinKind

/-- Every kind of the library. -/
def all : List BuiltinKind :=
  [vec3, vec2, blockPos, columnPos, rotation, angle, resourceLocation, resource, dimension,
    entitySummon, mobEffect, itemEnchantment, resourceOrTag, function, uuid, time, objective,
    team, scoreboardSlot, objectiveCriteria, swizzle, itemSlot, operation, color, entityAnchor,
    blockState, blockPredicate, itemStack, itemPredicate, particle, compoundTag, message,
    intRange, floatRange, entity, gameProfile, scoreHolder, string, bool, integer, long, float,
    double]

/-- The name of a kind in a grammar. -/
def name : BuiltinKind → String
  | vec3 => "minecraft:vec3"
  | vec2 => "minecraft:vec2"
  | blockPos => "minecraft:block_pos"
  | columnPos => "minecraft:column_pos"
  | rotation => "minecraft:rotation"
  | angle => "minecraft:angle"
  | resourceLocation => "minecraft:resource_location"
  | resource => "minecraft:resource"
  | dimension => "minecraft:dimension"
  | entitySummon => "minecraft:entity_summon"
  | mobEffect => "minecraft:mob_effect"
  | itemEnchantment => "minecraft:item_enchantment"
  | resourceOrTag => "minecraft:resource_or_tag"
  | function => "minecraft:function"
  | uuid => "minecraft:uuid"
  | time => "minecraft:time"
  | objective => "minecraft:objective"
  | team => "minecraft:team"
  | scoreboardSlot => "minecraft:scoreboard_slot"
  | objectiveCriteria => "minecraft:objective_criteria"
  | swizzle => "minecraft:swizzle"
  | itemSlot => "minecraft:item_slot"
  | operation => "minecraft:operation"
  | color => "minecraft:color"
  | entityAnchor => "minecraft:entity_anchor"
  | blockState => "minecraft:block_state"
  | blockPredicate => "minecraft:block_predicate"
  | itemStack => "minecraft:item_stack"
  | itemPredicate => "minecraft:item_predicate"
  | particle => "minecraft:particle"
  | compoundTag => "minecraft:nbt_compound_tag"
  | message => "minecraft:message"
  | intRange => "minecraft:int_range"
  | floatRange => "minecraft:float_range"
  | entity => "minecraft:entity"
  | gameProfile => "minecraft:game_profile"
  | scoreHolder => "minecraft:score_holder"
  | string => "brigadier:string"
  | bool => "brigadier:bool"
  | integer => "brigadier:integer"
  | long => "brigadier:long"
  | float => "brigadier:float"
  | double => "brigadier:double"

/-- A property that is a number. -/
def numberProperty? (properties : Properties) (key : String) : Option Binary64 :=
  ((properties.lookup key).bind Json.number?).map JsonNumber.toFloat

/-- The shortest duration that the properties allow, in ticks. -/
def minDuration (properties : Properties) : Int :=
  (((properties.lookup "min").bind Json.number?).bind JsonNumber.toInteger?).getD 0

/-- The kind of string that the properties name: a word unless they name another. -/
def stringKind (properties : Properties) : Argument.StringKind :=
  (((properties.lookup "type").bind Json.string?).bind Argument.StringKind.ofName?).getD .word

/-- A number of a given form with the bounds that the properties set. -/
def numberArgument (form : NumberForm) (properties : Properties) : Argument :=
  .number form (numberProperty? properties "min") (numberProperty? properties "max")

/-- The argument that a kind stands for. -/
def argument (kind : BuiltinKind) (properties : Properties) : Argument :=
  match kind with
  | vec3 => .vector ⟨"Vec3Argument", 3, ['~', '^'], false⟩
  | vec2 => .vector ⟨"Vec2Argument", 2, ['~'], false⟩
  | blockPos => .vector ⟨"BlockPosArgument", 3, ['~', '^'], true⟩
  | columnPos => .vector ⟨"ColumnPosArgument", 2, ['~', '^'], true⟩
  | rotation => .vector ⟨"RotationArgument", 2, ['~'], false⟩
  | angle => .vector ⟨"AngleArgument", 1, ['~'], false⟩
  | resourceLocation | resource | dimension | entitySummon | mobEffect | itemEnchantment =>
    .resource false
  | resourceOrTag | function => .resource true
  | uuid => .uuid
  | time => .duration (minDuration properties)
  | objective => .word .objective
  | team => .word .team
  | scoreboardSlot => .word .scoreboardSlot
  | objectiveCriteria => .criterion
  | swizzle => .word .swizzle
  | itemSlot => .word .itemSlot
  | operation => .operator
  | color => .word .color
  | entityAnchor => .word .entityAnchor
  | blockState => .block ⟨"BlockState", false⟩
  | blockPredicate => .block ⟨"BlockPredicate", true⟩
  | itemStack => .item false
  | itemPredicate => .item true
  | particle => .particle
  | compoundTag => .compoundTag
  | message => .message
  | intRange => .range .integer
  | floatRange => .range .float
  | entity => .target .entity
  | gameProfile => .target .gameProfile
  | scoreHolder => .target .scoreHolder
  | string => .string (stringKind properties)
  | bool => .boolean
  | integer | long => numberArgument .integer properties
  | float | double => numberArgument .float properties

/-- Samples of integers. -/
def integerSamples : List String :=
  ["0", "123", "-123"]

/-- Samples of floats. -/
def floatSamples : List String :=
  ["0", "1.2", ".5", "-1", "-.5", "-1234.56"]

/-- Samples of resource ids. -/
def resourceSamples : List String :=
  ["foo", "foo:bar", "gregtech:tools/axe"]

/-- Samples of resource ids and tags. -/
def tagSamples : List String :=
  ["foo", "foo:bar", "#skeletons", "#minecraft:skeletons"]

/-- The samples that a kind offers. -/
def samples : BuiltinKind → List String
  | vec3 => ["0 0 0", "~ ~ ~", "^ ^ ^", "^1 ^ ^-5", "0.1 -0.5 .9", "~0.5 ~1 ~-5"]
  | vec2 => ["0 0", "~ ~", "0.1 -0.5", "~1 ~-2"]
  | blockPos => ["0 0 0", "~ ~ ~", "^ ^ ^", "^1 ^ ^-5", "~0.5 ~1 ~-5"]
  | columnPos => ["0 0", "~ ~", "~1 ~-2", "^ ^", "^-1 ^0"]
  | rotation => ["0 0", "~ ~", "~-5 ~5"]
  | angle => ["0", "~", "~-5"]
  | resourceLocation | resource => resourceSamples
  | dimension => ["minecraft:overworld", "the_nether", "minecraft:the_end"]
  | entitySummon => ["zombie", "minecraft:armor_stand"]
  | mobEffect => ["speed", "minecraft:night_vision"]
  | itemEnchantment => ["sharpness", "minecraft:unbreaking"]
  | resourceOrTag => tagSamples
  | function => ["foo:bar", "foo:path/to/fn", "#foo:tick"]
  | uuid => ["dd12be42-52a9-4a91-a8a1-11c01849e498"]
  | time => ["0d", "0s", "0t", "0"]
  | objective => ["foo", "012"]
  | team => ["foo", "123"]
  | scoreboardSlot => ["sidebar", "foo.bar"]
  | objectiveCriteria => ["foo", "foo.bar.baz", "minecraft:foo"]
  | swizzle => ["xyz", "x"]
  | itemSlot => ["container.5", "12", "weapon"]
  | operation => ["=", ">", "<"]
  | color => ["red", "green"]
  | entityAnchor => ["eyes", "feet"]
  | blockState =>
    ["stone", "minecraft:stone", "redstone_wire[power=2]", "chest\x7bLock:\"a\"\x7d"]
  | blockPredicate => ["stone", "#minecraft:logs", "redstone_wire[power=2]"]
  | itemStack => ["stick", "minecraft:diamond_sword\x7bDamage:5\x7d"]
  | itemPredicate => ["stick", "#minecraft:planks"]
  | particle => ["flame", "dust 1 0 0 1", "block stone"]
  | compoundTag => ["\x7b\x7d", "\x7bfoo:1b\x7d"]
  | message => ["Hello world"]
  | intRange => ["0", "12", "12..34", "..12", "12.."]
  | floatRange => ["0", "1.5", "1.5..3", "..-2", "0.5.."]
  | entity =>
    ["Player", "0123", "@e", "@e[type=foo]", "dd12be42-52a9-4a91-a8a1-11c01849e498"]
  | gameProfile => ["Player", "0123", "dd12be42-52a9-4a91-a8a1-11c01849e498", "@p"]
  | scoreHolder => ["Player", "@s", "*"]
  | string => []
  | bool => ["true", "false"]
  | integer | long => integerSamples
  | float | double => floatSamples

/-- The kind with its parser and its samples. -/
def kind (k : BuiltinKind) : Kind where
  build := fun properties => (k.argument properties).parser
  samples := k.samples

end BuiltinKind

namespace KindRegistry

/-- The kinds of the library under their names. -/
def builtin : KindRegistry :=
  ⟨BuiltinKind.all.map fun k => (k.name, k.kind)⟩

/-- Every kind of the registry is one of the library, under any name and with any
samples. -/
def IsBuiltin (registry : KindRegistry) : Prop :=
  ∀ name kind, registry.get? name = some kind → ∃ k : BuiltinKind, kind.build = k.kind.build

end KindRegistry

end CommandScript

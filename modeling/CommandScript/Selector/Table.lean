import CommandScript.Selector.Predicate

/-!
The table of selector predicates: which keys a selector knows, what their values
have to be, and which values are offered as samples.
-/

namespace CommandScript

/-- One row of the table. -/
structure SelectorEntry where
  key : String
  predicate : SelectorPredicate
  samples : List String
deriving DecidableEq, Repr

namespace SelectorEntry

/-- A coordinate or another plain float. -/
def float (key : String) : SelectorEntry :=
  ⟨key, .float, ["0", "1234", "+12.34"]⟩

/-- Every row, in the order in which they are offered. -/
def table : List SelectorEntry :=
  [float "x", float "y", float "z", float "dx", float "dy", float "dz",
    float "x_rotation", float "y_rotation",
    ⟨"distance", .range .float false, ["0", "12", "12..34", "..12", "12..", "1.4..2.3"]⟩,
    ⟨"level", .range .integer false, ["0", "12", "12..34", "..12", "12.."]⟩,
    ⟨"scores", .scores,
      ["\x7b\x7d", "\x7bfoo=1\x7d", "\x7bfoo=1..,bar=..-2\x7d"]⟩,
    ⟨"tag", .negatable true (.unquoted "invalid scoreboard tag identifier") (some .scoreboardId),
      ["foo", "!foo", ""]⟩,
    ⟨"team", .negatable true (.unquoted "invalid scoreboard team identifier") (some .scoreboardId),
      ["red", "!red", ""]⟩,
    ⟨"name", .negatable true .anything (some .string), ["Steve", "!Steve"]⟩,
    ⟨"gamemode",
      .negatable false
        (.oneOf ["creative", "adventure", "survival", "spectator"] "unknown gamemode")
        (some .enumeration),
      ["creative", "adventure", "survival", "spectator", "!creative"]⟩,
    ⟨"limit", .nonNegativeInteger, ["1", "10"]⟩,
    ⟨"sort",
      .word (.oneOf ["nearest", "furthest", "random", "arbitrary"] "unknown sorting mode")
        .enumeration,
      ["nearest", "furthest", "random", "arbitrary"]⟩,
    ⟨"type", .negatable false (.resource true) none,
      ["minecraft:zombie", "!player", "#minecraft:skeletons"]⟩,
    ⟨"predicate", .negatable false (.resource false) none, ["foo:bar", "!foo:bar"]⟩,
    ⟨"nbt", .negatable false .compoundTag none, ["\x7b\x7d", "!\x7bTags:[\"a\"]\x7d"]⟩,
    ⟨"advancements", .advancements, ["\x7bminecraft:story/root=true\x7d"]⟩,
    ⟨"all_worlds", .word (.oneOf ["true", "false"] "must be boolean") .keyword,
      ["true", "false"]⟩]

/-- The row of a key. -/
def find? (key : String) : Option SelectorEntry :=
  table.find? (·.key == key)

end SelectorEntry

end CommandScript

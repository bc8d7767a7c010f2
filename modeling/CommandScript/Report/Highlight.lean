/-!
Highlighting kinds.

A semantic token tells an editor what a stretch of a line is. The library's own
kinds are finer than the ones that editors know, so each has a stable name of its
own, a place in the legend and the name of the editor kind it is shown as.
-/

namespace CommandScript

/-- What a stretch of a command line is, for highlighting. -/
inductive Highlight where
  | comment
  | posRel
  | number
  | string
  | playerName
  | resource
  | uuid
  | units
  | swizzle
  | scoreboardId
  | enumeration
  | operator
  | slot
  | keyword
  | commandLiteral
  | property
  | color
  | team
  | objective
  | scoreboardSlot
  | objectiveCriteria
  | tag
  | selector
deriving DecidableEq, Repr

namespace Highlight

/-- Every kind, in the order of the legend. -/
def all : List Highlight :=
  [comment, posRel, number, string, playerName, resource, uuid, units, swizzle, scoreboardId,
    enumeration, operator, slot, keyword, commandLiteral, property, color, team, objective,
    scoreboardSlot, objectiveCriteria, tag, selector]

/-- The place of a kind in the legend. -/
def index : Highlight → Nat
  | comment => 0
  | posRel => 1
  | number => 2
  | string => 3
  | playerName => 4
  | resource => 5
  | uuid => 6
  | units => 7
  | swizzle => 8
  | scoreboardId => 9
  | enumeration => 10
  | operator => 11
  | slot => 12
  | keyword => 13
  | commandLiteral => 14
  | property => 15
  | color => 16
  | team => 17
  | objective => 18
  | scoreboardSlot => 19
  | objectiveCriteria => 20
  | tag => 21
  | selector => 22

/-- The stable name of a kind. -/
def name : Highlight → String
  | comment => "comment"
  | posRel => "pos_rel"
  | number => "number"
  | string => "string"
  | playerName => "player_name"
  | resource => "resource"
  | uuid => "uuid"
  | units => "units"
  | swizzle => "swizzle"
  | scoreboardId => "scoreboard_id"
  | enumeration => "enum"
  | operator => "operator"
  | slot => "slot"
  | keyword => "keyword"
  | commandLiteral => "command_literal"
  | property => "property"
  | color => "color"
  | team => "team"
  | objective => "objective"
  | scoreboardSlot => "scoreboard_slot"
  | objectiveCriteria => "objective_criteria"
  | tag => "tag"
  | selector => "selector"

/-- The kind with a given name. -/
def ofName? (name : String) : Option Highlight :=
  all.find? (·.name == name)

/-- The editor kind that a kind is shown as. -/
def editorName : Highlight → String
  | comment => "comment"
  | posRel | operator => "operator"
  | number => "number"
  | string | playerName | resource | uuid | units | swizzle | scoreboardId => "string"
  | enumeration | slot | color => "enumMember"
  | keyword => "keyword"
  | commandLiteral => "function"
  | property => "property"
  | team | objective | scoreboardSlot | objectiveCriteria => "variable"
  | tag => "type"
  | selector => "macro"

/-- The editor kinds by index. -/
def legend : List String :=
  all.map editorName

/-- A kind stands in the legend at its own index. -/
theorem all_getElem?_index (kind : Highlight) : all[kind.index]? = some kind := by
  cases kind <;> rfl

end Highlight

end CommandScript

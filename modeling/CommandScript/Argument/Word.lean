import CommandScript.Argument.Basic
import CommandScript.Number.Decimal

/-!
Arguments of one word: names of a scoreboard, slots, colours, anchors, swizzles,
criteria, operators and booleans.

Words of most kinds are unquoted, and each character that is not an unquoted one
is an error of its own. What a word has to be beyond that depends on its kind.
-/

namespace CommandScript.Argument

/-- A kind of unquoted word. -/
inductive WordKind where
  | team
  | objective
  | scoreboardSlot
  | swizzle
  | itemSlot
  | color
  | entityAnchor
deriving DecidableEq, Repr

namespace WordKind

/-- What is wrong with a word. -/
inductive Fault where
  | missing
  | illegalChar
  | badAxis (c : Char)
  | repeatedAxis (c : Char)
  | unknownSlot (slot : Slice)
  | unknownColor (name : String)
  | unknownAnchor (anchor : Slice)

/-- The wording of a fault. -/
def Fault.message : Fault → String
  | .missing => "expected a value"
  | .illegalChar => "Illegal character in unquoted string"
  | .badAxis c =>
    s!"SwizzleArgument: unexpected character in swizzle: '{c}' (must be x, y, or z)"
  | .repeatedAxis c => s!"SwizzleArgument: duplicate character in swizzle: '{c}'"
  | .unknownSlot slot => s!"SlotArgument: unknown slot '{slot}'"
  | .unknownColor name => s!"ColorArgument: unknown color '{name}'"
  | .unknownAnchor anchor => s!"EntityAnchorArgument: unknown anchor '{anchor}'"

/-- The colours by their normal names. -/
def colors : List String :=
  ["black", "darkblue", "darkgreen", "darkaqua", "darkred", "darkpurple", "gold", "gray",
    "darkgray", "blue", "green", "aqua", "red", "lightpurple", "yellow", "white", "reset"]

/-- The normal name of a colour: small letters without underscores. -/
def normalColor (name : List Char) : String :=
  String.ofList ((name.filter (· != '_')).map Charset.toLower)

/-- The slots that are numbered from zero, each group with its last number. -/
def numberedSlots : List (String × Nat) :=
  [("container", 53), ("hotbar", 8), ("inventory", 26), ("enderchest", 26), ("villager", 7),
    ("horse", 14)]

/-- The slots with a name. -/
def namedSlots : List String :=
  ["weapon", "weapon.mainhand", "weapon.offhand", "armor.head", "armor.chest", "armor.legs",
    "armor.feet", "horse.saddle", "horse.armor", "horse.chest"]

/-- Every slot. -/
def slots : List String :=
  numberedSlots.flatMap (fun (group, last) =>
    (List.range (last + 1)).map fun number => s!"{group}.{number}") ++ namedSlots

/-- The axes that a swizzle is made of. -/
def axes : List Char :=
  ['x', 'y', 'z']

/-- What is wrong with one character of a swizzle, given those before it. -/
def axisFault? (seen : List Char) (c : Char) : Option Fault :=
  if !axes.contains c then some (.badAxis c)
  else if seen.contains c then some (.repeatedAxis c)
  else none

/-- Reports the characters of a swizzle that are no axis, or an axis that was `seen`
before. -/
def checkAxes (seen : List Char) : List (Char × Slice) → Reported Unit
  | [] => pure ()
  | (c, slice) :: rest => do
    match axisFault? seen c with
    | some fault => Reported.error slice.span fault.message
    | none => pure ()
    checkAxes (c :: seen) rest

/-- A word of this kind has unquoted characters only. -/
def isUnquoted (kind : WordKind) : Bool :=
  kind != swizzle

/-- What a word of this kind is highlighted as. -/
def highlight : WordKind → Highlight
  | team => .team
  | objective => .objective
  | scoreboardSlot => .scoreboardSlot
  | swizzle => .swizzle
  | itemSlot => .slot
  | color => .color
  | entityAnchor => .enumeration

/-- Reports what is wrong with a word of this kind, apart from its characters. -/
def checkValue (kind : WordKind) (word : Slice) : Reported Unit :=
  match kind with
  | team | objective | scoreboardSlot => pure ()
  | swizzle => checkAxes [] word.chars
  | itemSlot =>
    Reported.errorIf (!slots.contains word.toString && (Decimal.readNatural? word.text).isNone)
      word.span (Fault.unknownSlot word).message
  | color =>
    let name := normalColor word.text
    Reported.errorIf (!colors.contains name) word.span (Fault.unknownColor name).message
  | entityAnchor =>
    Reported.errorIf (!(word.is "eyes" || word.is "feet")) word.span
      (Fault.unknownAnchor word).message

/-- Reports what is wrong with a word and highlights it. -/
def check (kind : WordKind) (word : Slice) : Reported Unit := do
  if kind.isUnquoted then
    checkChars (fun c => if Charset.isUnquoted c then none else some Fault.illegalChar.message)
      word
  else
    pure ()
  kind.checkValue word
  Reported.token word.span kind.highlight

/-- Examples of words of this kind. -/
def examples : WordKind → List String
  | team => ["red", "my_team"]
  | objective => ["kills", "deaths"]
  | scoreboardSlot => ["list", "sidebar", "belowName", "sidebar.team.red"]
  | swizzle => ["xyz", "x", "xz"]
  | itemSlot => ["weapon.mainhand", "container.0", "hotbar.8", "armor.head"]
  | color => ["red", "dark_blue", "light_purple", "reset"]
  | entityAnchor => ["eyes", "feet"]

end WordKind

/-- Reads a word of a given kind. -/
def readKind (kind : WordKind) : TokenReader → Reported TokenReader :=
  readWord WordKind.Fault.missing.message kind.check

/-! ## Criteria, operators and booleans -/

/-- Reads a criterion, which may be any word. -/
def readCriterion : TokenReader → Reported TokenReader :=
  readWord "expected a criterion" fun word => Reported.token word.span .objectiveCriteria

/-- The operators on scores. -/
def operators : List String :=
  ["=", "+=", "-=", "*=", "/=", "%=", "<", ">", "><"]

/-- Reads an operator. -/
def readOperator : TokenReader → Reported TokenReader :=
  readWord "OperatorArgument: expected an operator" fun word => do
    Reported.token word.span .operator
    Reported.errorIf (!operators.any word.is) word.span
      s!"OperatorArgument: unknown operator '{word}'"

/-- What is said of anything that is not a boolean. -/
def notBoolean : String :=
  "BoolArgument: expected 'true' or 'false'"

/-- Reads a boolean. -/
def readBoolean : TokenReader → Reported TokenReader :=
  readWord notBoolean fun word =>
    if word.is "true" || word.is "false" then Reported.token word.span .keyword
    else Reported.error word.span notBoolean

end CommandScript.Argument

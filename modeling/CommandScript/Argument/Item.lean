import CommandScript.Argument.Basic
import CommandScript.CompoundTag
import CommandScript.Resource

/-!
Items: an id and the compound tag that may follow it.
-/

namespace CommandScript.Argument

namespace Item

/-- The label of an item in messages; only a predicate may name a tag. -/
def label (allowTag : Bool) : String :=
  if allowTag then "ItemPredicate: " else "ItemStack: "

/-- What is said when there is no id. -/
def missingId : String :=
  "missing item id"

/-- An id ends in front of the first bracket. -/
def isIdChar (c : Char) : Bool :=
  c != '[' && c != '{'

/-- Reads an item that makes up all of a word. -/
def check (allowTag : Bool) (word : Slice) : Reported Unit :=
  let (id, tag) := word.splitWhile isIdChar
  Reported.labelled (label allowTag) <|
    if id.isEmpty then
      Reported.error word.span missingId
    else do
      let _ ← Resource.read allowTag .resource id
      if tag.isEmpty then pure () else CompoundTag.readWhole tag

/-- Examples of items. -/
def examples (allowTag : Bool) : List String :=
  ["diamond_sword", "minecraft:stone\x7bCustomModelData:1\x7d"] ++
    if allowTag then ["#minecraft:planks"] else []

end Item

/-- Reads an item. -/
def readItem (allowTag : Bool) : TokenReader → Reported TokenReader :=
  readWord (Item.label allowTag ++ Item.missingId) (Item.check allowTag)

end CommandScript.Argument

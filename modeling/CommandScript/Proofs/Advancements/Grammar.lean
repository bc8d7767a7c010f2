import CommandScript.Proofs.CompoundTag.Grammar
import CommandScript.Proofs.Resource

/-!
The grammar of advancements.

```text
value     := braces(id ws '=' ws setting)
setting   := bool | braces(criterion ws '=' ws bool)
braces(x) := '{' ws '}' | '{' ws series(x) ws '}'
series(x) := x | x ws ',' | x ws ',' ws series(x)
```

An id has no mark of a tag, a criterion is made of unquoted characters. The items of a value and
the criteria of an item are separated alike, with a comma after the last one allowed.
-/

namespace CommandScript.Advancements

open CompoundTag (AreBlanks)

/-- One text or more, separated by commas. -/
inductive IsSeries (IsEntry : List Char → Prop) : List Char → Prop where
  | last {text : List Char} (isEntry : IsEntry text) : IsSeries IsEntry text
  | comma {text blanks : List Char} (isEntry : IsEntry text) (blank : AreBlanks blanks) :
    IsSeries IsEntry (text ++ (blanks ++ [',']))
  | more {text before after others : List Char} (isEntry : IsEntry text)
    (blank : AreBlanks before) (blankToo : AreBlanks after) (rest : IsSeries IsEntry others) :
    IsSeries IsEntry (text ++ (before ++ ',' :: (after ++ others)))

/-- What stands between braces. -/
inductive IsInside (IsEntry : List Char → Prop) : List Char → Prop where
  | empty {blanks : List Char} (blank : AreBlanks blanks) : IsInside IsEntry blanks
  | filled {text before after : List Char} (blank : AreBlanks before)
    (isSeries : IsSeries IsEntry text) (blankToo : AreBlanks after) :
    IsInside IsEntry (before ++ (text ++ after))

/-- A series in braces. -/
inductive IsBraces (IsEntry : List Char → Prop) : List Char → Prop where
  | braces {text : List Char} (inside : IsInside IsEntry text) :
    IsBraces IsEntry ('{' :: (text ++ ['}']))

/-- A name and its value on either side of an equals sign. -/
inductive IsAssignment (IsName IsValue : List Char → Prop) : List Char → Prop where
  | assignment {name before after value : List Char} (isName : IsName name)
    (blank : AreBlanks before) (blankToo : AreBlanks after) (isValue : IsValue value) :
    IsAssignment IsName IsValue (name ++ (before ++ '=' :: (after ++ value)))

/-- `true` or `false`. What follows one in a value is a blank, a comma or a brace, and never
another unquoted character. -/
def IsBoolean (text : List Char) : Prop :=
  text = "true".toList ∨ text = "false".toList

/-- The name of a criterion. -/
def IsCriterion (text : List Char) : Prop :=
  text ≠ [] ∧ ∀ c ∈ text, Charset.isUnquoted c = true

/-- Criteria in braces. -/
def IsCriteria : List Char → Prop :=
  IsBraces (IsAssignment IsCriterion IsBoolean)

/-- What an id is set to. -/
def IsSetting (text : List Char) : Prop :=
  IsBoolean text ∨ IsCriteria text

/-- Items in braces, each for an id that would be read as one on its own. -/
def IsValue : List Char → Prop :=
  IsBraces (IsAssignment Resource.IsBody IsSetting)

theorem IsInside.after_blanks {IsEntry : List Char → Prop} {blanks text : List Char}
    (inside : IsInside IsEntry text) (blank : AreBlanks blanks) :
    IsInside IsEntry (blanks ++ text) := by
  cases inside with
  | empty blankToo => exact .empty (blank.append blankToo)
  | filled before isSeries after =>
    rw [← List.append_assoc]
    exact .filled (blank.append before) isSeries after

/-- An entry and a comma may stand in front of what stands between braces. -/
theorem IsInside.cons {IsEntry : List Char → Prop} {text before after others : List Char}
    (inside : IsInside IsEntry others) (isEntry : IsEntry text) (blank : AreBlanks before)
    (blankToo : AreBlanks after) :
    IsInside IsEntry (text ++ (before ++ ',' :: (after ++ others))) := by
  cases inside with
  | empty blankOthers =>
    have filled := IsInside.filled CompoundTag.areBlanks_nil (.comma isEntry blank)
      (blankToo.append blankOthers)
    simpa using filled
  | filled blankOthers isSeries blankLast =>
    have filled := IsInside.filled CompoundTag.areBlanks_nil
      (.more isEntry blank (blankToo.append blankOthers) isSeries) blankLast
    simpa using filled

end CommandScript.Advancements

import CommandScript.Proofs.Text.Quoted

/-!
The grammar of compound tags.

```text
tag    := '{' inside(entry) '}'
list   := '[' inside(value) ']'
entry  := scalar ws ':' ws value
value  := tag | list | array | scalar
array  := '[' head ';' element* ']'
inside(item) := ws | ws series(item) ws
series(item) := item | item ws ',' | item ws ',' ws series(item)
```

A scalar is quoted, with a backslash in front of characters that do not count, or made
of unquoted characters; keys are scalars. The entries of a tag and the elements of a list
are separated alike, with a comma after the last one allowed. Which characters an array
is made of, and whether it takes precedence over a list, is left to its `ArrayForm`.
-/

namespace CommandScript.CompoundTag

/-- Any run of blanks. -/
def AreBlanks (text : List Char) : Prop :=
  ∀ c ∈ text, Charset.isBlank c = true

theorem areBlanks_nil : AreBlanks [] := by
  intro c mem
  cases mem

theorem AreBlanks.append {before after : List Char} (first : AreBlanks before)
    (second : AreBlanks after) : AreBlanks (before ++ after) :=
  List.forall_mem_append.2 ⟨first, second⟩

/-- A quoted string with its quotes, or some unquoted characters. -/
inductive IsScalar : List Char → Prop where
  | quoted {quote : Char} {body : List Char} (isQuote : Charset.isQuote quote = true)
    (inside : QuotedBody quote body) : IsScalar (quote :: (body ++ [quote]))
  | unquoted {text : List Char} (nonempty : text ≠ [])
    (unquoted : ∀ c ∈ text, Charset.isUnquoted c = true) : IsScalar text

/-- The characters of arrays: the one that gives the type of the elements, and those of
the elements. Where arrays have precedence, no list begins like one. -/
structure ArrayForm where
  head : Char → Bool
  element : Char → Bool
  precedence : Bool

/-- The text begins like an array. -/
def ArrayForm.Begins (form : ArrayForm) (text : List Char) : Prop :=
  ∃ head rest, text = '[' :: head :: ';' :: rest ∧ form.head head = true

/-- What is separated by commas. -/
inductive Item where
  | entry
  | value
deriving DecidableEq

/-- The symbols of the grammar. -/
inductive Symbol where
  | tag
  | list
  | item (item : Item)
  | series (item : Item)
  | inside (item : Item)

/-- The texts of a symbol. -/
inductive Derives (form : ArrayForm) : Symbol → List Char → Prop where
  | tag {text : List Char} (entries : Derives form (.inside .entry) text) :
    Derives form .tag ('{' :: (text ++ ['}']))
  | list {text : List Char} (elements : Derives form (.inside .value) text)
    (free : form.precedence = true → ¬form.Begins ('[' :: (text ++ [']']))) :
    Derives form .list ('[' :: (text ++ [']']))
  | entry {key before after value : List Char} (isKey : IsScalar key) (blank : AreBlanks before)
    (blankToo : AreBlanks after) (isValue : Derives form (.item .value) value) :
    Derives form (.item .entry) (key ++ (before ++ ':' :: (after ++ value)))
  | ofTag {text : List Char} (tag : Derives form .tag text) : Derives form (.item .value) text
  | ofList {text : List Char} (list : Derives form .list text) : Derives form (.item .value) text
  | array {head : Char} {elements : List Char} (isHead : form.head head = true)
    (each : ∀ c ∈ elements, form.element c = true) :
    Derives form (.item .value) ('[' :: head :: ';' :: (elements ++ [']']))
  | scalar {text : List Char} (isScalar : IsScalar text) : Derives form (.item .value) text
  | last {item : Item} {text : List Char} (isItem : Derives form (.item item) text) :
    Derives form (.series item) text
  | comma {item : Item} {text blanks : List Char} (isItem : Derives form (.item item) text)
    (blank : AreBlanks blanks) : Derives form (.series item) (text ++ (blanks ++ [',']))
  | more {item : Item} {text before after others : List Char}
    (isItem : Derives form (.item item) text) (blank : AreBlanks before)
    (blankToo : AreBlanks after) (rest : Derives form (.series item) others) :
    Derives form (.series item) (text ++ (before ++ ',' :: (after ++ others)))
  | empty {item : Item} {blanks : List Char} (blank : AreBlanks blanks) :
    Derives form (.inside item) blanks
  | filled {item : Item} {text before after : List Char} (blank : AreBlanks before)
    (isSeries : Derives form (.series item) text) (blankToo : AreBlanks after) :
    Derives form (.inside item) (before ++ (text ++ after))

theorem Derives.blanks_inside {form : ArrayForm} {item : Item} {blanks text : List Char}
    (blank : AreBlanks blanks) (inside : Derives form (.inside item) text) :
    Derives form (.inside item) (blanks ++ text) := by
  cases inside with
  | empty blankToo => exact .empty (blank.append blankToo)
  | filled before isSeries after =>
    rw [← List.append_assoc]
    exact .filled (blank.append before) isSeries after

/-- The arrays of the documented grammar: any character but a quote gives the type, and
the elements go on up to the first closing bracket. -/
def ArrayForm.any : ArrayForm where
  head c := !Charset.isQuote c
  element c := c != ']'
  precedence := true

/-- A compound tag of the documented grammar. -/
def IsTag (text : List Char) : Prop :=
  Derives .any .tag text

end CommandScript.CompoundTag

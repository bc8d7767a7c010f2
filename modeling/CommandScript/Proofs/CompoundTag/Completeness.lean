import CommandScript.Proofs.CompoundTag.Soundness
import CommandScript.Proofs.Text.Charset

/-!
The reader of compound tags accepts all of its grammar.
-/

namespace CommandScript.CompoundTag

open Reading

/-! ## Beginnings -/

/-- A character with which keys and values begin. -/
def isOpening (c : Char) : Bool :=
  Charset.isQuote c || Charset.isUnquoted c || c == '{' || c == '['

/-- The text begins with such a character. -/
def Opens (text : List Char) : Prop :=
  ∃ c rest, text = c :: rest ∧ isOpening c = true

/-- What may stand behind a value. -/
def Delimits (text : List Char) : Prop :=
  ∃ c rest, text = c :: rest ∧ (Charset.isBlank c = true ∨ c = ',' ∨ c = '}' ∨ c = ']')

section Beginnings

variable {c : Char} {text after : List Char} {form : ArrayForm}

theorem isBlank_of_isOpening (opening : isOpening c = true) : Charset.isBlank c = false := by
  simp only [isOpening, Bool.or_eq_true, beq_iff_eq] at opening
  rcases opening with ((isQuote | unquoted) | rfl) | rfl
  · rcases Charset.isQuote_iff.1 isQuote with rfl | rfl <;> decide
  · exact Charset.isBlank_of_isUnquoted unquoted
  · decide
  · decide

theorem ne_closing_of_isOpening (opening : isOpening c = true) (item : Item) :
    c ≠ closing item := by
  rintro rfl
  cases item <;> exact absurd opening (by decide)

theorem IsScalar.begins (isScalar : IsScalar text) : ∃ first rest, text = first :: rest ∧
    (Charset.isQuote first || Charset.isUnquoted first) = true := by
  cases isScalar with
  | quoted isQuote _ => exact ⟨_, _, rfl, by simp [isQuote]⟩
  | unquoted nonempty unquoted =>
    obtain ⟨first, rest, rfl⟩ := List.exists_cons_of_ne_nil nonempty
    have unquoted := unquoted first (List.mem_cons_self ..)
    exact ⟨first, rest, rfl, by simp [unquoted]⟩

theorem IsScalar.opens (isScalar : IsScalar text) : Opens text := by
  obtain ⟨first, rest, eq, begins⟩ := isScalar.begins
  exact ⟨first, rest, eq, by simp [isOpening, begins]⟩

theorem Opens.append (opens : Opens text) (after : List Char) : Opens (text ++ after) := by
  obtain ⟨c, rest, rfl, opening⟩ := opens
  exact ⟨c, rest ++ after, rfl, opening⟩

theorem Derives.opens_item {item : Item} (isItem : Derives form (.item item) text) :
    Opens text := by
  cases isItem with
  | entry isKey => exact isKey.opens.append _
  | ofTag tag =>
    cases tag
    exact ⟨_, _, rfl, rfl⟩
  | ofList list =>
    cases list
    exact ⟨_, _, rfl, rfl⟩
  | array => exact ⟨_, _, rfl, rfl⟩
  | scalar isScalar => exact isScalar.opens

theorem Derives.opens_series {item : Item} (isSeries : Derives form (.series item) text) :
    Opens text := by
  cases isSeries with
  | last isItem => exact isItem.opens_item
  | comma isItem => exact isItem.opens_item.append _
  | more isItem => exact isItem.opens_item.append _

theorem Opens.stops_blanks (opens : Opens text) : Stops Charset.isBlank text := by
  obtain ⟨c, rest, rfl, opening⟩ := opens
  exact stops_cons (isBlank_of_isOpening opening) rest

theorem Opens.ne_nil (opens : Opens text) : text ≠ [] := by
  obtain ⟨c, rest, rfl, -⟩ := opens
  exact List.cons_ne_nil _ _

theorem stops_blanks_of_closing {item : Item} (closes : after.head? = some (closing item)) :
    Stops Charset.isBlank after := by
  intro c mem
  rw [closes] at mem
  cases mem
  cases item <;> decide

theorem delimits_of_closing {item : Item} (closes : after.head? = some (closing item)) :
    Delimits after := by
  obtain ⟨rest, rfl⟩ := List.head?_eq_some_iff.1 closes
  refine ⟨_, _, rfl, ?_⟩
  cases item <;> decide

/-- A class without blanks ends in front of blanks, and behind them where another character
follows. -/
theorem stops_of_blanks {p : Char → Bool} (noBlank : ∀ c, p c = true → Charset.isBlank c = false)
    {blanks : List Char} (blank : AreBlanks blanks) (fails : p c = false) (after : List Char) :
    Stops p (blanks ++ c :: after) := by
  cases blanks with
  | nil => exact stops_cons fails after
  | cons d blanks =>
    rintro _ ⟨⟩
    apply eq_false_of_ne_true
    intro holds
    have isBlank := blank d (List.mem_cons_self ..)
    rw [noBlank d holds] at isBlank
    cases isBlank

theorem stops_unquoted_of_blanks {blanks : List Char} (blank : AreBlanks blanks)
    (notUnquoted : Charset.isUnquoted c = false) (after : List Char) :
    Stops Charset.isUnquoted (blanks ++ c :: after) :=
  stops_of_blanks (fun _ => Charset.isBlank_of_isUnquoted) blank notUnquoted after

theorem delimits_of_blanks {blanks : List Char} (blank : AreBlanks blanks)
    (delimits : Delimits after) : Delimits (blanks ++ after) := by
  cases blanks with
  | nil => exact delimits
  | cons c blanks => exact ⟨c, blanks ++ after, rfl, Or.inl (blank c (List.mem_cons_self ..))⟩

theorem Delimits.stops_unquoted (delimits : Delimits after) : Stops Charset.isUnquoted after := by
  obtain ⟨c, rest, rfl, kind⟩ := delimits
  rintro _ ⟨⟩
  apply eq_false_of_ne_true
  intro unquoted
  rcases kind with blank | rfl | rfl | rfl
  · rw [Charset.isBlank_of_isUnquoted unquoted] at blank
    cases blank
  all_goals revert unquoted; decide

end Beginnings

/-! ## Completeness -/

section Completeness

variable {text after : List Char}

theorem takes_scalarOr {missing : Reading Unit} (quotedKind : Highlight)
    (kind : Slice → Highlight) (isScalar : IsScalar text)
    (stops : Stops Charset.isUnquoted after) :
    (do
      if (← Reading.current?).any Charset.isQuote then
        let text ← readQuoted
        token text.span quotedKind
      else
        let text ← readUnquoted
        if text.isEmpty then missing else token text.span (kind text) : Reading Unit).Takes
      text after () := by
  cases isScalar with
  | @quoted quote body isQuote inside =>
    refine .after_look (a := some quote) (fun c front => congrArg List.head? front) ?_
    rw [if_pos (by simpa using isQuote)]
    have noEscape : '\\' ≠ quote := by
      rintro rfl
      exact absurd isQuote (by decide)
    intro c front
    rw [List.cons_append, List.append_assoc] at front
    rw [run_bind, readQuoted_eq front (inside.split noEscape after)]
    rfl
  | unquoted nonempty unquoted =>
    obtain ⟨first, rest, rfl⟩ := List.exists_cons_of_ne_nil nonempty
    have noQuote := Charset.isQuote_of_isUnquoted (unquoted first (List.mem_cons_self ..))
    refine .after_look (a := some first) (fun c front => congrArg List.head? front) ?_
    rw [if_neg (by simp [noQuote])]
    refine takes_readWhile_still unquoted stops fun taken same => ?_
    rw [if_neg (by simp [Slice.isEmpty, same])]
    exact takes_token _ _ _

theorem takes_readKey (isScalar : IsScalar text) (stops : Stops Charset.isUnquoted after) :
    readKey.Takes text after () :=
  takes_scalarOr .property (fun _ => .property) isScalar stops

theorem takes_readScalar (isScalar : IsScalar text) (stops : Stops Charset.isUnquoted after) :
    readScalar.Takes text after () :=
  takes_scalarOr .string scalarKind isScalar stops

theorem takes_readArray {head : Char} {elements : List Char}
    (each : ∀ c ∈ elements, (c != ']') = true) :
    readArray.Takes ('[' :: head :: ';' :: (elements ++ [']'])) after () := by
  refine (takes_expect '[' none _).cons ?_
  refine (takes_advanceOver head .keyword _).cons ?_
  refine (takes_advance ';' _).cons ?_
  exact takes_readWhile each (stops_cons rfl _) fun _ _ => takes_expect ']' none _

/-- A comma and the blanks around it are passed in front of what follows it. -/
theorem takes_passComma {before between : List Char} (blank : AreBlanks before)
    (blankToo : AreBlanks between) (nonempty : after ≠ []) (stops : Stops Charset.isBlank after) :
    passComma.Takes (before ++ ',' :: between) after true := by
  refine (Reading.takes_passComma blank blankToo stops).still ?_
  rw [if_pos rfl]
  refine .after_look (a := false) (fun c front => ?_) (takes_pure true _)
  obtain ⟨first, rest, rfl⟩ := List.exists_cons_of_ne_nil nonempty
  simp [Cursor.atEnd, Slice.isEmpty, front]

theorem takes_passComma_none {blanks : List Char} (blank : AreBlanks blanks)
    (stops : Stops Charset.isBlank after) (noComma : after.head? ≠ some ',') :
    passComma.Takes blanks after false := by
  refine (Reading.takes_passComma_none blank stops noComma).still ?_
  exact takes_pure false _

/-! ### Items -/

variable {form : ArrayForm} {item : Item} {fuel : Nat} {piece blanks : List Char}

/-- In front of the closing character there is no item. -/
theorem takes_items_closed (closes : after.head? = some (closing item)) :
    (readItems item (fuel + 1)).Takes [] after () := by
  rw [readItems_succ]
  refine .after_look (a := some (closing item)) (fun c front => ?_) ?_
  · rw [Cursor.current?, Slice.front?, front]
    exact closes
  · rw [if_pos (by simp)]
    exact takes_pure () _

/-- An item is read where there is one. -/
theorem takes_items_open {others : List Char} (opens : Opens piece)
    (taken : (readItem item fuel).Takes piece (others ++ after) ())
    (next : (do if ← passComma then readItems item fuel else return () : Reading Unit).Takes
      others after ()) :
    (readItems item (fuel + 1)).Takes (piece ++ others) after () := by
  obtain ⟨first, rest, rfl, opening⟩ := opens
  rw [readItems_succ]
  refine .after_look (a := some first) (fun c front => congrArg List.head? front) ?_
  rw [if_neg (by simpa using ne_closing_of_isOpening opening item)]
  exact taken.bind next

theorem takes_items_last (opens : Opens piece)
    (taken : (readItem item fuel).Takes piece (blanks ++ after) ()) (blank : AreBlanks blanks)
    (closes : after.head? = some (closing item)) :
    (readItems item (fuel + 1)).Takes (piece ++ blanks) after () := by
  have noComma : after.head? ≠ some ',' := by
    rw [closes]
    cases item <;> decide
  exact takes_items_open opens taken
    ((takes_passComma_none blank (stops_blanks_of_closing closes) noComma).still (takes_pure () _))

theorem takes_items_more {before between others : List Char} (opens : Opens piece)
    (taken : (readItem item fuel).Takes piece (before ++ ',' :: between ++ others ++ after) ())
    (blank : AreBlanks before) (blankToo : AreBlanks between) (nonempty : others ++ after ≠ [])
    (stops : Stops Charset.isBlank (others ++ after))
    (rest : (readItems item fuel).Takes others after ()) :
    (readItems item (fuel + 1)).Takes (piece ++ (before ++ ',' :: between ++ others)) after () :=
  takes_items_open opens taken ((takes_passComma blank blankToo nonempty stops).bind rest)

/-! ### Symbols -/

/-- With enough steps the text of a symbol is read, provided that what follows it ends
it. -/
def IsRead : Symbol → List Char → Prop
  | .tag, text => ∀ fuel after, 3 * text.length + 1 ≤ fuel → (readTag fuel).Takes text after ()
  | .list, text => ∀ fuel after, 3 * text.length + 1 ≤ fuel → Delimits after →
    (readList fuel).Takes text after ()
  | .item .entry, text => ∀ fuel after, 3 * text.length + 2 ≤ fuel → Delimits after →
    (readItem .entry fuel).Takes text after ()
  | .item .value, text => ∀ fuel blanks after, 3 * text.length + 2 ≤ fuel → AreBlanks blanks →
    Delimits after → (readValue fuel).Takes (blanks ++ text) after ()
  | .series item, text => ∀ fuel blanks after, 3 * text.length + 3 ≤ fuel → AreBlanks blanks →
    after.head? = some (closing item) → (readItems item fuel).Takes (text ++ blanks) after ()
  | .inside item, text => ∃ blanks items, AreBlanks blanks ∧ text = blanks ++ items ∧
    ∀ fuel after, 3 * text.length + 3 ≤ fuel → after.head? = some (closing item) →
      Stops Charset.isBlank (items ++ after) ∧ (readItems item fuel).Takes items after ()

theorem takes_item (isRead : IsRead (.item item) text) (fuel : Nat)
    (enough : 3 * text.length + 2 ≤ fuel) (delimits : Delimits after) :
    (readItem item fuel).Takes text after () := by
  cases item with
  | entry => exact isRead fuel after enough delimits
  | value => exact isRead fuel [] after enough areBlanks_nil delimits

theorem isRead_tag (inside : IsRead (.inside .entry) text) :
    IsRead .tag ('{' :: (text ++ ['}'])) := by
  obtain ⟨blanks, items, blank, rfl, isRead⟩ := inside
  intro fuel after enough
  obtain ⟨fuel, rfl⟩ := Nat.exists_eq_succ_of_ne_zero (by omega : fuel ≠ 0)
  simp only [List.length_cons, List.length_append, List.length_nil] at enough isRead
  obtain ⟨stops, entries⟩ := isRead fuel ('}' :: after) (by omega) rfl
  rw [List.append_assoc]
  refine (takes_expect '{' none _).cons ((takes_skipBlanks blank ?_).bind ?_)
  · rwa [List.append_assoc]
  · exact entries.bind (takes_expect '}' none _)

/-- A value is read as its first character tells. -/
theorem takes_readValue {first : Char} {rest : List Char} (blank : AreBlanks blanks)
    (notBlank : Charset.isBlank first = false)
    (next : (match some first with
      | some '{' => readTag fuel
      | some '[' => readList fuel
      | _ => readScalar : Reading Unit).Takes (first :: rest) after ()) :
    (readValue (fuel + 1)).Takes (blanks ++ first :: rest) after () := by
  refine (takes_skipBlanks blank (stops_cons notBlank _)).bind ?_
  exact .after_look (a := some first) (fun c front => congrArg List.head? front) next

/-- A list that does not begin like an array is not taken for one. -/
theorem startsArray_eq_false {c : Cursor}
    (free : ¬ArrayForm.any.Begins ('[' :: (text ++ [']']))) (delimits : Delimits after)
    (front : c.rest.text = '[' :: (text ++ [']']) ++ after) : startsArray c = false := by
  apply eq_false_of_ne_true
  intro starts
  obtain ⟨first, head, rest, eq, noQuote⟩ := startsArray_iff.1 starts
  rw [front] at eq
  rcases text with _ | ⟨second, _ | ⟨third, text⟩⟩
  · obtain ⟨d, later, rfl, kind⟩ := delimits
    simp only [List.nil_append, List.cons_append, List.cons.injEq] at eq
    obtain ⟨-, -, rfl, -⟩ := eq
    revert kind
    decide
  · simp at eq
  · simp only [List.cons_append, List.cons.injEq] at eq
    obtain ⟨rfl, rfl, rfl, -⟩ := eq
    exact free ⟨second, text ++ [']'], rfl, by simpa [ArrayForm.any] using noQuote⟩

theorem isRead_list (inside : IsRead (.inside .value) text)
    (free : ¬ArrayForm.any.Begins ('[' :: (text ++ [']']))) :
    IsRead .list ('[' :: (text ++ [']'])) := by
  intro fuel after enough delimits
  obtain ⟨fuel, rfl⟩ := Nat.exists_eq_succ_of_ne_zero (by omega : fuel ≠ 0)
  refine .after_look (a := false)
    (fun c front => startsArray_eq_false free delimits front) ?_
  obtain ⟨blanks, items, blank, rfl, isRead⟩ := inside
  simp only [List.length_cons, List.length_append, List.length_nil] at enough isRead
  obtain ⟨stops, elements⟩ := isRead fuel (']' :: after) (by omega) rfl
  rw [List.append_assoc]
  refine (takes_expect '[' none _).cons ((takes_skipBlanks blank ?_).bind ?_)
  · rwa [List.append_assoc]
  · refine .after_look (a := false) (fun c front => ?_) ?_
    · simp [Cursor.atEnd, Slice.isEmpty, front]
    · exact elements.bind (takes_expect ']' none _)

theorem isRead_entry {key before between value : List Char} (isKey : IsScalar key)
    (blank : AreBlanks before) (blankToo : AreBlanks between)
    (isRead : IsRead (.item .value) value) :
    IsRead (.item .entry) (key ++ (before ++ ':' :: (between ++ value))) := by
  intro fuel after enough delimits
  simp only [List.length_append, List.length_cons] at enough
  refine (takes_readKey isKey ?_).bind ((takes_skipBlanks blank ?_).bind
    ((takes_expect ':' _ _).cons (isRead fuel between after (by omega) blankToo delimits)))
  · rw [List.append_assoc]
    exact stops_unquoted_of_blanks blank (by decide) _
  · exact stops_cons (by decide) _

theorem isRead_ofTag (tag : Derives form .tag text) (isRead : IsRead .tag text) :
    IsRead (.item .value) text := by
  intro fuel blanks after enough blank _
  obtain ⟨fuel, rfl⟩ := Nat.exists_eq_succ_of_ne_zero (by omega : fuel ≠ 0)
  cases tag
  exact takes_readValue blank (by decide) (isRead fuel after (by omega))

theorem isRead_ofList (list : Derives form .list text) (isRead : IsRead .list text) :
    IsRead (.item .value) text := by
  intro fuel blanks after enough blank delimits
  obtain ⟨fuel, rfl⟩ := Nat.exists_eq_succ_of_ne_zero (by omega : fuel ≠ 0)
  cases list
  exact takes_readValue blank (by decide) (isRead fuel after (by omega) delimits)

theorem isRead_array {head : Char} {elements : List Char}
    (isHead : ArrayForm.any.head head = true)
    (each : ∀ c ∈ elements, ArrayForm.any.element c = true) :
    IsRead (.item .value) ('[' :: head :: ';' :: (elements ++ [']'])) := by
  intro fuel blanks after enough blank _
  obtain ⟨fuel, rfl⟩ := Nat.exists_eq_succ_of_ne_zero (by omega : fuel ≠ 0)
  refine takes_readValue blank (by decide) ?_
  obtain ⟨fuel, rfl⟩ := Nat.exists_eq_succ_of_ne_zero (by simp at enough; omega : fuel ≠ 0)
  refine .after_look (a := true) (fun c front => ?_) (takes_readArray each)
  exact startsArray_iff.2 ⟨_, _, _, front, by simpa [ArrayForm.any] using isHead⟩

theorem isRead_scalar (isScalar : IsScalar text) : IsRead (.item .value) text := by
  intro fuel blanks after enough blank delimits
  obtain ⟨fuel, rfl⟩ := Nat.exists_eq_succ_of_ne_zero (by omega : fuel ≠ 0)
  have taken := takes_readScalar isScalar delimits.stops_unquoted
  obtain ⟨first, rest, rfl, begins⟩ := isScalar.begins
  have opening : isOpening first = true := by simp [isOpening, begins]
  refine takes_readValue blank (isBlank_of_isOpening opening) ?_
  split
  · rename_i isBrace
    obtain rfl := Option.some.inj isBrace
    exact absurd begins (by decide)
  · rename_i isBracket
    obtain rfl := Option.some.inj isBracket
    exact absurd begins (by decide)
  · exact taken

theorem isRead_empty (item : Item) (blank : AreBlanks blanks) : IsRead (.inside item) blanks := by
  refine ⟨blanks, [], blank, (List.append_nil _).symm, fun fuel after enough closes => ?_⟩
  obtain ⟨fuel, rfl⟩ := Nat.exists_eq_succ_of_ne_zero (by omega : fuel ≠ 0)
  exact ⟨stops_blanks_of_closing closes, takes_items_closed closes⟩

theorem isRead_last (isItem : Derives form (.item item) text) (isRead : IsRead (.item item) text) :
    IsRead (.series item) text := by
  intro fuel blanks after enough blank closes
  obtain ⟨fuel, rfl⟩ := Nat.exists_eq_succ_of_ne_zero (by omega : fuel ≠ 0)
  have taken := takes_item isRead fuel (by omega)
    (delimits_of_blanks blank (delimits_of_closing closes))
  exact takes_items_last isItem.opens_item taken blank closes

theorem isRead_comma (isItem : Derives form (.item item) text) (blank : AreBlanks blanks)
    (isRead : IsRead (.item item) text) : IsRead (.series item) (text ++ (blanks ++ [','])) := by
  intro fuel between after enough blankToo closes
  simp only [List.length_append, List.length_cons] at enough
  obtain ⟨fuel, rfl⟩ := Nat.exists_eq_succ_of_ne_zero (by omega : fuel ≠ 0)
  obtain ⟨fuel, rfl⟩ := Nat.exists_eq_succ_of_ne_zero (by omega : fuel ≠ 0)
  have delimits : Delimits (blanks ++ ',' :: between ++ [] ++ after) := by
    rw [List.append_nil, List.append_assoc]
    exact delimits_of_blanks blank ⟨_, _, rfl, by simp⟩
  have nonempty : after ≠ [] := by
    rintro rfl
    cases closes
  have more := takes_items_more isItem.opens_item
    (takes_item isRead (fuel + 1) (by omega) delimits) blank blankToo nonempty
      (stops_blanks_of_closing closes) (takes_items_closed closes)
  simpa using more

theorem isRead_more {before between others : List Char} (isItem : Derives form (.item item) text)
    (blank : AreBlanks before) (blankToo : AreBlanks between)
    (isSeries : Derives form (.series item) others) (isRead : IsRead (.item item) text)
    (others_isRead : IsRead (.series item) others) :
    IsRead (.series item) (text ++ (before ++ ',' :: (between ++ others))) := by
  intro fuel blanks after enough blankLast closes
  simp only [List.length_append, List.length_cons] at enough
  obtain ⟨fuel, rfl⟩ := Nat.exists_eq_succ_of_ne_zero (by omega : fuel ≠ 0)
  have opens := (isSeries.opens_series.append blanks).append after
  have delimits : Delimits (before ++ ',' :: between ++ (others ++ blanks) ++ after) := by
    rw [List.append_assoc, List.append_assoc]
    exact delimits_of_blanks blank ⟨_, _, rfl, by simp⟩
  have rest := others_isRead fuel blanks after (by omega) blankLast closes
  have more := takes_items_more isItem.opens_item (takes_item isRead fuel (by omega) delimits)
    blank blankToo opens.ne_nil opens.stops_blanks rest
  simpa using more

theorem isRead_filled {before between : List Char} (blank : AreBlanks before)
    (isSeries : Derives form (.series item) text) (blankToo : AreBlanks between)
    (isRead : IsRead (.series item) text) :
    IsRead (.inside item) (before ++ (text ++ between)) := by
  refine ⟨before, text ++ between, blank, rfl, fun fuel after enough closes => ?_⟩
  simp only [List.length_append] at enough
  exact ⟨((isSeries.opens_series.append between).append after).stops_blanks,
    isRead fuel between after (by omega) blankToo closes⟩

/-- Every text of the grammar is read. -/
theorem isRead_of_derives {symbol : Symbol} (derives : Derives .any symbol text) :
    IsRead symbol text := by
  induction derives with
  | tag _ ih => exact isRead_tag ih
  | list _ free ih => exact isRead_list ih (free rfl)
  | entry isKey blank blankToo _ ih => exact isRead_entry isKey blank blankToo ih
  | ofTag tag ih => exact isRead_ofTag tag ih
  | ofList list ih => exact isRead_ofList list ih
  | array isHead each => exact isRead_array isHead each
  | scalar isScalar => exact isRead_scalar isScalar
  | last isItem ih => exact isRead_last isItem ih
  | comma isItem blank ih => exact isRead_comma isItem blank ih
  | more isItem blank blankToo isSeries ih ihSeries =>
    exact isRead_more isItem blank blankToo isSeries ih ihSeries
  | empty blank => exact isRead_empty _ blank
  | filled blank isSeries blankToo ih => exact isRead_filled blank isSeries blankToo ih

end Completeness

end CommandScript.CompoundTag

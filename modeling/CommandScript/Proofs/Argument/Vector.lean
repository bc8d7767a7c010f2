import CommandScript.Proofs.Argument.Reads

/-!
Vectors accept exactly their number of well-formed components.

The words of a vector are collected before any of them is looked at: they stand one behind the
other with spaces in between (`VectorSpec.Follow`), or the line ends before the last of them
(`VectorSpec.Collects`). A separator of more than one space and a component that is no number are
errors that stop nothing, so a vector without an error is one with single spaces, components that
are well formed each on its own (`VectorSpec.IsComponent`), and no two marks.
-/

namespace CommandScript.Argument

open TokenReader

namespace VectorSpec

/-! ## What a vector is -/

/-- The text is a number of the given form. -/
def IsNumber (form : NumberForm) (text : List Char) : Prop :=
  (form.read? text).isSome = true

instance (form : NumberForm) : DecidablePred (IsNumber form) :=
  fun _ => inferInstanceAs (Decidable (_ = true))

/-- A mark alone, a mark in front of a float, or a number without a mark: an integer if the vector
asks for that, and a float otherwise. -/
inductive IsComponent (spec : VectorSpec) : List Char → Prop where
  | mark {m : Char} (isMark : m ∈ spec.marks) : IsComponent spec [m]
  | relative {m : Char} {text : List Char} (isMark : m ∈ spec.marks)
    (isNumber : IsNumber .float text) : IsComponent spec (m :: text)
  | plain {text : List Char} (unmarked : ∀ m ∈ text.head?, m ∉ spec.marks)
    (isNumber : IsNumber (if spec.integer then .integer else .float) text) : IsComponent spec text

/-- The marks with which some words begin. -/
def marksOf (spec : VectorSpec) (words : List Slice) : List Char :=
  words.filterMap fun word => word.text.head?.filter spec.marks.contains

/-- As many components as the vector has, with one mark among them at most. -/
structure IsVector (spec : VectorSpec) (words : List Slice) : Prop where
  length : words.length = spec.dim
  components : ∀ word ∈ words, spec.IsComponent word.text
  oneMark : ∀ m ∈ spec.marksOf words, ∀ m' ∈ spec.marksOf words, m = m'

/-- Words that follow one another, each behind a separator of some kind. -/
inductive Follow (IsSeparator : Slice → Prop) : List Slice → List Token → Prop where
  | nil (tokens : List Token) : Follow IsSeparator [] tokens
  | cons {space word : Slice} {words : List Slice} {tokens : List Token}
    (isSeparator : IsSeparator space) (later : Follow IsSeparator words tokens) :
    Follow IsSeparator (word :: words) (⟨space, true⟩ :: ⟨word, false⟩ :: tokens)

/-- A single space. -/
def IsSingle (space : Slice) : Prop :=
  space.text = [' ']

/-- The tokens begin with the words, separated by single spaces. -/
inductive Spaced : List Slice → List Token → Prop where
  | spaced {first : Slice} {others : List Slice} {tokens : List Token}
    (follow : Follow IsSingle others tokens) : Spaced (first :: others) (⟨first, false⟩ :: tokens)

/-- How many of the tokens are words. -/
def wordCount (tokens : List Token) : Nat :=
  tokens.countP fun token => !token.isSpace

/-- The tokens over a component: one over its mark, and one over what is written behind it. -/
def highlights (spec : VectorSpec) (word : Slice) : List SemanticToken :=
  match word.text with
  | [] => []
  | m :: rest =>
    if m ∈ spec.marks then
      ⟨⟨word.start, word.start + m.utf8Size⟩, .posRel⟩ ::
        if rest = [] then [] else [⟨⟨word.start + m.utf8Size, word.stop⟩, .number⟩]
    else [⟨word.span, .number⟩]

theorem wordCount_word (word : Slice) (tokens : List Token) :
    wordCount (⟨word, false⟩ :: tokens) = wordCount tokens + 1 := by
  simp [wordCount]

theorem wordCount_space (space : Slice) (tokens : List Token) :
    wordCount (⟨space, true⟩ :: tokens) = wordCount tokens := by
  simp [wordCount]

/-! ## Collecting words -/

section Follow

variable {P Q : Slice → Prop} {words others : List Slice} {tokens : List Token}

theorem Follow.length_le (follow : Follow P words tokens) : words.length ≤ wordCount tokens := by
  induction follow with
  | nil => exact Nat.zero_le _
  | cons _ _ ih =>
    rw [wordCount_space, wordCount_word, List.length_cons]
    exact Nat.succ_le_succ ih

/-- The words that follow are told by their number. -/
theorem Follow.unique (follow : Follow P words tokens) (other : Follow Q others tokens)
    (same : words.length = others.length) : words = others := by
  induction follow generalizing others with
  | nil => exact (List.length_eq_zero_iff.1 same.symm).symm
  | cons _ _ ih =>
    cases other with
    | nil => cases same
    | cons _ later => rw [ih later (Nat.succ.inj same)]

theorem Follow.mem (follow : Follow P words tokens) : ∀ word ∈ words, ⟨word, false⟩ ∈ tokens := by
  induction follow with
  | nil => exact nofun
  | cons _ _ ih =>
    refine List.forall_mem_cons.2 ⟨by simp, fun word mem => ?_⟩
    exact List.mem_cons_of_mem _ (List.mem_cons_of_mem _ (ih word mem))

theorem Spaced.length_le (spaced : Spaced words tokens) : words.length ≤ wordCount tokens := by
  cases spaced with
  | spaced follow =>
    rw [wordCount_word, List.length_cons]
    exact Nat.succ_le_succ follow.length_le

/-- Only the words that are there are spaced. -/
theorem spaced_iff {first : Slice} (follow : Follow P others tokens)
    (length : words.length = others.length + 1) :
    Spaced words (⟨first, false⟩ :: tokens) ↔
      words = first :: others ∧ Follow IsSingle others tokens := by
  constructor
  · intro spaced
    cases spaced with
    | spaced single =>
      obtain rfl := single.unique follow (Nat.succ.inj length)
      exact ⟨rfl, single⟩
  · rintro ⟨rfl, single⟩
    exact .spaced single

end Follow

/-- What comes of collecting `n` words behind a word. -/
inductive Collects (n : Nat) (r : TokenReader) :
    Reported (Option (List Slice) × TokenReader) → Prop where
  | enough {words : List Slice} {report : Report} (length : words.length = n)
    (follow : Follow (fun _ => True) words (r.tokens.drop r.index))
    (errors_iff : report.errors = [] ↔ Follow IsSingle words (r.tokens.drop r.index))
    (warnings : report.warnings = []) (tokens : report.tokens = []) :
    Collects n r ⟨(some words, { r with index := r.index + 2 * n }), report⟩
  | short {report : Report} (fewer : wordCount (r.tokens.drop r.index) < n)
    (tokens : report.tokens = []) : Collects n r ⟨(none, r.consumeAll), report⟩

variable {r : TokenReader}

theorem consumeAll_of_atEnd (valid : r.Valid) (ends : r.atEnd = true) : r.consumeAll = r := by
  have index : r.tokens.length = r.index := Nat.le_antisymm (of_decide_eq_true ends) valid.index
  rw [consumeAll, index]

theorem drop_of_atEnd (ends : r.atEnd = true) : r.tokens.drop r.index = [] :=
  List.drop_eq_nil_of_le (of_decide_eq_true ends)

/-- No word is left where the line ends. -/
theorem readOthers_ended (n : Nat) (ends : r.current? = none) :
    readOthers (n + 1) r = ⟨(none, r), ∅⟩ := by
  have noWord := currentWord?_of_atEnd (current?_eq_none_iff.1 ends)
  simp only [readOthers, skipSeparator, ends, pure_bind, noWord]
  rfl

/-- No word is left behind the last separator. -/
theorem readOthers_last (n : Nat) {space : Slice} (found : r.current? = some ⟨space, true⟩)
    (none : r.advance.currentWord? = none) :
    readOthers (n + 1) r = ⟨(.none, r.advance), (checkSeparator ⟨space, true⟩).report⟩ := by
  simp only [readOthers, skipSeparator, found, if_true, bind_assoc, pure_bind, none]
  exact congrArg (Reported.mk _) (Report.append_empty _)

/-- A word is read behind a separator, and the others behind it. -/
theorem readOthers_next (n : Nat) {space next : Slice} (found : r.current? = some ⟨space, true⟩)
    (isNext : r.advance.currentWord? = some next) :
    let later := readOthers n r.advance.advance
    readOthers (n + 1) r = ⟨(later.value.1.map (next :: ·), later.value.2),
      (checkSeparator ⟨space, true⟩).report ++ later.report⟩ := by
  simp only [readOthers, skipSeparator, found, if_true, bind_assoc, pure_bind, isNext]
  exact congrArg (fun report => (⟨_, _ ++ report⟩ : Reported _)) (Report.append_empty _)

theorem checkSeparator_errors_iff {space : Slice} {isSpace : Bool} :
    (checkSeparator ⟨space, isSpace⟩).report.errors = [] ↔ IsSingle space := by
  rw [checkSeparator, Reported.errorIf_errors]
  simp [IsSingle]

theorem checkSeparator_warnings (token : Token) : (checkSeparator token).report.warnings = [] :=
  Reported.errorIf_warnings ..

theorem follow_cons_iff {P : Slice → Prop} {space word : Slice} {words : List Slice}
    {tokens : List Token} :
    Follow P (word :: words) (⟨space, true⟩ :: ⟨word, false⟩ :: tokens) ↔
      P space ∧ Follow P words tokens := by
  constructor
  · intro follow
    cases follow with
    | cons isSeparator later => exact ⟨isSeparator, later⟩
  · rintro ⟨isSeparator, later⟩
    exact .cons isSeparator later

theorem collects_ended (n : Nat) (valid : r.Valid) (found : r.current? = none) :
    Collects (n + 1) r (readOthers (n + 1) r) := by
  have ends := current?_eq_none_iff.1 found
  have short : Collects (n + 1) r ⟨(none, r.consumeAll), ∅⟩ :=
    .short (by simp [drop_of_atEnd ends, wordCount]) rfl
  rw [consumeAll_of_atEnd valid ends] at short
  rwa [readOthers_ended n found]

theorem collects_last (n : Nat) (valid : r.Valid) {space : Slice}
    (found : r.current? = some ⟨space, true⟩) (noWord : r.advance.currentWord? = none) :
    Collects (n + 1) r (readOthers (n + 1) r) := by
  have atWord := valid.advance_atWord found rfl
  have ends := current?_eq_none_iff.1 (atWord.current?_eq_none noWord)
  have last : r.consumeAll = r.advance := by
    rw [← consumeAll_of_atEnd (valid.advance_ahead.valid valid) ends,
      advance_eq (atEnd_eq_false found)]
    rfl
  have short : wordCount (r.tokens.drop r.index) < n + 1 := by
    rw [drop_eq_cons found, drop_of_atEnd ends]
    exact Nat.succ_pos n
  rw [readOthers_last n found noWord, ← last]
  exact .short short (checkSeparator_tokens _)

/-- One more word is collected in front of the others. -/
theorem Collects.next {n : Nat} {space next : Slice} (found : r.current? = some ⟨space, true⟩)
    (isNext : r.advance.currentWord? = some next)
    (later : Collects n r.advance.advance (readOthers n r.advance.advance)) :
    Collects (n + 1) r (readOthers (n + 1) r) := by
  have current := currentWord?_eq_some isNext
  have noTokens := checkSeparator_tokens ⟨space, true⟩
  have unread : r.tokens.drop r.index = ⟨space, true⟩ :: ⟨next, false⟩ ::
      r.advance.advance.tokens.drop r.advance.advance.index := by
    rw [drop_eq_cons found, drop_eq_cons current]
  have place : r.advance.advance = { r with index := r.index + 2 } := by
    rw [advance_eq (atEnd_eq_false current), advance_eq (atEnd_eq_false found)]
  rw [readOthers_next n found isNext]
  generalize readOthers n r.advance.advance = outcome at later ⊢
  cases later with
  | @enough words report length follow errors_iff warnings tokens =>
    have reader : { r.advance.advance with index := r.advance.advance.index + 2 * n } =
        { r with index := r.index + 2 * (n + 1) } := by
      rw [place, Nat.mul_succ, Nat.add_comm (2 * n), ← Nat.add_assoc]
    rw [reader]
    refine .enough (congrArg (· + 1) length) ?_ ?_ ?_ ?_
    · rw [unread]
      exact .cons trivial follow
    · rw [unread, follow_cons_iff, Report.append_errors, List.append_eq_nil_iff,
        checkSeparator_errors_iff, errors_iff]
    · rw [Report.append_warnings, checkSeparator_warnings, warnings]
      rfl
    · rw [Report.append_tokens, noTokens, tokens]
      rfl
  | @short report fewer tokens =>
    have reader : r.advance.advance.consumeAll = r.consumeAll := by
      rw [place]
      rfl
    rw [reader]
    refine .short ?_ ?_
    · rw [unread, wordCount_space, wordCount_word]
      exact Nat.succ_lt_succ fewer
    · rw [Report.append_tokens, noTokens, tokens]
      rfl

theorem readOthers_collects (n : Nat) (valid : r.Valid) (separated : r.AtSeparator) :
    Collects n r (readOthers n r) := by
  induction n generalizing r with
  | zero => exact .enough rfl (.nil _) (iff_of_true rfl (.nil _)) rfl rfl
  | succ n ih =>
    cases found : r.current? with
    | none => exact collects_ended n valid found
    | some token =>
      obtain ⟨space, isSpace⟩ := token
      obtain rfl : isSpace = true := separated _ found
      have moved := valid.advance_ahead.valid valid
      cases next : r.advance.currentWord? with
      | none => exact collects_last n valid found next
      | some word =>
        have separated := moved.advance_atSeparator (currentWord?_eq_some next) rfl
        exact .next found next (ih (moved.advance_ahead.valid moved) separated)

/-! ## Checking words -/

section Words

variable {spec : VectorSpec} {word : Slice} {words : List Slice}

theorem isComponent_marked {m : Char} {text : List Char} (isMark : m ∈ spec.marks) :
    spec.IsComponent (m :: text) ↔ text = [] ∨ IsNumber .float text := by
  constructor
  · intro isComponent
    cases isComponent with
    | mark => exact Or.inl rfl
    | relative _ isNumber => exact Or.inr isNumber
    | plain unmarked => exact absurd isMark (unmarked m rfl)
  · rintro (rfl | isNumber)
    · exact .mark isMark
    · exact .relative isMark isNumber

theorem isComponent_unmarked {text : List Char} (unmarked : ∀ m ∈ text.head?, m ∉ spec.marks) :
    spec.IsComponent text ↔ IsNumber (if spec.integer then .integer else .float) text := by
  constructor
  · intro isComponent
    cases isComponent with
    | mark isMark => exact absurd isMark (unmarked _ rfl)
    | relative isMark => exact absurd isMark (unmarked _ rfl)
    | plain _ isNumber => exact isNumber
  · exact .plain unmarked

theorem component_marked {m : Char} {text : List Char} {start : Nat} (isMark : m ∈ spec.marks) :
    spec.component ⟨m :: text, start⟩ =
      ⟨some ⟨[m], start⟩, ⟨text, start + byteLength [m]⟩⟩ := by
  rw [component, if_pos (by simpa [Slice.front?] using isMark)]
  rfl

theorem component_unmarked (unmarked : ∀ m ∈ word.text.head?, m ∉ spec.marks) :
    spec.component word = ⟨none, word⟩ := by
  refine if_neg fun marked => ?_
  obtain ⟨m, front, isMark⟩ := (Option.any_eq_true _ _).1 marked
  exact unmarked m front (List.contains_iff_mem.1 isMark)

/-- The tokens over the parts of a component. -/
def Component.highlights (c : Component) : List SemanticToken :=
  (c.mark.map fun mark => ⟨mark.span, .posRel⟩).toList ++
    if c.number.isEmpty then [] else [⟨c.number.span, .number⟩]

theorem highlights_component (spec : VectorSpec) (word : Slice) :
    (spec.component word).highlights = spec.highlights word := by
  obtain ⟨text, start⟩ := word
  cases text with
  | nil => rfl
  | cons m rest =>
    by_cases isMark : m ∈ spec.marks
    · have stop : start + m.utf8Size + byteLength rest = start + byteLength (m :: rest) := by
        rw [byteLength_cons, Nat.add_assoc]
      rw [component_marked isMark]
      simp [highlights, Component.highlights, Slice.isEmpty, Slice.span, Slice.stop_eq, isMark,
        stop]
    · rw [component_unmarked (by simpa using isMark)]
      simp [highlights, Component.highlights, Slice.isEmpty, isMark]

theorem report_checkNumber (spec : VectorSpec) (c : Component) :
    (spec.checkNumber c).report =
      ⟨if c.number.text = [] ∨ IsNumber (spec.form c) c.number.text then []
        else [⟨c.number.span, spec.message (.unreadable (spec.form c) c.number)⟩], [],
        if c.number.isEmpty then [] else [⟨c.number.span, .number⟩]⟩ := by
  unfold checkNumber
  cases empty : c.number.isEmpty with
  | true =>
    have nothing : c.number.text = [] := List.isEmpty_iff.1 empty
    rw [if_pos (Or.inl nothing)]
    rfl
  | false =>
    have something : c.number.text ≠ [] := by simpa [Slice.isEmpty] using empty
    by_cases isNumber : IsNumber (spec.form c) c.number.text
    · have read : ((spec.form c).read? c.number.text).isNone = false := by
        simpa [IsNumber] using isNumber
      rw [if_pos (Or.inr isNumber)]
      simp only [Bool.false_eq_true, if_false, read]
      rfl
    · have unread : ((spec.form c).read? c.number.text).isNone = true := by
        simpa [IsNumber] using isNumber
      rw [if_neg (not_or.2 ⟨something, isNumber⟩)]
      simp only [Bool.false_eq_true, if_false, unread]
      rfl

/-- A number that cannot be read is the only thing wrong with a component. -/
theorem report_checkComponent (spec : VectorSpec) (c : Component) :
    (spec.checkComponent c).report =
      ⟨if c.number.text = [] ∨ IsNumber (spec.form c) c.number.text then []
        else [⟨c.number.span, spec.message (.unreadable (spec.form c) c.number)⟩], [],
        c.highlights⟩ := by
  have number := report_checkNumber spec c
  obtain ⟨mark, rest⟩ := c
  cases mark with
  | none => exact number
  | some mark =>
    exact congrArg (Report.token mark.span .posRel ++ ·) number

/-- A word that is not empty is checked without an error exactly if it is a component. -/
theorem checkComponent_errors_iff (nonempty : word.text ≠ []) :
    (spec.checkComponent (spec.component word)).report.errors = [] ↔
      spec.IsComponent word.text := by
  rw [report_checkComponent]
  obtain ⟨text, start⟩ := word
  obtain ⟨m, text, rfl⟩ := List.exists_cons_of_ne_nil nonempty
  by_cases isMark : m ∈ spec.marks
  · rw [component_marked isMark, isComponent_marked isMark]
    simp [form, or_iff_not_imp_left]
  · have unmarked : ∀ d ∈ Slice.text ⟨m :: text, start⟩ |>.head?, d ∉ spec.marks := by
      rintro _ ⟨⟩
      exact isMark
    rw [component_unmarked unmarked, isComponent_unmarked unmarked]
    simp [form]

/-- The mark of a component is the character with which it begins. -/
theorem mark_component (spec : VectorSpec) (word : Slice) :
    (spec.component word).mark.map Slice.text =
      (word.text.head?.filter spec.marks.contains).map ([·]) := by
  obtain ⟨text, start⟩ := word
  cases text with
  | nil => rfl
  | cons m text =>
    by_cases isMark : m ∈ spec.marks
    · rw [component_marked isMark, List.head?_cons, Option.filter_some,
        if_pos (List.contains_iff_mem.2 isMark)]
      rfl
    · rw [component_unmarked (by simpa using isMark), List.head?_cons, Option.filter_some,
        if_neg fun marked => isMark (List.contains_iff_mem.1 marked)]
      rfl

theorem mixesMarks_eq_false :
    mixesMarks (words.map spec.component) = false ↔
      ∀ m ∈ spec.marksOf words, ∀ m' ∈ spec.marksOf words, m = m' := by
  have marks : (words.map spec.component).filterMap (fun c => c.mark.map Slice.text) =
      (spec.marksOf words).map ([·]) := by
    rw [marksOf, List.filterMap_map, List.map_filterMap]
    refine congrArg (List.filterMap · words) (funext fun word => ?_)
    exact mark_component spec word
  unfold mixesMarks
  rw [marks]
  cases spec.marksOf words with
  | nil => exact iff_of_true rfl nofun
  | cons m others =>
    have same : (others.map ([·])).any (· != [m]) = false ↔ ∀ d ∈ others, d = m := by simp
    refine same.trans ⟨fun same => ?_, fun pairs d mem => ?_⟩
    · have all : ∀ d ∈ m :: others, d = m := List.forall_mem_cons.2 ⟨rfl, same⟩
      exact fun d mem d' mem' => (all d mem).trans (all d' mem').symm
    · exact pairs d (List.mem_cons_of_mem _ mem) m (List.mem_cons_self ..)

/-- Words are checked without an error exactly if they are components with one mark at most. -/
theorem checkWords_errors_iff {first : Slice} {others : List Slice}
    (nonempty : ∀ word ∈ first :: others, word.text ≠ []) :
    (spec.checkWords first others).report.errors = [] ↔
      (∀ word ∈ first :: others, spec.IsComponent word.text) ∧
        ∀ m ∈ spec.marksOf (first :: others), ∀ m' ∈ spec.marksOf (first :: others), m = m' := by
  have components : (Reported.each spec.checkComponent
      ((first :: others).map spec.component)).report.errors = [] ↔
        ∀ word ∈ first :: others, spec.IsComponent word.text := by
    rw [Reported.report_each, List.flatMap_eq_nil_iff, List.forall_mem_map]
    exact forall₂_congr fun word mem => checkComponent_errors_iff (nonempty word mem)
  rw [checkWords, Reported.report_bind, Report.append_errors, List.append_eq_nil_iff, components,
    Reported.errorIf_errors, ← mixesMarks_eq_false]
  simp

/-- The words are highlighted one after the other, and nothing else is remarked. -/
theorem report_checkWords (spec : VectorSpec) (first : Slice) (others : List Slice) :
    (spec.checkWords first others).report.warnings = [] ∧
      (spec.checkWords first others).report.tokens = (first :: others).flatMap spec.highlights := by
  rw [checkWords, Reported.report_bind, Reported.report_each]
  constructor
  · rw [Report.append_warnings, Reported.errorIf_warnings, List.append_nil]
    simp [report_checkComponent]
  · simp only [Report.append_tokens, Reported.errorIf_tokens, List.append_nil, List.flatMap_map,
      report_checkComponent, highlights_component]

end Words

/-! ## Reading a vector -/

section Reading

variable {spec : VectorSpec} {word : Slice}

/-- What comes of reading a vector on its first word: with enough others behind it the reader is
past the last of them, and all of them are checked; otherwise the line ends too early. -/
inductive ReadsWords (spec : VectorSpec) (r : TokenReader) (first : Slice) :
    Reported TokenReader → Prop where
  | enough {others : List Slice} {report : Report} (length : others.length + 1 = spec.dim)
    (follow : Follow (fun _ => True) others (r.advance.tokens.drop r.advance.index))
    (errors_iff : report.errors = [] ↔ spec.IsVector (first :: others) ∧
      Follow IsSingle others (r.advance.tokens.drop r.advance.index))
    (warnings : report.warnings = [])
    (tokens : report.tokens = (first :: others).flatMap spec.highlights) :
    ReadsWords spec r first ⟨{ r with index := r.index + (2 * spec.dim - 1) }, report⟩
  | short {report : Report} (fewer : wordCount (r.tokens.drop r.index) < spec.dim)
    (errors : report.errors ≠ []) (tokens : report.tokens = []) :
    ReadsWords spec r first ⟨r.consumeAll, report⟩

/-- No word of a line is empty. -/
theorem nonempty_of_follow {P : Slice → Prop} {others : List Slice} (valid : r.Valid)
    (current : r.current? = some ⟨word, false⟩)
    (follow : Follow P others (r.advance.tokens.drop r.advance.index)) :
    ∀ each ∈ word :: others, each.text ≠ [] := by
  have nonempty : ∀ token ∈ r.tokens, token.slice.text ≠ [] := fun token mem =>
    (Token.ofLine_tiles r.line).nonempty token (valid.tokens.subset mem)
  rw [advance_eq (atEnd_eq_false current)] at follow
  refine List.forall_mem_cons.2 ⟨nonempty _ (List.mem_of_getElem? current), fun other mem => ?_⟩
  exact nonempty _ (List.mem_of_mem_drop (follow.mem other mem))

theorem readVector_readsWords (positive : 1 ≤ spec.dim) (valid : r.Valid)
    (onWord : r.currentWord? = some word) : ReadsWords spec r word (readVector spec r) := by
  have current := currentWord?_eq_some onWord
  have collects := readOthers_collects (spec.dim - 1) (valid.advance_ahead.valid valid)
    (valid.advance_atSeparator current rfl)
  have advanced := advance_eq (atEnd_eq_false current)
  unfold readVector
  rw [onWord]
  dsimp only
  generalize readOthers (spec.dim - 1) r.advance = outcome at collects ⊢
  cases collects with
  | @enough others report length follow errors_iff warnings tokens =>
    have reader : { r.advance with index := r.advance.index + 2 * (spec.dim - 1) } =
        { r with index := r.index + (2 * spec.dim - 1) } := by
      have distance : r.index + 1 + 2 * (spec.dim - 1) = r.index + (2 * spec.dim - 1) := by omega
      rw [advanced, ← distance]
    have all : others.length + 1 = spec.dim := by omega
    obtain ⟨noWarnings, checked⟩ := report_checkWords spec word others
    have whole : ReadsWords spec r word ⟨{ r with index := r.index + (2 * spec.dim - 1) },
        report ++ (spec.checkWords word others).report⟩ := by
      refine .enough all follow ?_ ?_ ?_
      · rw [Report.append_errors, List.append_eq_nil_iff, errors_iff,
          checkWords_errors_iff (nonempty_of_follow valid current follow), and_comm]
        exact and_congr_left fun _ => ⟨fun ⟨components, oneMark⟩ => ⟨all, components, oneMark⟩,
          fun isVector => ⟨isVector.components, isVector.oneMark⟩⟩
      · rw [Report.append_warnings, warnings, noWarnings]
        rfl
      · rw [Report.append_tokens, tokens, checked]
        rfl
    rw [reader]
    rwa [← Report.append_empty (spec.checkWords word others).report] at whole
  | @short report fewer tokens =>
    have reader : r.advance.consumeAll = r.consumeAll := by
      rw [advanced]
      rfl
    rw [reader]
    refine .short ?_ (List.append_ne_nil_of_right_ne_nil _ (List.cons_ne_nil _ _)) ?_
    · rw [drop_eq_cons current, wordCount_word]
      omega
    · rw [Report.append_tokens, tokens]
      rfl

/-- Vectors accept exactly their number of well-formed components. A vector is read without an error
if and only if it begins the unread tokens, one component a word, with single spaces in between;
then the reader passes exactly these words and spaces, and the marks and numbers are highlighted in
their order. Where too few words are left, the reader passes all of the line and highlights
nothing. -/
theorem readVector_accepts (positive : 1 ≤ spec.dim) (valid : r.Valid)
    (onWord : r.currentWord? = some word) :
    let outcome := readVector spec r
    let unread := r.tokens.drop r.index
    (outcome.report.errors = [] ↔ ∃ words, spec.IsVector words ∧ Spaced words unread) ∧
    (∀ words, spec.IsVector words → Spaced words unread → outcome =
      ⟨{ r with index := r.index + (2 * spec.dim - 1) },
        ⟨[], [], words.flatMap spec.highlights⟩⟩) ∧
    (wordCount unread < spec.dim → outcome.value = r.consumeAll ∧ outcome.report.tokens = []) := by
  intro outcome unread
  have reads : ReadsWords spec r word outcome := readVector_readsWords positive valid onWord
  have front : unread = ⟨word, false⟩ :: r.advance.tokens.drop r.advance.index :=
    drop_eq_cons (currentWord?_eq_some onWord)
  clear_value outcome
  cases reads with
  | @enough others report length follow errors_iff warnings tokens =>
    generalize r.advance.tokens.drop r.advance.index = behind at front follow errors_iff
    have only : ∀ {words}, spec.IsVector words → (Spaced words unread ↔
        words = word :: others ∧ Follow IsSingle others behind) := fun isVector => by
      rw [front]
      exact spaced_iff follow (isVector.length.trans length.symm)
    refine ⟨errors_iff.trans ⟨fun ⟨isVector, single⟩ => ?_, fun ⟨words, isVector, spaced⟩ => ?_⟩,
      fun words isVector spaced => ?_, fun fewer => ?_⟩
    · exact ⟨_, isVector, (only isVector).2 ⟨rfl, single⟩⟩
    · obtain ⟨rfl, single⟩ := (only isVector).1 spaced
      exact ⟨isVector, single⟩
    · obtain ⟨rfl, single⟩ := (only isVector).1 spaced
      have silent := errors_iff.2 ⟨isVector, single⟩
      obtain ⟨errors, warnings, tokens⟩ := report
      subst silent warnings tokens
      rfl
    · have enough := follow.length_le
      rw [front, wordCount_word] at fewer
      omega
  | short fewer errors tokens =>
    have noVector : ∀ words, spec.IsVector words → ¬Spaced words unread :=
      fun words isVector spaced => by
        have enough := spaced.length_le
        rw [isVector.length] at enough
        exact Nat.not_lt.2 enough fewer
    refine ⟨iff_of_false errors fun ⟨words, isVector, spaced⟩ => noVector words isVector spaced,
      fun words isVector spaced => absurd spaced (noVector words isVector), fun _ => ⟨rfl, tokens⟩⟩

/-- A marked column in front of another word. -/
theorem readVector_accepts_column :
    let spec : VectorSpec := ⟨"ColumnPosArgument", 2, ['~', '^'], true⟩
    let r : TokenReader := .ofLine "^ -7 0".toList
    1 ≤ spec.dim ∧ r.Valid ∧ r.currentWord? = some ⟨['^'], 0⟩ ∧ readVector spec r =
      ⟨{ r with index := 3 }, ⟨[], [], [⟨⟨0, 1⟩, .posRel⟩, ⟨⟨2, 4⟩, .number⟩]⟩⟩ := by
  intro spec r
  have valid : r.Valid := ⟨List.suffix_refl _, Nat.zero_le _⟩
  have onWord : r.currentWord? = some ⟨['^'], 0⟩ := by decide
  have unread : r.tokens.drop r.index = [⟨⟨['^'], 0⟩, false⟩, ⟨⟨[' '], 1⟩, true⟩,
      ⟨⟨['-', '7'], 2⟩, false⟩, ⟨⟨[' '], 4⟩, true⟩, ⟨⟨['0'], 5⟩, false⟩] := by decide
  have marks : spec.marksOf [⟨['^'], 0⟩, ⟨['-', '7'], 2⟩] = ['^'] := by decide
  have isVector : spec.IsVector [⟨['^'], 0⟩, ⟨['-', '7'], 2⟩] := by
    refine ⟨rfl, List.forall_mem_cons.2 ⟨.mark (by decide), List.forall_mem_singleton.2 ?_⟩,
      by simp [marks]⟩
    refine .plain ?_ (by decide)
    rintro _ ⟨⟩
    decide
  have accepts := (readVector_accepts (by decide) valid onWord).2.1 _ isVector
  rw [unread] at accepts
  exact ⟨by decide, valid, onWord, accepts (.spaced (.cons rfl (.nil _)))⟩

end Reading

end VectorSpec

end CommandScript.Argument

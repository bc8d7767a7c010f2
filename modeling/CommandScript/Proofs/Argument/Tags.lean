import CommandScript.Proofs.Argument.Word
import CommandScript.Proofs.CompoundTag.Simple
import CommandScript.Proofs.PropertyList.Written

/-!
Compound tags inside words.

A tag reaches its reader through others: the line is cut into words, an item or a block ends
its id in front of the tag, and a selector looks for the end of its list and for the commas
in it. Since a tag with simple arrays is balanced, all of them leave it in one piece
(`scanners_agree_on_tags`).
-/

namespace CommandScript

variable {allowTag : Bool} {id tag : List Char}

/-! ## Words -/

namespace Token

/-- A tag in one line is a piece of a word. -/
theorem joins_of_isSimpleTag (isTag : CompoundTag.IsSimpleTag tag) (oneLine : '\n' ∉ tag)
    (opened : List Bracket) : Joins opened tag opened := by
  obtain ⟨inside, rfl, balanced⟩ := isTag.bracketed
  refine joins_bracketed .curly fun bracket => joins_of_balanced balanced (fun mem => ?_) nofun
  exact oneLine (List.mem_cons_of_mem _ (List.mem_append_left _ mem))

/-- A selector with a tag as the value of its predicate is a piece of a word. -/
theorem joins_selector (isTag : CompoundTag.IsSimpleTag tag) (oneLine : '\n' ∉ tag) :
    Joins [] ("@e[nbt=".toList ++ tag ++ [']']) [] := by
  have inside : ∀ bracket, Joins [bracket] ("nbt=".toList ++ tag) [bracket] := fun bracket =>
    (joins_of_plain _ (List.all_eq_true.1 rfl)).append (joins_of_isSimpleTag isTag oneLine _)
  exact Argument.Target.joins_block (by decide : 'e' ∈ Argument.Target.classes) inside

end Token

namespace Argument

/-! ## Items and blocks -/

/-- An id ends in front of a tag. -/
theorem stops_of_isSimpleTag (isTag : CompoundTag.IsSimpleTag tag) : Stops Item.isIdChar tag := by
  obtain ⟨inside, rfl, -⟩ := isTag.bracketed
  exact stops_cons rfl _

namespace Item

theorem check_errors {word : Slice} (isId : Resource.IsId allowTag id)
    (isTag : CompoundTag.IsSimpleTag tag) (text : word.text = id ++ tag) :
    (Item.check allowTag word).report.errors = [] := by
  have idSilent := (Resource.read_errors_iff allowTag .resource ⟨id, word.start⟩).2 isId
  have tagSilent := isTag.readWhole_errors (word.start + byteLength id)
  have hasId : Slice.isEmpty ⟨id, word.start⟩ = false := by simp [Slice.isEmpty, isId.ne_nil]
  unfold check
  rw [splitWhile_isIdChar isId (stops_of_isSimpleTag isTag) text]
  dsimp only
  rw [hasId, if_neg Bool.false_ne_true, Reported.report_labelled, Report.labelled_errors_eq_nil,
    Reported.report_bind, Report.append_errors, idSilent]
  split
  · rfl
  · exact tagSilent

end Item

namespace BlockSpec

/-- Looking a block up is a warning at most. -/
theorem readId_errors (spec : BlockSpec) (registries : Registries) (id : Slice) :
    (spec.readId registries id).report.errors =
      (Resource.read spec.allowTag .resource id).report.errors := by
  unfold readId
  generalize Resource.read spec.allowTag .resource id = outcome
  rcases outcome with ⟨value, report⟩
  have silent : ∀ {found : Reported (Option Known)}, found.report.errors = [] →
      (report ++ found.report).errors = report.errors := by
    intro found silent
    rw [Report.append_errors, silent, List.append_nil]
  rw [Reported.report_bind]
  apply silent
  cases value with
  | none => rfl
  | some resource =>
    dsimp only
    split
    · rfl
    · split <;> rfl

theorem check_errors (spec : BlockSpec) (registries : Registries) {word : Slice}
    (isId : Resource.IsId spec.allowTag id)
    (isTag : CompoundTag.IsSimpleTag tag) (text : word.text = id ++ tag) :
    (spec.check registries word).report.errors = [] := by
  have idSilent := (Resource.read_errors_iff spec.allowTag .resource ⟨id, word.start⟩).2 isId
  have suffixSilent : ∀ block, (readSuffix block ⟨tag, word.start + byteLength id⟩).report.errors =
      [] := by
    intro block
    have tagSilent := isTag.readWhole_errors (word.start + byteLength id)
    obtain ⟨inside, rfl, -⟩ := isTag.bracketed
    exact tagSilent
  rw [spec.check_report registries isId (stops_of_isSimpleTag isTag) text,
    Report.labelled_errors_eq_nil, Report.append_errors, readId_errors, idSilent, suffixSilent]
  rfl

end BlockSpec

namespace Target

/-- The key of the predicate that takes a compound tag. -/
def nbtKey : List Char :=
  "nbt".toList

theorem nbtKey_plain : ∀ c ∈ nbtKey ++ ['='], Nesting.isMark c = false ∧ c ≠ ',' := by
  have plain : ((nbtKey ++ ['=']).all fun c => Nesting.isMark c = false ∧ c ≠ ',') = true := by
    decide
  exact fun c mem => of_decide_eq_true (List.all_eq_true.1 plain c mem)

/-- A predicate with a tag may be written down in a selector. -/
theorem nbt_writes (isTag : CompoundTag.IsSimpleTag tag) : predicateSpec.Writes nbtKey tag where
  keyNonempty := by decide
  keyTrimmed := by
    constructor
    · rintro _ ⟨⟩
      decide
    · rintro _ ⟨⟩
      decide
  noEquals := by decide
  keyValid := by decide
  valueNonempty := by
    obtain ⟨inside, rfl, -⟩ := isTag.bracketed
    exact List.cons_ne_nil _ _
  valueTrimmed := by
    obtain ⟨inside, rfl, -⟩ := isTag.bracketed
    constructor
    · rintro _ ⟨⟩
      decide
    · rw [← List.cons_append, List.getLast?_concat]
      rintro _ ⟨⟩
      decide
  valueValid := rfl

theorem nbt_balanced (isTag : CompoundTag.IsSimpleTag tag) : Balanced (nbtKey ++ '=' :: tag) := by
  have front : Balanced (nbtKey ++ ['=']) := balanced_of_plain fun c mem => (nbtKey_plain c mem).1
  have whole := front.append isTag.balanced
  rwa [List.append_assoc] at whole

theorem nbt_whole (isTag : CompoundTag.IsSimpleTag tag) :
    Nesting.Whole ',' (nbtKey ++ '=' :: tag) := by
  obtain ⟨inside, rfl, balanced⟩ := isTag.bracketed
  have whole := (Nesting.whole_of_plain nbtKey_plain).append
    (Nesting.whole_of_bracketed .curly balanced)
  rwa [List.append_assoc] at whole

theorem checkPredicate_errors (isTag : CompoundTag.IsSimpleTag tag) (keyAt valueAt : Nat) :
    (checkPredicate ⟨⟨nbtKey, keyAt⟩, ⟨tag, valueAt⟩⟩).report.errors = [] := by
  obtain ⟨row, found, predicate⟩ : ∃ row, SelectorEntry.find? (Slice.toString ⟨nbtKey, keyAt⟩) =
      some row ∧ row.predicate = .negatable false .compoundTag none := ⟨_, rfl, rfl⟩
  have isWord : Charset.isWordText nbtKey = true := by decide
  have hasValue : Slice.isEmpty ⟨tag, valueAt⟩ = false := by
    simp [Slice.isEmpty, (nbt_writes isTag).valueNonempty]
  have notNegated : Slice.front? ⟨tag, valueAt⟩ ≠ some '!' := by
    obtain ⟨inside, rfl, -⟩ := isTag.bracketed
    simp [Slice.front?]
  unfold checkPredicate
  dsimp only
  rw [isWord, if_neg (by decide), found]
  dsimp only
  rw [hasValue, if_neg (by simp), predicate, Reported.report_labelled,
    Report.labelled_errors_eq_nil, SelectorPredicate.read, SelectorPredicate.readNegatable,
    if_neg notNegated, SelectorPredicate.readChecked, hasValue, if_neg Bool.false_ne_true,
    Reported.report_bind, Report.append_errors]
  rw [ValueCheck.run, isTag.readWhole_errors]
  rfl

theorem checkPredicates_errors (isTag : CompoundTag.IsSimpleTag tag) {block : Slice}
    (text : block.text = '[' :: (nbtKey ++ '=' :: tag ++ [']'])) :
    (checkPredicates block).report.errors = [] := by
  obtain ⟨keyAt, valueAt, restAt, report, list, silent⟩ := PropertySpec.read_single
    (nbt_writes isTag) .square (nbt_balanced isTag) (nbt_whole isTag) text
  rw [checkPredicates_of_bracket text, list, Reported.report_bind, Report.append_errors, silent]
  have entry := checkPredicate_errors isTag keyAt valueAt
  show [] ++ ([] ++ ((checkPredicate _).report.errors ++ [])) = []
  rw [entry]
  rfl

theorem check_errors (kind : TargetKind) {word : Slice} (isTag : CompoundTag.IsSimpleTag tag)
    (text : word.text = "@e[nbt=".toList ++ tag ++ [']']) :
    (check kind word).report.errors = [] := by
  have front : word.text = '@' :: 'e' :: '[' :: (nbtKey ++ '=' :: tag ++ [']']) := text
  rw [check_selector kind (by decide) front]
  exact checkPredicates_errors isTag (by simp [Slice.drop, front])

end Target

end Argument

/-! ## Agreement -/

/-- All that stands between a line and the reader of compound tags leaves a tag in one piece.
Let a tag of one line be written with simple arrays. In front of a space, an id and the tag
behind it are a single word, and on that word items and blocks report no error, whichever
blocks are known. A selector with the tag as a predicate is a single word as well, and no
target reports an error on it. -/
theorem scanners_agree_on_tags (isTag : CompoundTag.IsSimpleTag tag) (oneLine : '\n' ∉ tag)
    (isId : Resource.IsId allowTag id) :
    (∀ rest, ∃ others, Token.ofLine (id ++ tag ++ ' ' :: rest) =
      ⟨⟨id ++ tag, 0⟩, false⟩ :: others) ∧
    (∀ (registries : Registries) (reader : TokenReader) (word : Slice),
      reader.currentWord? = some word → word.text = id ++ tag →
        ((Argument.item allowTag).read registries reader).report.errors = [] ∧
        ∀ name, ((Argument.block ⟨name, allowTag⟩).read registries reader).report.errors = []) ∧
    Token.ofLine ("@e[nbt=".toList ++ tag ++ [']']) =
      [⟨⟨"@e[nbt=".toList ++ tag ++ [']'], 0⟩, false⟩] ∧
    ∀ (kind : Argument.TargetKind) (registries : Registries) (reader : TokenReader)
      (word : Slice), reader.currentWord? = some word →
        word.text = "@e[nbt=".toList ++ tag ++ [']'] →
          ((Argument.target kind).read registries reader).report.errors = [] := by
  have wordJoins : Token.Joins [] (id ++ tag) [] :=
    (Token.joins_of_isId isId []).append (Token.joins_of_isSimpleTag isTag oneLine [])
  have nonempty : id ++ tag ≠ [] := List.append_ne_nil_of_left_ne_nil isId.ne_nil tag
  obtain ⟨-, inFront⟩ := Token.ofLine_of_joins wordJoins nonempty
  obtain ⟨alone, -⟩ := Token.ofLine_of_joins (Token.joins_selector isTag oneLine)
    (List.cons_ne_nil _ _)
  refine ⟨inFront, ?_, alone, ?_⟩
  · intro registries reader word found text
    constructor
    · exact (Argument.readWord_errors _ _ found).trans (Argument.Item.check_errors isId isTag text)
    · intro name
      exact (Argument.readWord_errors _ _ found).trans
        (Argument.BlockSpec.check_errors ⟨name, allowTag⟩ registries isId isTag text)
  · intro kind registries reader word found text
    exact (Argument.readWord_errors _ _ found).trans (Argument.Target.check_errors kind isTag text)

/-- An id, and a tag with spaces both in a quoted key and among the elements of an array. -/
theorem scanners_agree_on_tags_array :
    CompoundTag.IsSimpleTag "\x7b\"a b\":[I;1, 2],\x7d".toList ∧
      '\n' ∉ "\x7b\"a b\":[I;1, 2],\x7d".toList ∧ Resource.IsId false "stone".toList ∧
      (∃ others, Token.ofLine "stone\x7b\"a b\":[I;1, 2],\x7d 1".toList =
        ⟨⟨"stone\x7b\"a b\":[I;1, 2],\x7d".toList, 0⟩, false⟩ :: others) ∧
      ((Argument.item false).read .empty
        (.ofLine "stone\x7b\"a b\":[I;1, 2],\x7d".toList)).report.errors = [] ∧
      Token.ofLine "@e[nbt=\x7b\"a b\":[I;1, 2],\x7d]".toList =
        [⟨⟨"@e[nbt=\x7b\"a b\":[I;1, 2],\x7d]".toList, 0⟩, false⟩] := by
  have body : QuotedBody '"' "a b".toList :=
    .plain (by decide) (by decide) (.plain (by decide) (by decide)
      (.plain (by decide) (by decide) .nil))
  have key := CompoundTag.IsScalar.quoted rfl body
  have array : CompoundTag.Derives .simple (.item .value)
      ('[' :: 'I' :: ';' :: ("1, 2".toList ++ [']'])) := .array rfl (List.all_eq_true.1 rfl)
  have blank := CompoundTag.areBlanks_nil
  have isTag : CompoundTag.IsSimpleTag "\x7b\"a b\":[I;1, 2],\x7d".toList :=
    .tag (.filled blank (.comma (.entry key blank blank array) blank) blank)
  have oneLine : '\n' ∉ "\x7b\"a b\":[I;1, 2],\x7d".toList := by decide
  have isId : Resource.IsId false "stone".toList :=
    .plain (.path (by decide) (List.all_eq_true.1 rfl))
  obtain ⟨words, items, selector, -⟩ := scanners_agree_on_tags isTag oneLine isId
  refine ⟨isTag, oneLine, isId, words "1".toList, ?_, selector⟩
  exact (items .empty _ ⟨_, 0⟩ rfl rfl).1

end CommandScript

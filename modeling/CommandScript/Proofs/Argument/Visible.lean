import CommandScript.Proofs.Argument.Reads
import CommandScript.Proofs.Visible

/-!
What the arguments highlight can be seen.

All but one of the predicates of a selector highlight text that is there, and so do the other
arguments. So for every argument of the library an empty token stands where a boolean is
missing in advancements, or nowhere (`Argument.read_visible`).
-/

namespace CommandScript

/-! ## Predicates of a selector -/

theorem ValueCheck.run_visible (check : ValueCheck) (value : Slice) :
    (check.run value).report.Visible := by
  cases check with
  | anything => exact Report.visible_empty
  | unquoted message => exact Reported.visible_errorIf
  | oneOf words message => exact Reported.visible_errorIf
  | resource allowTag => simp [run, Resource.read_visible]
  | compoundTag => exact CompoundTag.readWhole_visible value

namespace SelectorPredicate

theorem readScores_visible (value : Slice) : (readScores value).report.Visible := by
  have ranges : ∀ entry : PropertyEntry, (readRange .integer true entry.value).report.Visible := by
    simp [readRange, RangeSpec.read_visible]
  unfold readScores
  split
  · exact Report.visible_error
  · split
    · exact Report.visible_error
    · refine Report.visible_append.2 ⟨PropertySpec.read_visible _ _, ?_⟩
      dsimp only
      split
      · exact Report.visible_empty
      · exact Report.visible_append.2
          ⟨Reported.visible_errorIf, Report.visible_additive.each fun entry _ => ranges entry⟩

theorem readChecked_visible (allowEmpty : Bool) (check : ValueCheck) (kind : Option Highlight)
    (value : Slice) : (readChecked allowEmpty check kind value).report.Visible := by
  unfold readChecked
  split
  · exact Reported.visible_errorIf
  · rename_i written
    refine Report.visible_append.2 ⟨check.run_visible value, ?_⟩
    cases kind with
    | none => exact Report.visible_empty
    | some kind => exact Report.visible_token.2 (Slice.text_ne_nil_of_isEmpty written)

theorem readNegatable_visible (allowEmpty : Bool) (check : ValueCheck) (kind : Option Highlight)
    (value : Slice) : (readNegatable allowEmpty check kind value).report.Visible := by
  unfold readNegatable
  split
  · rename_i negated
    exact Report.visible_append.2 ⟨Report.visible_token.2 (Slice.take_ne_nil_of_front? negated),
      readChecked_visible _ _ _ _⟩
  · exact readChecked_visible _ _ _ _

/-- Only advancements highlight anything that may be empty. -/
theorem read_visible {predicate : SelectorPredicate} {messages : String → Prop} {value : Slice}
    (excused : predicate = .advancements → messages Advancements.Fault.notBoolean.message)
    (written : predicate.allowsEmpty = false → value.text ≠ []) :
    (predicate.read value).report.VisibleBut messages := by
  cases predicate with
  | float => exact Report.Visible.but (by simp [read, NumberSpec.read_visible])
  | nonNegativeInteger => exact Report.Visible.but (by simp [read, NumberSpec.read_visible])
  | range form allowNegative =>
    exact Report.Visible.but (by simp [read, readRange, RangeSpec.read_visible])
  | scores => exact (readScores_visible value).but
  | advancements => exact Advancements.read_visible (excused rfl) value
  | negatable allowEmpty check kind => exact (readNegatable_visible allowEmpty check kind value).but
  | word check kind =>
    exact (Report.visible_append.2
      ⟨check.run_visible value, Report.visible_token.2 (written rfl)⟩).but

end SelectorPredicate

namespace Argument

/-- What is said of a boolean that is missing in the advancements of a selector. -/
def Target.missingBoolean : String :=
  "EntityParser (predicate 'advancements'): must be 'true' or 'false'"

/-- Over some text, or an empty keyword where a boolean is missing in advancements. -/
def VisibleBooleans (r : Report) : Prop :=
  r.VisibleBut (· = Target.missingBoolean)

namespace Target

theorem key_of_advancements : ∀ row ∈ SelectorEntry.table,
    row.predicate = .advancements → row.key = "advancements" := by
  decide

theorem checkPredicate_visible (entry : PropertyEntry) :
    VisibleBooleans (checkPredicate entry).report := by
  unfold checkPredicate
  split
  · exact Report.visible_empty.but
  · split
    · exact Report.visible_error.but
    · rename_i row found
      split
      · exact Report.visible_error.but
      · rename_i filled
        have key : row.key = entry.key.toString := by
          simpa using List.find?_some found
        refine Report.VisibleBut.labelled (SelectorPredicate.read_visible ?_ ?_)
        · intro advancements
          have named := key_of_advancements row (List.mem_of_find?_eq_some found) advancements
          have label : predicateLabel entry.key = "EntityParser (predicate 'advancements'): " := by
            change "EntityParser (predicate '" ++ entry.key.toString ++ "'): " = _
            rw [← key, named]
            rfl
          rw [label]
          rfl
        · intro needed empty
          simp [Slice.isEmpty, empty, needed] at filled

theorem checkPredicates_visible (block : Slice) :
    VisibleBooleans (checkPredicates block).report := by
  have additive := Report.visibleBut_additive (· = missingBoolean)
  unfold checkPredicates
  split
  · exact Report.visible_empty.but
  · split
    · exact Report.visible_error.but
    · refine additive.append (PropertySpec.read_visible _ _).but ?_
      dsimp only
      split
      · exact Report.visible_empty.but
      · exact additive.append Reported.visible_errorIf.but
          (additive.each fun entry _ => checkPredicate_visible entry)

theorem checkSelector_visible (word : Slice) : VisibleBooleans (checkSelector word).report := by
  unfold checkSelector
  dsimp only
  split
  · exact Report.visible_error.but
  · rename_i c front
    split
    · have name : ((word.drop 1).take 1).text ≠ [] := fun empty => by
        simp [Slice.front?, empty] at front
      have covered : word.start < ((word.drop 1).take 1).stop :=
        Nat.lt_of_le_of_lt (Slice.drop_within 1 word).start_le (Slice.start_lt_stop name)
      have selector : (Report.token (Span.cover word ((word.drop 1).take 1)) .selector).Visible :=
        List.forall_mem_singleton.2 (Nat.lt_of_lt_of_le covered (Nat.le_max_left ..))
      exact (Report.visibleBut_additive _).append selector.but (checkPredicates_visible _)
    · exact Report.visible_error.but

theorem check_visible (kind : TargetKind) {word : Slice} (written : word.text ≠ []) :
    VisibleBooleans (check kind word).report := by
  unfold check checkPlayer
  split
  · exact (Report.visible_token.2 written).but
  · split
    · exact checkSelector_visible word
    · refine Report.Visible.but ?_
      split
      · exact Report.visible_token.2 written
      · split <;> simp [written]

end Target

/-! ## Vectors, blocks and particles -/

theorem VectorSpec.checkWords_visible (spec : VectorSpec) (first : Slice) (others : List Slice) :
    (spec.checkWords first others).report.Visible := by
  have component : ∀ word, (spec.checkComponent (spec.component word)).report.Visible := by
    intro word
    have number : ∀ c, (spec.checkNumber c).report.Visible := by
      intro c
      unfold checkNumber
      split
      · exact Report.visible_empty
      · rename_i written
        simp [Slice.text_ne_nil_of_isEmpty written]
    unfold checkComponent VectorSpec.component
    split
    · rename_i marked
      obtain ⟨c, front, -⟩ := (Option.any_eq_true _ _).1 marked
      simp [number, Slice.take_ne_nil_of_front? front]
    · simp [number]
  refine Report.visible_append.2 ⟨Report.visible_additive.each fun c mem => ?_,
    Reported.visible_errorIf⟩
  obtain ⟨word, -, rfl⟩ := List.mem_map.1 mem
  exact component word

theorem skipSeparator_visible (r : TokenReader) : (skipSeparator r).report.Visible := by
  unfold skipSeparator checkSeparator
  split
  · split <;> simp
  · simp

theorem VectorSpec.readOthers_visible (n : Nat) (r : TokenReader) :
    (readOthers n r).report.Visible := by
  induction n generalizing r with
  | zero => exact Report.visible_empty
  | succ n ih =>
    rw [readOthers, Reported.report_bind, Report.visible_append]
    refine ⟨skipSeparator_visible r, ?_⟩
    dsimp only
    split <;> simp [ih]

theorem readVector_visible (spec : VectorSpec) (r : TokenReader) :
    (readVector spec r).report.Visible := by
  unfold readVector
  split
  · simp
  · rw [Reported.report_bind, Report.visible_append]
    refine ⟨VectorSpec.readOthers_visible _ _, ?_⟩
    dsimp only
    split <;> simp [VectorSpec.checkWords_visible]

namespace BlockSpec

variable (spec : BlockSpec)

theorem readSuffix_visible (block : Option Known) (suffix : Slice) :
    (readSuffix block suffix).report.Visible := by
  have tag : ∀ rest, (readTag rest).report.Visible := by
    intro rest
    unfold readTag
    split
    · exact CompoundTag.readWhole_visible rest
    · exact Reported.visible_errorIf
  have value : ∀ entry, (highlightValue entry).report.Visible := by
    intro entry
    unfold highlightValue
    split
    · exact Report.visible_empty
    · rename_i written
      exact Report.visible_token.2 (Slice.text_ne_nil_of_isEmpty written)
  have entries : ∀ known seen entries, (checkEntries known seen entries).report.Visible := by
    intro known seen entries
    induction entries generalizing seen with
    | nil => exact Report.visible_empty
    | cons entry entries ih =>
      have first : (checkEntry known seen entry).report.Visible := by
        unfold checkEntry
        split <;> simp
      exact Report.visible_append.2 ⟨first, ih _⟩
  unfold readSuffix
  split
  · refine Report.visible_append.2 ⟨propertySpec.read_visible suffix, ?_⟩
    dsimp only
    split
    · exact Report.visible_empty
    · refine Report.visible_append.2
        ⟨Report.visible_additive.each fun entry _ => value entry, ?_⟩
      cases block <;> simp [entries, tag]
  · exact tag suffix

theorem check_visible (registries : Registries) (word : Slice) :
    (spec.check registries word).report.Visible := by
  have id : ∀ id, (spec.readId registries id).report.Visible := by
    intro id
    refine Report.visible_append.2 ⟨Resource.read_visible _ _ _, ?_⟩
    dsimp only
    split
    · exact Report.visible_empty
    · split
      · exact Report.visible_empty
      · split <;> simp
  unfold check
  dsimp only
  split <;> simp [id, readSuffix_visible]

end BlockSpec

/-- What an argument of one word reports has a property if what its check reports has. -/
theorem readWord_reports {P : Report → Prop} (additive : Report.Additive P) {missing : String}
    {check : Slice → Reported Unit} {r : TokenReader} (error : ∀ span, P (.error span missing))
    (checked : ∀ word, r.currentWord? = some word → P (check word).report) :
    P (readWord missing check r).report := by
  unfold readWord
  split
  · rename_i word found
    exact additive.append (checked word found) additive.empty
  · exact additive.append (error _) additive.empty

theorem readBlock_visible (spec : BlockSpec) (registries : Registries) (r : TokenReader) :
    (readBlock spec registries r).report.Visible :=
  readWord_reports Report.visible_additive (fun _ => Report.visible_error)
    fun word _ => spec.check_visible registries word

namespace Particle

theorem readExtra_visible (registries : Registries) (id : String) (word : Slice)
    (r : TokenReader) : (readExtra registries id word r).report.Visible := by
  unfold readExtra
  split
  · exact Report.visible_empty
  · rename_i extra _
    refine Report.visible_append.2 ⟨skipSeparator_visible r, ?_⟩
    dsimp only
    split
    · cases extra with
      | block => exact readBlock_visible _ registries _
      | dust => exact readVector_visible _ _
    · simp

end Particle

theorem readParticle_visible (registries : Registries) (r : TokenReader) :
    (readParticle registries r).report.Visible := by
  unfold readParticle
  split
  · refine Report.visible_append.2
      ⟨Report.visible_labelled.2 (Resource.read_visible _ _ _), ?_⟩
    dsimp only
    split
    · exact Report.visible_empty
    · split
      · simp
      · exact Particle.readExtra_visible registries _ _ _
  · simp

/-! ## All arguments -/

theorem WordKind.check_visible (kind : WordKind) {word : Slice} (written : word.text ≠ []) :
    (kind.check word).report.Visible := by
  have chars : ∀ fault?, (checkChars fault? word).report.Visible := fun fault? =>
    Report.visible_additive.each fun piece _ => by dsimp only; split <;> simp
  have axes : ∀ seen pieces, (checkAxes seen pieces).report.Visible := by
    intro seen pieces
    induction pieces generalizing seen with
    | nil => exact Report.visible_empty
    | cons piece pieces ih =>
      rw [checkAxes]
      split <;> simp [ih]
  have value : (kind.checkValue word).report.Visible := by
    cases kind <;> simp [checkValue, axes]
  unfold check
  split <;> simp [chars, value, written]

theorem Duration.check_visible (min : Int) (word : Slice) : (check min word).report.Visible := by
  have length : ∀ digits unit, (checkLength min word digits unit).report.Visible := by
    intro digits unit
    unfold checkLength
    split
    · simp
    · split <;> simp
  unfold check
  dsimp only
  split
  · simp
  · rename_i number
    have digits := Slice.text_ne_nil_of_isEmpty number
    split
    · simp [digits, length]
    · rename_i unit
      simp [digits, Slice.text_ne_nil_of_isEmpty unit, length]

theorem StringKind.check_visible (kind : StringKind) {word : Slice} (written : word.text ≠ []) :
    (kind.check word).report.Visible := by
  unfold check
  refine Report.visible_labelled.2 ?_
  split
  · rename_i quoted
    have front : (Cursor.ofSlice word).current?.any Charset.isQuote = true :=
      (Bool.and_eq_true_iff.1 quoted).2
    obtain ⟨visible, text⟩ := Cursor.readQuoted_visible front
    refine Report.visible_append.2 ⟨visible, ?_⟩
    dsimp only
    split
    · rename_i read found
      simp [text read found]
    · simp [written]
  · simp [checkWord, written]

section Readers

variable {r : TokenReader}

theorem readRest_visible {missing : String} (valid : r.Valid) :
    (readRest missing r).report.Visible := by
  unfold readRest
  split
  · simp
  · rename_i unread
    obtain ⟨token, found⟩ : ∃ token, r.current? = some token :=
      Option.ne_none_iff_exists'.1 fun ends => unread (TokenReader.current?_eq_none_iff.1 ends)
    have begins := valid.current_start found
    have within := valid.current_within found
    have ends := within.stop_le
    have written := Slice.start_lt_stop (valid.current found).2.2.2.1
    rw [TokenReader.line_stop] at ends
    have rest : (Report.token r.remaining.span .string).Visible := by
      refine List.forall_mem_singleton.2 ?_
      change r.remaining.start < r.remaining.stop
      rw [r.remaining_start, valid.remaining_stop]
      omega
    exact Report.visible_append.2 ⟨rest, Report.visible_empty⟩

/-- Nothing that an argument highlights is empty, but for booleans that are missing. -/
theorem read_visible (argument : Argument) (registries : Registries) (valid : r.Valid) :
    VisibleBooleans (argument.read registries r).report := by
  have written : ∀ word, r.currentWord? = some word → word.text ≠ [] := fun word found =>
    (valid.current (TokenReader.currentWord?_eq_some found)).2.2.2.1
  have ofWord : ∀ {missing : String} {check : Slice → Reported Unit},
      (∀ word, word.text ≠ [] → (check word).report.Visible) →
        VisibleBooleans (readWord missing check r).report := fun checked =>
    (readWord_reports Report.visible_additive (fun _ => Report.visible_error)
      fun word found => checked word (written word found)).but
  cases argument with
  | vector spec => exact (readVector_visible spec r).but
  | resource allowTag => exact ofWord fun word _ => by simp [Resource.read_visible]
  | uuid => exact ofWord fun word some => by split <;> simp [some]
  | duration min => exact ofWord fun word _ => Duration.check_visible min word
  | word kind => exact ofWord fun word some => kind.check_visible some
  | criterion => exact ofWord fun word some => Report.visible_token.2 some
  | operator => exact ofWord fun word some => by simp [some]
  | block spec => exact (readBlock_visible spec registries r).but
  | item allowTag =>
    refine ofWord fun word _ => ?_
    unfold Item.check
    dsimp only
    split
    · simp
    · split <;> simp [Resource.read_visible, CompoundTag.readWhole_visible]
  | particle => exact (readParticle_visible registries r).but
  | compoundTag => exact ofWord fun word _ => CompoundTag.readWhole_visible word
  | message => exact (readRest_visible valid).but
  | range form => exact ofWord fun word _ => by simp [RangeSpec.read_visible]
  | target kind =>
    exact readWord_reports (Report.visibleBut_additive _) (fun _ => Report.visible_error.but)
      fun word found => Target.check_visible kind (written word found)
  | string kind =>
    cases kind with
    | greedy => exact (readRest_visible valid).but
    | word => exact ofWord fun word some => StringKind.check_visible .word some
    | phrase => exact ofWord fun word some => StringKind.check_visible .phrase some
  | boolean => exact ofWord fun word some => by split <;> simp [some]
  | number form min max => exact ofWord fun word _ => by simp [NumberSpec.read_visible]

end Readers

end Argument

end CommandScript

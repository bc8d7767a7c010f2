import CommandScript.Proofs.Shift.Readers
import CommandScript.Selector.Predicate

/-!
Readers of texts do not depend on where the text stands.

A reader relocates if, on a text anywhere in a line, with any label in front of its messages
and behind whatever was reported before, it yields and reports what it does on the text alone,
with every slice and span shifted to the place of the text (`Relocates`). The recursive readers
are compared with themselves for any number of steps left (`CompoundTag.shiftedAt`), and every
reader of a text relocates (`readers_relocate`).
-/

namespace CommandScript

variable {k : Nat}

/-! ## Compound tags -/

namespace CompoundTag

open Reading

theorem shifted_readKey : Shifted k id readKey readKey := by
  refine shifted_current?.bind fun _ => shifted_ite ?_ ?_
  · exact shifted_readQuoted.bind fun key => shifted_token
  · refine shifted_readUnquoted.bind fun key => shifted_ite ?_ shifted_token
    have here : Shifted k (Cursor.shift k) (look id) (look id) := shifted_look fun _ => rfl
    exact here.bind fun _ => shifted_ite shifted_fail shifted_fail

theorem shifted_readScalar : Shifted k id readScalar readScalar := by
  refine shifted_current?.bind fun _ => shifted_ite ?_ ?_
  · exact shifted_readQuoted.bind fun quoted => shifted_token
  · exact shifted_readUnquoted.bind fun value =>
      shifted_ite shifted_expectedValue shifted_token

theorem shifted_readArray : Shifted k id readArray readArray :=
  shifted_expect.bind fun _ => shifted_advanceOver.bind fun _ =>
    shifted_advance.bind fun _ => shifted_readWhile.bind fun _ => shifted_expect

theorem shifted_startsArray : Shifted k id (look startsArray) (look startsArray) :=
  shifted_look fun _ => rfl

theorem shifted_atEnd : Shifted k id (look Cursor.atEnd) (look Cursor.atEnd) :=
  shifted_look fun _ => rfl

theorem shifted_passComma : Shifted k id passComma passComma :=
  Reading.shifted_passComma.bind fun _ => shifted_ite
    (shifted_atEnd.bind fun _ => shifted_ite shifted_expectedValue shifted_pure)
    shifted_pure

/-- With that many steps left, every part of a tag is read the same further on. -/
structure ShiftedAt (k fuel : Nat) : Prop where
  tag : Shifted k id (readTag fuel) (readTag fuel)
  entries : Shifted k id (readEntries fuel) (readEntries fuel)
  value : Shifted k id (readValue fuel) (readValue fuel)
  list : Shifted k id (readList fuel) (readList fuel)
  elements : Shifted k id (readElements fuel) (readElements fuel)

theorem shiftedAt (k fuel : Nat) : ShiftedAt k fuel := by
  induction fuel with
  | zero =>
    constructor <;> exact shifted_expectedValue
  | succ fuel ih =>
    have tag : Shifted k id (readTag (fuel + 1)) (readTag (fuel + 1)) :=
      shifted_expect.bind fun _ => shifted_skipBlanks.bind fun _ =>
        ih.entries.bind fun _ => shifted_expect
    have entries : Shifted k id (readEntries (fuel + 1)) (readEntries (fuel + 1)) :=
      shifted_current?.bind fun _ => shifted_ite shifted_pure <|
        shifted_readKey.bind fun _ => shifted_skipBlanks.bind fun _ =>
          shifted_expect.bind fun _ => ih.value.bind fun _ =>
            shifted_passComma.bind fun _ => shifted_ite ih.entries shifted_pure
    have value : Shifted k id (readValue (fuel + 1)) (readValue (fuel + 1)) := by
      refine shifted_skipBlanks.bind fun _ => shifted_current?.bind fun current => ?_
      dsimp only [id]
      split
      · exact ih.tag
      · exact ih.list
      · exact shifted_readScalar
    have list : Shifted k id (readList (fuel + 1)) (readList (fuel + 1)) :=
      shifted_startsArray.bind fun _ => shifted_ite shifted_readArray <|
        shifted_expect.bind fun _ => shifted_skipBlanks.bind fun _ =>
          shifted_atEnd.bind fun _ => shifted_ite shifted_expectedValue <|
            ih.elements.bind fun _ => shifted_expect
    have elements : Shifted k id (readElements (fuel + 1)) (readElements (fuel + 1)) :=
      shifted_current?.bind fun _ => shifted_ite shifted_pure <|
        ih.value.bind fun _ => shifted_passComma.bind fun _ =>
          shifted_ite ih.elements shifted_pure
    exact ⟨tag, entries, value, list, elements⟩

theorem read_shifted (k : Nat) (s : Slice) :
    Reported.Shifted k (Option.map (Slice.shift k)) (read s) (read (s.shift k)) := by
  refine ((shiftedAt k _).tag (.ofSlice s)).bind fun outcome => ?_
  cases outcome with
  | none => exact Reported.shifted_pure
  | some found => exact Reported.shifted_pure

theorem readWhole_shifted (k : Nat) (s : Slice) :
    Reported.Shifted k id (readWhole s) (readWhole (s.shift k)) := by
  refine (read_shifted k s).bind fun outcome => ?_
  cases outcome with
  | none => exact Reported.shifted_pure
  | some rest => exact Reported.shifted_errorIf

end CompoundTag

/-! ## Advancements -/

namespace Advancements

open Reading

theorem shifted_readId : Shifted k id readId readId := by
  intro c
  refine (Resource.shifted_splitter c.rest .empty).bind fun left => ?_
  exact (Resource.read_shifted k false .resource _).bind fun _ => Reported.shifted_pure

theorem shifted_readBoolean : Shifted k id readBoolean readBoolean := by
  refine shifted_readUnquoted.bind fun value => shifted_ite ?_ ?_
  · exact shifted_token
  · exact shifted_error.bind fun _ => shifted_token

theorem shifted_readCriterion : Shifted k id readCriterion readCriterion :=
  (shifted_look fun _ => Cursor.currentSlice_shift ..).bind fun _ =>
    shifted_readUnquoted.bind fun _ =>
      shifted_ite shifted_fail shifted_token

theorem shifted_readCriteria {fuel : Nat} :
    Shifted k id (readCriteria fuel) (readCriteria fuel) := by
  induction fuel with
  | zero => exact shifted_expectedValue
  | succ fuel ih =>
    exact shifted_current?.bind fun _ => shifted_ite shifted_pure <|
      shifted_readCriterion.bind fun _ => shifted_skipBlanks.bind fun _ =>
        shifted_expect.bind fun _ => shifted_skipBlanks.bind fun _ =>
          shifted_readBoolean.bind fun _ => shifted_passComma.bind fun _ =>
            shifted_ite ih shifted_pure

theorem shifted_readSetting {fuel : Nat} : Shifted k id (readSetting fuel) (readSetting fuel) :=
  shifted_current?.bind fun _ => shifted_ite
    (shifted_advance.bind fun _ => shifted_skipBlanks.bind fun _ =>
      shifted_readCriteria.bind fun _ => shifted_expect)
    shifted_readBoolean

theorem shifted_readItems {fuel : Nat} : Shifted k id (readItems fuel) (readItems fuel) := by
  induction fuel with
  | zero => exact shifted_expectedValue
  | succ fuel ih =>
    exact shifted_current?.bind fun _ => shifted_ite shifted_pure <|
      shifted_readId.bind fun _ => shifted_skipBlanks.bind fun _ =>
        shifted_expect.bind fun _ => shifted_skipBlanks.bind fun _ =>
          shifted_readSetting.bind fun _ => shifted_passComma.bind fun _ =>
            shifted_ite ih shifted_pure

theorem shifted_readValue {fuel : Nat} : Shifted k id (readValue fuel) (readValue fuel) :=
  shifted_expect.bind fun _ => shifted_skipBlanks.bind fun _ =>
    shifted_readItems.bind fun _ => shifted_expect.bind fun _ =>
      (shifted_look fun _ => Cursor.rest_shift ..).bind fun _ =>
        shifted_report Reported.shifted_errorIf

theorem read_shifted (k : Nat) (s : Slice) :
    Reported.Shifted k id (read s) (read (s.shift k)) :=
  (shifted_readValue (.ofSlice s)).bind fun _ => Reported.shifted_pure

end Advancements

/-! ## Values of a selector -/

open Reported

theorem ValueCheck.run_shifted (k : Nat) (check : ValueCheck) (value : Slice) :
    Shifted k id (check.run value) (check.run (value.shift k)) := by
  cases check with
  | anything => exact shifted_pure
  | unquoted message => exact shifted_errorIf
  | oneOf words message => exact shifted_errorIf
  | resource allowTag =>
    exact (Resource.read_shifted k allowTag .resource value).bind fun _ => shifted_pure
  | compoundTag => exact CompoundTag.readWhole_shifted k value

namespace SelectorPredicate

theorem readRange_shifted (k : Nat) (form : NumberForm) (allowNegative : Bool) (value : Slice) :
    Shifted k id (readRange form allowNegative value)
      (readRange form allowNegative (value.shift k)) :=
  (RangeSpec.read_shifted k _ value).bind fun _ => shifted_pure

theorem readScores_shifted (k : Nat) (value : Slice) :
    Shifted k id (readScores value) (readScores (value.shift k)) := by
  refine shifted_ite shifted_error (shifted_ite shifted_error ?_)
  refine (PropertySpec.read_shifted k scoresSpec value).bind fun list => ?_
  cases list with
  | none => exact shifted_pure
  | some list =>
    exact shifted_errorIf.bind fun _ => shifted_each (PropertyEntry.shift k)
      (fun entry => readRange_shifted k .integer true entry.value) list.entries

theorem readChecked_shifted (k : Nat) (allowEmpty : Bool) (check : ValueCheck)
    (kind : Option Highlight) (value : Slice) :
    Shifted k id (readChecked allowEmpty check kind value)
      (readChecked allowEmpty check kind (value.shift k)) := by
  refine shifted_ite shifted_errorIf ?_
  refine (check.run_shifted k value).bind fun _ => ?_
  cases kind with
  | none => exact shifted_pure
  | some kind => exact shifted_token

theorem readNegatable_shifted (k : Nat) (allowEmpty : Bool) (check : ValueCheck)
    (kind : Option Highlight) (value : Slice) :
    Shifted k id (readNegatable allowEmpty check kind value)
      (readNegatable allowEmpty check kind (value.shift k)) := by
  unfold readNegatable
  rw [Slice.front?_shift, Slice.drop_shift, Slice.trimStart_shift]
  refine shifted_ite (shifted_token.bind fun _ => ?_) ?_
  · exact readChecked_shifted ..
  · exact readChecked_shifted ..

theorem read_shifted (k : Nat) (predicate : SelectorPredicate) (value : Slice) :
    Shifted k id (predicate.read value) (predicate.read (value.shift k)) := by
  cases predicate with
  | float => exact (NumberSpec.read_shifted k floatSpec value).bind fun _ => shifted_pure
  | nonNegativeInteger =>
    exact (NumberSpec.read_shifted k nonNegativeSpec value).bind fun _ => shifted_pure
  | range form allowNegative => exact readRange_shifted k form allowNegative value
  | scores => exact readScores_shifted k value
  | advancements => exact Advancements.read_shifted k value
  | negatable allowEmpty check kind => exact readNegatable_shifted k allowEmpty check kind value
  | word check kind => exact (check.run_shifted k value).bind fun _ => shifted_token

end SelectorPredicate

/-! ## Relocation -/

/-- What a reader yields and adds to a report, wherever its text stands, is what it does with
the text alone, shifted. `move k` shifts the slices in what it yields. -/
structure Relocates {α : Type} (move : Nat → α → α) (reader : Slice → Reported α) : Prop where
  value (text : List Char) (k : Nat) : (reader ⟨text, k⟩).value = move k (reader ⟨text, 0⟩).value
  errors (text : List Char) (k : Nat) (label : String) (before : Report) :
    (before ++ (reader ⟨text, k⟩).report.labelled label).errors =
      before.errors ++
        (reader ⟨text, 0⟩).report.errors.map fun e => ⟨e.span.shift k, label ++ e.message⟩
  warnings (text : List Char) (k : Nat) (label : String) (before : Report) :
    (before ++ (reader ⟨text, k⟩).report.labelled label).warnings =
      before.warnings ++
        (reader ⟨text, 0⟩).report.warnings.map fun w => ⟨w.span.shift k, label ++ w.message⟩
  tokens (text : List Char) (k : Nat) (label : String) (before : Report) :
    (before ++ (reader ⟨text, k⟩).report.labelled label).tokens =
      before.tokens ++ (reader ⟨text, 0⟩).report.tokens.map fun t => ⟨t.span.shift k, t.kind⟩

theorem relocates {α : Type} {move : Nat → α → α} {reader : Slice → Reported α}
    (shifted : ∀ k s, Shifted k (move k) (reader s) (reader (s.shift k))) :
    Relocates move reader := by
  have further (text : List Char) (k : Nat) : reader ⟨text, k⟩ =
      ⟨move k (reader ⟨text, 0⟩).value, (reader ⟨text, 0⟩).report.shift k⟩ :=
    shifted k ⟨text, 0⟩
  constructor
  · intro text k
    rw [further]
  · intro text k label before
    rw [further, Report.append_errors]
    exact congrArg _ (List.map_map ..)
  · intro text k label before
    rw [further, Report.append_warnings]
    exact congrArg _ (List.map_map ..)
  · intro text k label before
    rw [further]
    rfl

/-- What is left, with captures held from before behind those that were made. -/
def Leftover.over (held : Captures) (left : Leftover) : Leftover :=
  ⟨left.rest, left.goOn, ⟨left.captures.entries ++ held.entries⟩⟩

theorem Resource.splitter_over (held : Captures) (s : Slice) :
    splitter s held =
      ⟨(splitter s .empty).value.over held, (splitter s .empty).report⟩ := by
  by_cases colon : (s.splitWhile Charset.isPath).2.text.head? = some ':'
  all_goals
    simp [splitter, Combinator.chain, Combinator.stored, Combinator.observing,
      Combinator.takeWhile, Combinator.onlyIf, Combinator.after, colon]
    rfl

/-- Every reader of a text relocates: compound tags, alone or with the text behind them, property
lists and their entries, numbers, ranges, ids, the values of a selector, and the splitter of ids,
which does not depend on the captures held before either. -/
theorem readers_relocate :
    Relocates (fun k => Option.map (Slice.shift k)) CompoundTag.read ∧
    Relocates (fun _ => id) CompoundTag.readWhole ∧
    (∀ spec : PropertySpec,
      Relocates (fun k => Option.map (PropertyList.shift k)) spec.read ∧
      Relocates (fun k => Option.map (PropertyEntry.shift k)) spec.readEntry) ∧
    (∀ spec : NumberSpec, Relocates (fun _ => id) spec.read) ∧
    (∀ spec : RangeSpec, Relocates (fun _ => id) spec.read) ∧
    (∀ allowTag kind,
      Relocates (fun k => Option.map (ResourceId.shift k)) (Resource.read allowTag kind)) ∧
    (∀ predicate : SelectorPredicate, Relocates (fun _ => id) predicate.read) ∧
    Relocates Leftover.shift (fun s => Resource.splitter s .empty) ∧
    ∀ held s, Resource.splitter s held =
      ⟨(Resource.splitter s .empty).value.over held, (Resource.splitter s .empty).report⟩ :=
  ⟨relocates CompoundTag.read_shifted, relocates CompoundTag.readWhole_shifted,
    fun spec => ⟨relocates (PropertySpec.read_shifted · spec ·),
      relocates (PropertySpec.readEntry_shifted · spec ·)⟩,
    fun spec => relocates (NumberSpec.read_shifted · spec ·),
    fun spec => relocates (RangeSpec.read_shifted · spec ·),
    fun allowTag kind => relocates (Resource.read_shifted · allowTag kind ·),
    fun predicate => relocates (SelectorPredicate.read_shifted · predicate ·),
    relocates fun _ s => Resource.shifted_splitter s .empty, Resource.splitter_over⟩

end CommandScript

import CommandScript.Proofs.Combinator
import CommandScript.Proofs.Resource
import CommandScript.Proofs.Text.Cursor
import CommandScript.Selector.Advancements

/-!
The advancements of a selector report inside their text, from left to right.
-/

namespace CommandScript.Advancements

open Reading

theorem passes_readId : Passes readId := by
  intro c sound
  obtain ⟨silent, suffix⟩ := Resource.splitter_splits c.rest .empty
  unfold readId
  generalize Resource.splitter c.rest .empty = split at silent suffix ⊢
  have within := Combinator.consumed_within c.rest split.value.rest
  have stop := Combinator.consumed_stop suffix
  have id := (Resource.read_laid false .resource
    (Combinator.consumed c.rest split.value.rest)).mono (within.trans sound.within)
      within.start_le (Nat.le_of_eq stop)
  have nothing := Report.laid_empty c.whole (Nat.le_refl split.value.rest.start)
  apply Cursor.Passed.moved suffix
  rw [silent]
  exact id.append nothing

theorem passes_readBoolean : Passes readBoolean := by
  intro c sound
  have suffix := Slice.splitWhile_suffixOf Charset.isUnquoted c.rest
  have within := Slice.splitWhile_fst_within Charset.isUnquoted c.rest
  have meets := Slice.splitWhile_stop Charset.isUnquoted c.rest
  unfold readBoolean
  rw [readUnquoted_bind]
  generalize c.rest.splitWhile Charset.isUnquoted = value at suffix within meets ⊢
  have token := Report.laid_token (sound.covers within) .keyword within.start_le
    (Nat.le_of_eq meets)
  have nothing := Report.laid_empty c.whole (Nat.le_refl value.2.start)
  split
  · exact .moved suffix (token.append nothing)
  · have error := Report.laid_error (sound.covers within) Fault.notBoolean.message
      (Nat.le_refl c.rest.start)
    have silent := Report.laid_empty c.whole (Nat.le_refl c.rest.start)
    exact .moved suffix ((error.append silent).append (token.append nothing))

theorem passes_readCriterion : Passes readCriterion := by
  intro c sound
  have suffix := Slice.splitWhile_suffixOf Charset.isUnquoted c.rest
  unfold readCriterion
  rw [look_bind, readUnquoted_bind]
  split
  · exact sound.passed_error (sound.covers c.currentSlice_within) _
  · exact sound.passed_token () (Slice.splitWhile_fst_within ..) suffix
      (Nat.le_of_eq (Slice.splitWhile_stop ..)) _

theorem passes_readCriteria (fuel : Nat) : (readCriteria fuel).Passes := by
  induction fuel with
  | zero => exact passes_expectedValue
  | succ fuel ih =>
    exact (passes_look _).bind fun _ => passes_ite (passes_pure _) <|
      passes_readCriterion.bind fun _ => passes_skipBlanks.bind fun _ =>
        (passes_expect _ _).bind fun _ => passes_skipBlanks.bind fun _ =>
          passes_readBoolean.bind fun _ => passes_passComma.bind fun _ =>
            passes_ite ih (passes_pure _)

theorem passes_readSetting (fuel : Nat) : (readSetting fuel).Passes :=
  (passes_look _).bind fun _ => passes_ite
    (passes_advance.bind fun _ => passes_skipBlanks.bind fun _ =>
      (passes_readCriteria fuel).bind fun _ => passes_expect _ _)
    passes_readBoolean

theorem passes_readItems (fuel : Nat) : (readItems fuel).Passes := by
  induction fuel with
  | zero => exact passes_expectedValue
  | succ fuel ih =>
    exact (passes_look _).bind fun _ => passes_ite (passes_pure _) <|
      passes_readId.bind fun _ => passes_skipBlanks.bind fun _ =>
        (passes_expect _ _).bind fun _ => passes_skipBlanks.bind fun _ =>
          (passes_readSetting fuel).bind fun _ => passes_passComma.bind fun _ =>
            passes_ite ih (passes_pure _)

theorem passes_readValue (fuel : Nat) : (readValue fuel).Passes := by
  refine (passes_expect _ _).bind fun _ => passes_skipBlanks.bind fun _ =>
    (passes_readItems fuel).bind fun _ => (passes_expect _ _).bind fun _ => fun c sound => ?_
  rw [look_bind]
  have trailing := Reported.laid_errorIf (!c.rest.isEmpty) (sound.covers (.refl c.rest))
    Fault.trailing.message (Nat.le_refl c.rest.start)
  exact .moved (.refl c.rest)
    (trailing.append (Report.laid_empty c.whole (Nat.le_refl c.rest.start)))

theorem read_fits (s : Slice) : (read s).report.Fits s := by
  have passed := passes_readValue (2 * s.text.length + 1) (.ofSlice s) (Cursor.sound_ofSlice s)
  unfold read
  generalize readValue (2 * s.text.length + 1) (.ofSlice s) = outcome at passed ⊢
  have nothing := Report.fits_empty s
  cases passed with
  | stopped laid => exact laid.fits.append_remarks nothing rfl
  | moved _ laid => exact laid.fits.append_remarks nothing rfl

end CommandScript.Advancements

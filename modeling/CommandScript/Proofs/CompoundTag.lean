import CommandScript.CompoundTag
import CommandScript.Proofs.Text.Cursor

/-!
A compound tag reports inside its text, from left to right.

Every step of the reader passes what it reports, for any number of steps left
(`passesAt`); hence what follows a tag begins behind all that was said of it.
-/

namespace CommandScript.CompoundTag

open Reading

/-- Whatever is there instead of a key, it is an error about the text. -/
theorem passes_readKey : Passes readKey := by
  refine (passes_look _).bind fun _ => passes_ite (passes_readQuoted_token _) ?_
  apply passes_readUnquoted_token
  intro c sound
  rw [look_bind]
  split
  · exact sound.passed_error (Slice.covers_self _) _
  · exact sound.passed_error (sound.covers (Cursor.currentSlice_within _)) _

theorem passes_readScalar : Passes readScalar :=
  (passes_look _).bind fun _ => passes_ite (passes_readQuoted_token _) <|
    passes_readUnquoted_token _ passes_expectedValue

theorem passes_readArray : Passes readArray :=
  (passes_expect '[' none).bind fun _ => (passes_advanceOver _).bind fun _ =>
    passes_advance.bind fun _ => (passes_readWhile _).bind fun _ => passes_expect ']' none

theorem passes_passComma : Passes passComma :=
  Reading.passes_passComma.bind fun _ =>
    passes_ite ((passes_look _).bind fun _ => passes_ite passes_expectedValue (passes_pure _))
      (passes_pure _)

/-- With that many steps left, every part of a tag passes what it reports. -/
structure PassesAt (fuel : Nat) : Prop where
  tag : (readTag fuel).Passes
  entries : (readEntries fuel).Passes
  value : (readValue fuel).Passes
  list : (readList fuel).Passes
  elements : (readElements fuel).Passes

theorem passesAt (fuel : Nat) : PassesAt fuel := by
  induction fuel with
  | zero =>
    constructor <;> exact passes_expectedValue
  | succ fuel ih =>
    have tag : (readTag (fuel + 1)).Passes :=
      (passes_expect _ _).bind fun _ => passes_skipBlanks.bind fun _ =>
        ih.entries.bind fun _ => passes_expect _ _
    have entries : (readEntries (fuel + 1)).Passes :=
      (passes_look _).bind fun _ => passes_ite (passes_pure _) <|
        passes_readKey.bind fun _ => passes_skipBlanks.bind fun _ =>
          (passes_expect _ _).bind fun _ => ih.value.bind fun _ =>
            passes_passComma.bind fun _ => passes_ite ih.entries (passes_pure _)
    have value : (readValue (fuel + 1)).Passes := by
      refine passes_skipBlanks.bind fun _ => (passes_look _).bind fun current => ?_
      split
      · exact ih.tag
      · exact ih.list
      · exact passes_readScalar
    have list : (readList (fuel + 1)).Passes :=
      (passes_look _).bind fun _ => passes_ite passes_readArray <|
        (passes_expect _ _).bind fun _ => passes_skipBlanks.bind fun _ =>
          (passes_look _).bind fun _ => passes_ite passes_expectedValue <|
            ih.elements.bind fun _ => passes_expect _ _
    have elements : (readElements (fuel + 1)).Passes :=
      (passes_look _).bind fun _ => passes_ite (passes_pure _) <|
        ih.value.bind fun _ => passes_passComma.bind fun _ =>
          passes_ite ih.elements (passes_pure _)
    exact ⟨tag, entries, value, list, elements⟩

/-- A tag that makes up all of a slice reports inside it, from left to right. -/
theorem readWhole_laid (s : Slice) : (readWhole s).report.Laid s s.start s.stop := by
  have passed := (passesAt (fuelFor s.text.length)).tag (.ofSlice s) (Cursor.sound_ofSlice s)
  unfold readWhole read
  generalize readTag (fuelFor s.text.length) (.ofSlice s) = outcome at passed ⊢
  cases passed with
  | stopped laid =>
    have nothing := Report.laid_empty s (Nat.le_refl s.stop)
    exact (laid.append nothing).append nothing
  | @moved a rest report suffix laid =>
    have nothing := Report.laid_empty s (Nat.le_refl rest.start)
    have trailing := Reported.laid_errorIf (!rest.isEmpty) suffix.within.covers
      Fault.trailing.message (Slice.SuffixOf.start_le_stop suffix)
    exact (laid.append nothing).append trailing

theorem readWhole_fits (s : Slice) : (readWhole s).report.Fits s :=
  (readWhole_laid s).fits

end CommandScript.CompoundTag

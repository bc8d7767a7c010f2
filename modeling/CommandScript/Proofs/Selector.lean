import CommandScript.Proofs.Advancements
import CommandScript.Proofs.CompoundTag
import CommandScript.Proofs.Number
import CommandScript.Proofs.PropertyList
import CommandScript.Selector.Table

/-!
The values of a selector report inside their text.

A value is highlighted by its check or as a whole, but not by both: no row of the
table asks for that (`SelectorEntry.highlightsOnce`), so what a predicate reports
fits its value (`SelectorPredicate.read_fits`).
-/

namespace CommandScript

/-! ## Checks -/

namespace ValueCheck

/-- The check highlights nothing by itself. -/
def isSilent : ValueCheck → Bool
  | resource _ | compoundTag => false
  | _ => true

theorem run_tokens {check : ValueCheck} (silent : check.isSilent = true) (value : Slice) :
    (check.run value).report.tokens = [] := by
  cases check with
  | anything => rfl
  | unquoted message => exact Reported.errorIf_tokens ..
  | oneOf words message => exact Reported.errorIf_tokens ..
  | resource allowTag => cases silent
  | compoundTag => cases silent

theorem run_fits (check : ValueCheck) (value : Slice) : (check.run value).report.Fits value := by
  cases check with
  | anything => exact Report.fits_empty value
  | unquoted message => exact Reported.fits_errorIf _ (Slice.covers_self value) _
  | oneOf words message => exact Reported.fits_errorIf _ (Slice.covers_self value) _
  | resource allowTag =>
    exact (Resource.read_fits ..).append_remarks (Report.fits_empty value) rfl
  | compoundTag => exact CompoundTag.readWhole_fits value

end ValueCheck

/-! ## Predicates -/

namespace SelectorPredicate

/-- A value is not highlighted both as a whole and by its check. -/
def highlightsOnce : SelectorPredicate → Bool
  | negatable _ check kind => check.isSilent || kind.isNone
  | word check _ => check.isSilent
  | _ => true

theorem readRange_fits (form : NumberForm) (allowNegative : Bool) (value : Slice) :
    (readRange form allowNegative value).report.Fits value :=
  (RangeSpec.read_fits ..).append_remarks (Report.fits_empty value) rfl

theorem readScores_fits (value : Slice) : (readScores value).report.Fits value := by
  unfold readScores
  split
  · exact Report.fits_error (Slice.covers_self value) _
  · split
    · exact Report.fits_error (Slice.covers_self value) _
    · have list := PropertySpec.read_reads scoresSpec rfl value
      generalize scoresSpec.read value = outcome at list ⊢
      cases list with
      | refused fits silent => exact fits.append_remarks (Report.fits_empty value) rfl
      | @accepted list report stop suffix before between =>
        have trailing := Reported.fits_errorIf (!list.rest.isEmpty) suffix.within.covers
          Fault.scoresTrailing.message
        apply between.fits_trailing trailing (Reported.errorIf_tokens ..)
        · intro e mem
          exact (readRange_fits .integer true e.value).mono (between.values e mem)
        · intro e _
          exact (readRange_fits .integer true e.value).tokens

theorem readChecked_fits {check : ValueCheck} {kind : Option Highlight}
    (once : (check.isSilent || kind.isNone) = true) (allowEmpty : Bool) (value : Slice) :
    (readChecked allowEmpty check kind value).report.Fits value := by
  have self := Slice.covers_self value
  unfold readChecked
  split
  · exact Reported.fits_errorIf _ self _
  · cases kind with
    | none => exact (check.run_fits value).append_remarks (Report.fits_empty value) rfl
    | some kind =>
      have silent : check.isSilent = true := by simpa using once
      exact (check.run_fits value).remarks_append (Report.fits_token self kind)
        (ValueCheck.run_tokens silent value)

theorem readNegatable_fits {check : ValueCheck} {kind : Option Highlight}
    (once : (check.isSilent || kind.isNone) = true) (allowEmpty : Bool) (value : Slice) :
    (readNegatable allowEmpty check kind value).report.Fits value := by
  unfold readNegatable
  split
  · have mark := Report.fits_token (Slice.covers_self (value.take 1)) .operator
    have checked := readChecked_fits once allowEmpty (value.drop 1).trimStart
    have behind := (Slice.trimStart_suffixOf (value.drop 1)).within
    exact mark.append_behind checked (Slice.take_within 1 value)
      (behind.trans (Slice.drop_within 1 value)) behind.start_le
  · exact readChecked_fits once allowEmpty value

/-- A predicate that highlights once reports inside the value it reads. -/
theorem read_fits {predicate : SelectorPredicate} (once : predicate.highlightsOnce = true)
    (value : Slice) : (predicate.read value).report.Fits value := by
  have nothing := Report.fits_empty value
  cases predicate with
  | float => exact (NumberSpec.read_fits ..).append_remarks nothing rfl
  | nonNegativeInteger => exact (NumberSpec.read_fits ..).append_remarks nothing rfl
  | range form allowNegative => exact readRange_fits form allowNegative value
  | scores => exact readScores_fits value
  | advancements => exact Advancements.read_fits value
  | negatable allowEmpty check kind => exact readNegatable_fits once allowEmpty value
  | word check kind =>
    exact (check.run_fits value).remarks_append
      (Report.fits_token (Slice.covers_self value) kind) (ValueCheck.run_tokens once value)

end SelectorPredicate

namespace SelectorEntry

theorem highlightsOnce : ∀ row ∈ table, row.predicate.highlightsOnce = true := by
  decide

theorem find?_read_fits {key : String} {row : SelectorEntry} (found : find? key = some row)
    (value : Slice) : (row.predicate.read value).report.Fits value :=
  SelectorPredicate.read_fits (highlightsOnce row (List.mem_of_find?_eq_some found)) value

end SelectorEntry

end CommandScript

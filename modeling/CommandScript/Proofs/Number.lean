import CommandScript.Number.Range
import CommandScript.Proofs.Report
import CommandScript.Proofs.Text.Split

/-!
Numbers and ranges report inside their text.

A number is highlighted as a whole, and its errors are about all of it. A range is
read from left to right up to the order of its tokens: the dots are highlighted
before the end in front of them.
-/

namespace CommandScript

namespace NumberSpec

theorem checkBounds_tokens (spec : NumberSpec) (s : Slice) (value : Binary64) :
    (spec.checkBounds s value).report.tokens = [] := by
  unfold checkBounds
  cases spec.min with
  | none =>
    cases spec.max with
    | none => rfl
    | some max => exact Reported.errorIf_tokens ..
  | some min =>
    cases spec.max with
    | none => exact congrArg (· ++ []) (Reported.errorIf_tokens ..)
    | some max => simp [Reported.errorIf_tokens]

theorem checkBounds_fits (spec : NumberSpec) (s : Slice) (value : Binary64) :
    (spec.checkBounds s value).report.Fits s := by
  have bound : ∀ (condition : Bool) (message : String),
      (Reported.errorIf condition s.span message).report.Fits s := fun condition message =>
    Reported.fits_errorIf condition (Slice.covers_self s) message
  unfold checkBounds
  cases spec.min with
  | none =>
    cases spec.max with
    | none => exact Report.fits_empty s
    | some max => exact bound ..
  | some min =>
    cases spec.max with
    | none => exact (bound ..).append_remarks (Report.fits_empty s) rfl
    | some max => exact (bound ..).append_remarks (bound ..) (Reported.errorIf_tokens ..)

/-- A number reports inside the text in which it is written. -/
theorem read_fits (spec : NumberSpec) (s : Slice) : (spec.read s).report.Fits s := by
  unfold read
  split
  · exact Report.fits_error (Slice.covers_self s) _
  · rename_i value _
    have bounds := spec.checkBounds_fits s value
    simp only [Reported.report_bind, Reported.report_pure, Report.append_empty]
    exact (Report.fits_token (Slice.covers_self s) _).append_remarks bounds
      (spec.checkBounds_tokens s value)

/-- A number is highlighted as a whole. -/
theorem span_of_mem_read {spec : NumberSpec} {s : Slice} {t : SemanticToken}
    (mem : t ∈ (spec.read s).report.tokens) : t.span = s.span := by
  unfold read at mem
  split at mem
  · cases mem
  · simp only [Reported.report_bind, Reported.report_pure, Report.append_empty,
      Report.append_tokens, checkBounds_tokens, List.append_nil] at mem
    obtain rfl := List.mem_singleton.1 mem
    rfl

end NumberSpec

namespace RangeSpec

theorem readBound_fits (spec : RangeSpec) (openEnd : Binary64) (s : Slice) :
    (spec.readBound openEnd s).report.Fits s := by
  unfold readBound
  split
  · exact Report.fits_empty s
  · exact NumberSpec.read_fits ..

/-- An end of a range is highlighted only if something is written there. -/
theorem nonempty_of_mem_readBound {spec : RangeSpec} {openEnd : Binary64} {s : Slice}
    {t : SemanticToken} (mem : t ∈ (spec.readBound openEnd s).report.tokens) :
    t.span = s.span ∧ s.start < s.stop := by
  unfold readBound at mem
  split at mem
  · cases mem
  · rename_i nonempty
    have written : s.isEmpty = false := by simpa using nonempty
    exact ⟨NumberSpec.span_of_mem_read mem, Slice.start_lt_stop_of_isEmpty written⟩

/-- The dots between the two ends of a range. -/
theorem dots_between {s low high : Slice} (ends : s.splitOn ['.', '.'] = [low, high]) :
    let dots := (s.drop low.text.length).take 2
    dots.Within s ∧ dots.start = low.stop ∧ dots.stop = high.start := by
  obtain ⟨text, lowStart, highStart⟩ := Slice.splitOn_pair ends
  refine ⟨(Slice.take_within ..).trans (Slice.drop_within ..), ?_, ?_⟩
  · simp only [Slice.take, Slice.drop, Slice.stop_eq, text, List.take_left', lowStart]
  · rw [highStart]
    simp [Slice.stop_eq, Slice.take, Slice.drop, text, lowStart, Nat.add_assoc]

/-- A range reports inside the text in which it is written. -/
theorem read_fits (spec : RangeSpec) (s : Slice) : (spec.read s).report.Fits s := by
  unfold read
  split
  · rename_i single parts
    have within : single.Within s := Slice.mem_splitOn_within (parts ▸ List.mem_singleton_self _)
    rw [Reported.report_bind, Reported.report_pure, Report.append_empty]
    exact (NumberSpec.read_fits ..).mono within
  · rename_i low high ends
    have lowWithin : low.Within s := Slice.mem_splitOn_within (ends ▸ List.mem_cons_self ..)
    have highWithin : high.Within s :=
      Slice.mem_splitOn_within (ends ▸ List.mem_cons_of_mem _ (List.mem_singleton_self _))
    obtain ⟨dotsWithin, dotsStart, dotsStop⟩ := dots_between ends
    have dots := Report.fits_token dotsWithin.covers .operator
    rw [Reported.report_bind]
    split
    · exact dots.append_remarks (Report.fits_error (Slice.covers_self s) _) rfl
    · rw [Reported.report_bind, Reported.report_bind, Reported.report_pure, Report.append_empty]
      have lowFits := spec.readBound_fits (.infinity true) low
      have highFits := spec.readBound_fits (.infinity false) high
      have order : low.stop ≤ high.start := by
        have := ((s.drop low.text.length).take 2).start_le_stop
        omega
      apply dots.append (lowFits.append_behind highFits lowWithin highWithin order)
      intro t mem u memEnd
      obtain rfl := List.mem_singleton.1 mem
      rcases List.mem_append.1 memEnd with memLow | memHigh
      · -- The lower end is found after the dots but stands in front of them.
        obtain ⟨span, nonempty⟩ := nonempty_of_mem_readBound memLow
        refine Or.inr ⟨?_, ?_⟩
        · show u.span.stop ≤ ((s.drop low.text.length).take 2).start
          rw [span, dotsStart]
          exact Nat.le_refl _
        · show u.span.start < ((s.drop low.text.length).take 2).start
          rw [span, dotsStart]
          exact nonempty
      · have bounds := (highFits.tokens u memHigh).bounds
        apply Or.inl
        show ((s.drop low.text.length).take 2).stop ≤ u.span.start
        omega
  · exact Report.fits_error (Slice.covers_self s) _

end RangeSpec

end CommandScript

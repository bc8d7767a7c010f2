import CommandScript.Proofs.Report
import CommandScript.Resource.Splitter

/-!
What combinators leave.

The combinators that split an id off a text say nothing, and what they leave is an
end of the text (`Combinator.Splits`), so that the id stands in front of it.
-/

namespace CommandScript

namespace Combinator

/-- Nothing is reported, and what is left is an end of the input. -/
def Splits (p : Combinator) : Prop :=
  ∀ input captures, (p input captures).report = ∅ ∧ (p input captures).value.rest.SuffixOf input

variable {p : Combinator}

theorem splits_takeWhile (q : Char → Bool) : Splits (takeWhile q) :=
  fun input _ => ⟨rfl, Slice.splitWhile_suffixOf q input⟩

theorem Splits.stored (splits : p.Splits) (onStop : Bool) (name : String) :
    Splits (stored onStop name p) := by
  intro input captures
  obtain ⟨silent, suffix⟩ := splits input captures
  unfold Combinator.stored observing
  rw [Reported.report_bind, Reported.value_bind, silent, Report.empty_append]
  split
  · exact ⟨rfl, suffix⟩
  · exact ⟨rfl, suffix⟩

theorem Splits.onlyIf (splits : p.Splits) (condition : List Char → Bool) :
    Splits (onlyIf condition p) := by
  intro input captures
  unfold Combinator.onlyIf
  split
  · exact splits input captures
  · exact ⟨rfl, .refl input⟩

theorem Splits.after (splits : p.Splits) (pattern : List Char) : Splits (after pattern p) := by
  intro input captures
  obtain ⟨silent, suffix⟩ := splits ((input.dropPrefix? pattern).getD input) captures
  refine ⟨silent, suffix.trans ?_⟩
  unfold Slice.dropPrefix?
  split
  · exact Slice.drop_suffixOf ..
  · exact .refl input

theorem splits_chain (exitOnEmpty : Bool) {ps : List Combinator} (splits : ∀ p ∈ ps, p.Splits) :
    Splits (chain exitOnEmpty ps) := by
  induction ps with
  | nil => exact fun input _ => ⟨rfl, .refl input⟩
  | cons p ps ih =>
    intro input captures
    obtain ⟨silent, suffix⟩ := splits p (List.mem_cons_self ..) input captures
    have later := ih (fun q mem => splits q (List.mem_cons_of_mem _ mem))
      (p input captures).value.rest (p input captures).value.captures
    rw [chain, Reported.report_bind, Reported.value_bind, silent, Report.empty_append]
    split
    · exact ⟨rfl, suffix⟩
    · split
      · exact ⟨rfl, suffix⟩
      · exact ⟨later.1, later.2.trans suffix⟩

/-- How much of the input was read is told by how much is left. -/
theorem length_in_front {input rest : Slice} {before : List Char}
    (text : input.text = before ++ rest.text) :
    input.length - rest.length = byteLength before := by
  rw [Slice.length, Slice.length, text, byteLength_append, Nat.add_sub_cancel]

theorem isBoundary_consumed {input rest : Slice} (suffix : rest.SuffixOf input) :
    input.isBoundary (input.length - rest.length) = true := by
  rcases suffix with ⟨before, text, -⟩
  exact Slice.isBoundary_iff.2 ⟨before, rest.text, text, length_in_front text⟩

/-- What was read stands in the input. -/
theorem consumed_within (input rest : Slice) : (consumed input rest).Within input :=
  Slice.takeBytes_within ..

/-- What was read ends where the rest begins. -/
theorem consumed_stop {input rest : Slice} (suffix : rest.SuffixOf input) :
    (consumed input rest).stop = rest.start := by
  have stop := suffix.stop_eq
  rw [consumed, Slice.takeBytes_stop (isBoundary_consumed suffix)]
  have shorter := suffix.within.start_le
  simp only [Slice.stop] at stop
  omega

end Combinator

namespace Resource

theorem splitter_splits : splitter.Splits := by
  have path := Combinator.splits_takeWhile Charset.isPath
  have spaceOrPath := path.stored true spaceOrPathKey
  have afterColon := ((path.stored true pathKey).after [':']).onlyIf (·.head? = some ':')
  exact Combinator.splits_chain false
    (List.forall_mem_cons.2 ⟨spaceOrPath, List.forall_mem_singleton.2 afterColon⟩)

end Resource

end CommandScript

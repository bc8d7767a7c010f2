import CommandScript.Kind.Builtin
import CommandScript.Proofs.Argument.Reads

/-!
Arguments are confined to the tokens that they consume.

From a word on an argument consumes at least that word, and whatever it reports stands
between the beginning of the word and the end of the last token that it consumed
(`Argument.Confined`). Off a word it consumes nothing and reports an error
(`Argument.Refuses`), unless it takes the rest of a line, spaces included.
-/

namespace CommandScript

/-- The stretches of text that a report is about. -/
def Report.spans (r : Report) : List Span :=
  r.errors.map Remark.span ++ r.warnings.map Remark.span ++ r.tokens.map SemanticToken.span

/-- A report that fits a slice is about stretches of it. -/
theorem Report.Fits.covers_spans {r : Report} {s : Slice} (fits : r.Fits s) :
    ∀ span ∈ r.spans, s.Covers span := by
  simp only [spans, List.forall_mem_append, List.forall_mem_map]
  exact ⟨⟨fits.errors, fits.warnings⟩, fits.tokens⟩

namespace Argument

variable {r : TokenReader} {outcome : Reported TokenReader}

/-! ## From a word on -/

/-- A reading from a word on consumed that word, and no more tokens than there are. All
that it reports lies between the beginning of the word and the end of the last token that
it consumed. -/
structure Confined (r : TokenReader) (word : Slice) (outcome : Reported TokenReader) : Prop where
  tokens : outcome.value.tokens = r.tokens
  line : outcome.value.line = r.line
  consumes : r.index < outcome.value.index
  bound : outcome.value.index ≤ r.tokens.length
  spans : ∃ last, outcome.value.previous? = some last ∧ ∀ span ∈ outcome.report.spans,
    word.start ≤ span.start ∧ span.start ≤ span.stop ∧ span.stop ≤ last.slice.stop

theorem Reads.confined {word : Slice} (reads : Reads r outcome) (valid : r.Valid)
    (found : r.currentWord? = some word) : Confined r word outcome := by
  have current := TokenReader.currentWord?_eq_some found
  have consumes := reads.advances (TokenReader.atEnd_eq_false current)
  obtain ⟨last, isLast, -, -, stop⟩ := reads.ahead.previous valid consumes
  refine ⟨reads.ahead.tokens, reads.ahead.line, consumes, ?_, last, isLast, fun span mem => ?_⟩
  · rw [← reads.ahead.tokens]
    exact reads.ahead.bound
  · have bounds := (reads.fits.covers_spans span mem).bounds
    rw [TokenReader.textTo_start, reads.ahead.textTo_stop valid, ← stop] at bounds
    rwa [valid.current_start current]

/-! ## Off a word -/

/-- A reading that consumed nothing and found an error. -/
def Refuses (r : TokenReader) (outcome : Reported TokenReader) : Prop :=
  outcome.value = r ∧ outcome.report.errors ≠ []

/-- The arguments that take the rest of a line. -/
def isGreedy : Argument → Bool
  | message | string .greedy => true
  | _ => false

/-- An error where the reader stands. -/
theorem refuses_error (r : TokenReader) (span : Span) (missing : String) :
    Refuses r (do Reported.error span missing; return r) :=
  ⟨rfl, nofun⟩

theorem readWord_refuses {missing : String} {check : Slice → Reported Unit}
    (none : r.currentWord? = none) : Refuses r (readWord missing check r) := by
  rw [readWord, none]
  exact refuses_error ..

theorem readVector_refuses {spec : VectorSpec} (none : r.currentWord? = none) :
    Refuses r (readVector spec r) := by
  rw [readVector, none]
  exact refuses_error ..

theorem readParticle_refuses {registries : Registries} (none : r.currentWord? = none) :
    Refuses r (readParticle registries r) := by
  rw [readParticle, none]
  exact refuses_error ..

/-- The rest of a line is refused if and only if there is none. -/
theorem readRest_refuses_iff {missing : String} :
    Refuses r (readRest missing r) ↔ r.atEnd = true := by
  unfold readRest
  cases ends : r.atEnd with
  | true => exact iff_of_true (refuses_error ..) rfl
  | false => exact iff_of_false (fun refuses => refuses.2 rfl) Bool.false_ne_true

theorem read_refuses {argument : Argument} {registries : Registries}
    (single : argument.isGreedy = false) (none : r.currentWord? = none) :
    Refuses r (argument.read registries r) := by
  cases argument with
  | vector spec => exact readVector_refuses none
  | particle => exact readParticle_refuses none
  | message => cases single
  | string kind =>
    cases kind with
    | greedy => cases single
    | word | phrase => exact readWord_refuses none
  | _ => exact readWord_refuses none

theorem read_refuses_iff {argument : Argument} {registries : Registries}
    (greedy : argument.isGreedy = true) :
    Refuses r (argument.read registries r) ↔ r.atEnd = true := by
  cases argument with
  | message => exact readRest_refuses_iff
  | string kind =>
    cases kind with
    | greedy => exact readRest_refuses_iff
    | word | phrase => cases greedy
  | _ => cases greedy

end Argument

namespace BuiltinKind

open Argument

/-- Whatever its properties are, a kind of the library reads the tokens that it consumes
and reports on no others. Where no word stands it consumes nothing and finds an error; a
kind that takes the rest of a line does so at the end of the line only. -/
theorem read_confined (kind : BuiltinKind) (properties : Properties) (registries : Registries)
    (r : TokenReader) (valid : r.Valid) :
    (∀ word, r.currentWord? = some word →
      Confined r word ((kind.kind.build properties).read registries r)) ∧
    (r.currentWord? = none →
      ((kind.argument properties).isGreedy = false →
        Refuses r ((kind.kind.build properties).read registries r)) ∧
      ((kind.argument properties).isGreedy = true →
        (Refuses r ((kind.kind.build properties).read registries r) ↔ r.atEnd = true))) := by
  refine ⟨fun word found => ?_, fun none => ⟨fun single => ?_, fun greedy => ?_⟩⟩
  · have atWord := TokenReader.atWord_of_current? (TokenReader.currentWord?_eq_some found)
    exact ((kind.argument properties).read_reads registries valid atWord).confined valid found
  · exact read_refuses single none
  · exact read_refuses_iff greedy

/-- Dust that lacks two of its four numbers: all tokens up to the last space are consumed. -/
theorem read_confined_dust :
    let line := "particle dust 1 0 ".toList
    let r : TokenReader := ⟨Token.ofLine line, 2, line⟩
    let outcome := (particle.kind.build []).read .empty r
    r.Valid ∧ r.currentWord? = some ⟨"dust".toList, 9⟩ ∧
      Confined r ⟨"dust".toList, 9⟩ outcome ∧ outcome.value.index = 8 := by
  intro line r outcome
  have valid : r.Valid := ⟨List.suffix_refl _, by decide⟩
  have found : r.currentWord? = some ⟨"dust".toList, 9⟩ := by decide
  exact ⟨valid, found, (particle.read_confined [] .empty r valid).1 _ found, by decide⟩

end BuiltinKind

end CommandScript

import CommandScript.Proofs.Combinator

/-!
Nested combinators read beginnings and report inside them.

Whatever combinators of the library are built of one another (`Combinator.Nested`), what they leave
is an end of their input, so that an observer, which is told only how much was read and how much is
left, is shown exactly what was read. Whatever they report or store stands in their input, as long
as observers and validations keep to the slice they are shown (`Combinator.Confined`). Every
combinator keeps this property of those it is built of, and so does every nesting
(`Combinator.nested_confined`).
-/

namespace CommandScript

/-! ## What is stored -/

/-- Whatever is stored stands in the slice or was stored before. -/
def Captures.AddsFrom (s : Slice) (before after : Captures) : Prop :=
  ∀ entry ∈ after.entries, entry ∈ before.entries ∨ entry.2.Within s

section Captures

variable {d s : Slice} {first second third : Captures}

theorem Captures.addsFrom_self (s : Slice) (captures : Captures) : captures.AddsFrom s captures :=
  fun _ mem => Or.inl mem

theorem Captures.AddsFrom.trans (adds : first.AddsFrom s second)
    (addsMore : second.AddsFrom s third) : first.AddsFrom s third := by
  intro entry mem
  rcases addsMore entry mem with before | within
  · exact adds entry before
  · exact Or.inr within

theorem Captures.AddsFrom.mono (adds : first.AddsFrom d second) (within : d.Within s) :
    first.AddsFrom s second :=
  fun entry mem => (adds entry mem).imp id fun inner => inner.trans within

theorem Captures.addsFrom_insert (name : String) (s : Slice) (captures : Captures) :
    captures.AddsFrom s (captures.insert name s) := by
  intro entry mem
  rcases List.mem_cons.1 mem with rfl | before
  · exact Or.inr (.refl s)
  · exact Or.inl before

end Captures

namespace Combinator

/-! ## Outcomes -/

/-- What a combinator comes to that reads a beginning of its input and keeps inside it. -/
structure Confined (input : Slice) (captures : Captures) (outcome : Reported Leftover) : Prop where
  suffix : outcome.value.rest.SuffixOf input
  stored : captures.AddsFrom input outcome.value.captures
  reported : outcome.report.Inside input

/-- The combinator reads a beginning of every input and keeps inside it. -/
def Confines (p : Combinator) : Prop :=
  ∀ input captures, Confined input captures (p input captures)

/-- The observer reports on the slice it is shown only, and stores parts of it only. -/
def KeepsTo (observe : Slice → Captures → Reported Captures) : Prop :=
  ∀ read captures, (observe read captures).report.Inside read ∧
    captures.AddsFrom read (observe read captures).value

section Outcomes

variable {input rest : Slice} {captures : Captures} {goOn : Bool} {outcome : Reported Leftover}

/-- Without a word an end of the input is left. -/
theorem confined_pure (suffix : rest.SuffixOf input) (goOn : Bool) (captures : Captures) :
    Confined input captures (pure ⟨rest, goOn, captures⟩) :=
  ⟨suffix, Captures.addsFrom_self input captures, Report.inside_empty input⟩

/-- What comes of an end of the input is confined to the input as well. -/
theorem Confined.mono (confined : Confined rest captures outcome) (suffix : rest.SuffixOf input) :
    Confined input captures outcome where
  suffix := confined.suffix.trans suffix
  stored := confined.stored.mono suffix.within
  reported := confined.reported.mono suffix.within

/-- What comes next has to be confined to the input, and may store more than there is by then. -/
theorem Confined.bind {next : Leftover → Reported Leftover}
    (first : Confined input captures outcome)
    (later : Confined input outcome.value.captures (next outcome.value)) :
    Confined input captures (outcome >>= next) :=
  ⟨later.suffix, first.stored.trans later.stored, first.reported.append later.reported⟩

/-- Remarks on the input may stand in front. -/
theorem Confined.remarks_bind {x : Reported Unit} (fits : x.report.Fits input)
    (later : Confined input captures outcome) : Confined input captures (x >>= fun _ => outcome) :=
  ⟨later.suffix, later.stored, fits.inside.append later.reported⟩

end Outcomes

/-! ## Each combinator -/

section Each

variable {p : Combinator}

theorem confines_takeWhile (q : Char → Bool) : Confines (takeWhile q) :=
  fun input captures => confined_pure (Slice.splitWhile_suffixOf q input) true captures

theorem confines_takeWhileValid (q : Char → Bool) {validate : Slice → Reported Bool}
    (keeps : ∀ taken, (validate taken).report.Inside taken) :
    Confines (takeWhileValid q validate) := by
  intro input captures
  have said := (keeps (input.splitWhile q).1).mono (Slice.splitWhile_fst_within q input)
  exact ⟨Slice.splitWhile_suffixOf q input, Captures.addsFrom_self input captures,
    said.append (Report.inside_empty input)⟩

theorem Confines.observing (confines : p.Confines) (onStop : Bool)
    {observe : Slice → Captures → Reported Captures} (keeps : KeepsTo observe) :
    Confines (observing onStop observe p) := by
  intro input captures
  have confined := confines input captures
  refine confined.bind ?_
  split
  · have shown := consumed_within input (p input captures).value.rest
    obtain ⟨said, stored⟩ := keeps (consumed input (p input captures).value.rest)
      (p input captures).value.captures
    exact ⟨confined.suffix, stored.mono shown,
      (said.mono shown).append (Report.inside_empty input)⟩
  · exact confined_pure confined.suffix ..

theorem confines_chain (exitOnEmpty : Bool) {ps : List Combinator}
    (each : ∀ p ∈ ps, p.Confines) : Confines (chain exitOnEmpty ps) := by
  induction ps with
  | nil => exact fun input captures => confined_pure (.refl input) true captures
  | cons p ps ih =>
    obtain ⟨first, others⟩ := List.forall_mem_cons.1 each
    intro input captures
    have confined := first input captures
    refine confined.bind (Confined.mono ?_ confined.suffix)
    split
    · exact confined_pure (.refl _) ..
    · split
      · exact confined_pure (.refl _) ..
      · exact ih others _ _

theorem Confines.recover (confines : p.Confines) {resume : Slice → Slice}
    (suffix : ∀ rest, (resume rest).SuffixOf rest) : Confines (recover resume p) := by
  intro input captures
  have confined := confines input captures
  refine confined.bind (Confined.mono ?_ confined.suffix)
  split
  · exact confined_pure (.refl _) ..
  · exact confined_pure (suffix _) ..

theorem Confines.onlyIf (confines : p.Confines) (condition : List Char → Bool) :
    Confines (onlyIf condition p) := by
  intro input captures
  unfold Combinator.onlyIf
  split
  · exact confines input captures
  · exact confined_pure (.refl input) ..

theorem Confines.optional (confines : p.Confines) : Confines (optional p) := by
  intro input captures
  have confined := confines input captures
  refine confined.bind ?_
  split
  · exact confined_pure confined.suffix ..
  · exact confined_pure (.refl input) ..

theorem Confines.after (confines : p.Confines) (pattern : List Char) :
    Confines (after pattern p) := by
  intro input captures
  refine (confines _ captures).mono ?_
  unfold Slice.dropPrefix?
  split
  · exact Slice.drop_suffixOf ..
  · exact .refl input

theorem Confines.expectingEmpty (confines : p.Confines) (message : String) :
    Confines (expectingEmpty message p) := by
  intro input captures
  have confined := confines input captures
  have left := Slice.covers_self (p input captures).value.rest
  refine confined.bind (Confined.mono ?_ confined.suffix)
  exact (confined_pure (.refl _) ..).remarks_bind (Reported.fits_errorIf _ left message)

theorem Confines.expecting (confines : p.Confines) (pattern : List Char) (message : String) :
    Confines (expecting pattern message p) := by
  intro input captures
  unfold Combinator.expecting Slice.dropPrefix?
  split
  · rename_i rest found
    split at found
    · obtain rfl := Option.some.inj found
      exact (confines _ captures).mono (Slice.drop_suffixOf ..)
    · cases found
  · have front := (Slice.take_within pattern.length input).covers
    exact (confines input captures).remarks_bind (Report.fits_error front message)

end Each

/-! ## Nestings -/

/-- Combinators of the library, built of one another. Observers and validations keep to the slice
they are shown, and a recovery leaves an end of what it is given. -/
inductive Nested : Combinator → Prop where
  | takeWhile (q : Char → Bool) : Nested (takeWhile q)
  | takeWhileValid (q : Char → Bool) {validate : Slice → Reported Bool}
    (keeps : ∀ taken, (validate taken).report.Inside taken) : Nested (takeWhileValid q validate)
  | observing {p : Combinator} (onStop : Bool) {observe : Slice → Captures → Reported Captures}
    (keeps : KeepsTo observe) (inner : Nested p) : Nested (observing onStop observe p)
  | highlighted {p : Combinator} (onStop : Bool) (kind : Highlight) (inner : Nested p) :
    Nested (highlighted onStop kind p)
  | stored {p : Combinator} (onStop : Bool) (name : String) (inner : Nested p) :
    Nested (stored onStop name p)
  | chain {ps : List Combinator} (exitOnEmpty : Bool) (each : ∀ p ∈ ps, Nested p) :
    Nested (chain exitOnEmpty ps)
  | recover {p : Combinator} {resume : Slice → Slice}
    (suffix : ∀ rest, (resume rest).SuffixOf rest) (inner : Nested p) : Nested (recover resume p)
  | recoverTo {p : Combinator} (target : Char → Bool) (inner : Nested p) :
    Nested (recoverTo target p)
  | onlyIf {p : Combinator} (condition : List Char → Bool) (inner : Nested p) :
    Nested (onlyIf condition p)
  | optional {p : Combinator} (inner : Nested p) : Nested (optional p)
  | after {p : Combinator} (pattern : List Char) (inner : Nested p) : Nested (after pattern p)
  | expectingEmpty {p : Combinator} (message : String) (inner : Nested p) :
    Nested (expectingEmpty message p)
  | expecting {p : Combinator} (pattern : List Char) (message : String) (inner : Nested p) :
    Nested (expecting pattern message p)

theorem keepsTo_highlight (kind : Highlight) : KeepsTo fun read captures => do
    Reported.token read.span kind
    return captures :=
  fun read captures => ⟨(Report.fits_token (Slice.covers_self read) kind).inside,
    Captures.addsFrom_self read captures⟩

theorem keepsTo_store (name : String) :
    KeepsTo fun read captures => return captures.insert name read :=
  fun read captures => ⟨Report.inside_empty read, Captures.addsFrom_insert name read captures⟩

theorem Nested.confines {p : Combinator} (nested : Nested p) : p.Confines := by
  induction nested with
  | takeWhile q => exact confines_takeWhile q
  | takeWhileValid q keeps => exact confines_takeWhileValid q keeps
  | observing onStop keeps _ ih => exact ih.observing onStop keeps
  | highlighted onStop kind _ ih => exact ih.observing onStop (keepsTo_highlight kind)
  | stored onStop name _ ih => exact ih.observing onStop (keepsTo_store name)
  | chain exitOnEmpty _ ih => exact confines_chain exitOnEmpty ih
  | recover suffix _ ih => exact ih.recover suffix
  | recoverTo target _ ih => exact ih.recover fun rest => Slice.splitWhile_suffixOf _ rest
  | onlyIf condition _ ih => exact ih.onlyIf condition
  | optional _ ih => exact ih.optional
  | after pattern _ ih => exact ih.after pattern
  | expectingEmpty message _ ih => exact ih.expectingEmpty message
  | expecting pattern message _ ih => exact ih.expecting pattern message

theorem nested_splitter : Nested Resource.splitter := by
  have path : Nested (.takeWhile Charset.isPath) := .takeWhile _
  have spaceOrPath : Nested (.stored true Resource.spaceOrPathKey (.takeWhile Charset.isPath)) :=
    .stored _ _ path
  exact .chain false (List.forall_mem_cons.2 ⟨spaceOrPath,
    List.forall_mem_singleton.2 (.onlyIf _ (.after _ (.stored _ _ path)))⟩)

/-! ## What observers are shown -/

/-- The input is what was read, and behind it what is left. -/
structure Divides (read rest input : Slice) : Prop where
  starts : read.start = input.start
  meets : read.stop = rest.start
  stops : rest.stop = input.stop
  text : read.text ++ rest.text = input.text

theorem consumed_divides {input rest : Slice} (suffix : rest.SuffixOf input) :
    Divides (consumed input rest) rest input := by
  refine ⟨rfl, consumed_stop suffix, suffix.stop_eq, ?_⟩
  obtain ⟨before, text, -⟩ := suffix
  rw [consumed, length_in_front text, Slice.takeBytes, text, takeBytes_byteLength_append]

/-- An observer is shown what was read, and has its say behind the combinator that it observes. -/
theorem observing_eq (onStop : Bool) (observe : Slice → Captures → Reported Captures)
    (p : Combinator) (input : Slice) (captures : Captures) :
    let left := (p input captures).value
    let seen := observe (consumed input left.rest) left.captures
    observing onStop observe p input captures =
      if onStop || left.goOn then
        ⟨{ left with captures := seen.value }, (p input captures).report ++ seen.report⟩
      else p input captures := by
  intro left seen
  have report : (p input captures).report ++ (seen.report ++ ∅) =
      (p input captures).report ++ seen.report := congrArg _ (Report.append_empty _)
  show Reported.mk (Reported.value (ite _ _ _)) (_ ++ Reported.report (ite _ _ _)) = _
  split
  · exact congrArg (Reported.mk _) report
  · exact congrArg (Reported.mk _) (Report.append_empty _)

/-- Combinators of the library, nested in any way, read a beginning of their input and keep inside
it: what they leave is an end of the input, and whatever they store, highlight or remark on stands
in it. So the cut that tells what was read falls between two characters, and an observer of any of
them is shown what stands in front of the end that is left. The splitter of ids is one of them. -/
theorem nested_confined :
    Nested Resource.splitter ∧
    ∀ p : Combinator, Nested p → ∀ (input : Slice) (captures : Captures),
      let left := (p input captures).value
      let read := consumed input left.rest
      Confined input captures (p input captures) ∧
      input.isBoundary (input.length - left.rest.length) = true ∧ Divides read left.rest input ∧
      ∀ (onStop : Bool) (observe : Slice → Captures → Reported Captures),
        observing onStop observe p input captures =
          if onStop || left.goOn then
            ⟨{ left with captures := (observe read left.captures).value },
              (p input captures).report ++ (observe read left.captures).report⟩
          else p input captures := by
  refine ⟨nested_splitter, fun p nested input captures => ?_⟩
  have confined := nested.confines input captures
  exact ⟨confined, isBoundary_consumed confined.suffix, consumed_divides confined.suffix,
    fun onStop observe => observing_eq onStop observe p input captures⟩

/-- A number in front of a letter of two bytes is highlighted and stored, and the letter is an
error. -/
theorem nested_confined_number :
    let digits : Combinator := stored true "digits" (highlighted true .number
      (takeWhile Charset.isDigit))
    let input : Slice := ⟨['4', '2', 'é'], 5⟩
    let outcome := expectingEmpty "trailing" digits input .empty
    Nested (expectingEmpty "trailing" digits) ∧
      outcome = ⟨⟨⟨['é'], 7⟩, true, ⟨[("digits", ⟨['4', '2'], 5⟩)]⟩⟩,
        ⟨[⟨⟨7, 9⟩, "trailing"⟩], [], [⟨⟨5, 7⟩, .number⟩]⟩⟩ ∧
      Confined input .empty outcome := by
  intro digits input outcome
  have nested : Nested (expectingEmpty "trailing" digits) :=
    .expectingEmpty _ (.stored _ _ (.highlighted _ _ (.takeWhile _)))
  exact ⟨nested, rfl, (nested_confined.2 _ nested input .empty).1⟩

end Combinator

end CommandScript

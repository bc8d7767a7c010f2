import CommandScript.Proofs.Text.Cursor

/-!
What a reading accepts.

A step that recognizes texts either passes one of them without an error, or stops
after exactly one error (`Reading.Recognizes`); it takes a text if it passes it whenever
that text, and a given one behind it, is in front of the cursor (`Reading.Takes`). Both
compose, the former into the soundness of a recursive reader and the latter into its
completeness. Where the first of two steps recognizes something, the next ones have to
agree on what follows it only (`Reading.bind_congr`).
-/

namespace CommandScript

namespace Cursor

/-- The cursor past a text. -/
def past (text after : List Char) (c : Cursor) : Cursor :=
  c.seek ⟨after, c.rest.start + byteLength text⟩

/-- Without an error a text is passed that has the property; after a single error the step
stops. -/
inductive Recognized {α : Type} (P : α → List Char → Prop) (c : Cursor) :
    Reported (Option (α × Cursor)) → Prop where
  | stopped {report : Report} (one : report.errors.length = 1) : Recognized P c ⟨none, report⟩
  | passed {a : α} {text after : List Char} {report : Report} (holds : P a text)
    (front : c.rest.text = text ++ after) (silent : report.errors = []) :
    Recognized P c ⟨some (a, c.past text after), report⟩

/-- A step that stays where it is recognizes the empty text. -/
theorem recognized_still {α : Type} {P : α → List Char → Prop} {c : Cursor} {a : α}
    {report : Report} (holds : P a []) (silent : report.errors = []) :
    c.Recognized P ⟨some (a, c), report⟩ := by
  have passed : c.Recognized P ⟨some (a, c.past [] c.rest.text), report⟩ :=
    .passed holds rfl silent
  exact passed

/-- What is recognized is known to be in front of the cursor. -/
theorem Recognized.mono {α : Type} {P Q : α → List Char → Prop} {c : Cursor}
    {outcome : Reported (Option (α × Cursor))} (recognized : c.Recognized P outcome)
    (weaker : ∀ a text after, c.rest.text = text ++ after → P a text → Q a text) :
    c.Recognized Q outcome := by
  cases recognized with
  | stopped one => exact .stopped one
  | passed holds front silent => exact .passed (weaker _ _ _ front holds) front silent

section Past

variable {c : Cursor} {text after : List Char}

theorem past_past (c : Cursor) (text more between after : List Char) :
    (c.past text between).past more after = c.past (text ++ more) after := by
  simp [past, seek, Nat.add_assoc]

theorem past_length (front : c.rest.text = text ++ after) :
    (c.past text after).rest.text.length + text.length = c.rest.text.length := by
  rw [front, List.length_append, Nat.add_comm]
  rfl

/-- A character in front of the cursor is passed by a single move. -/
theorem advance_eq_past {ch : Char} (front : c.rest.text = ch :: after) :
    c.advance = c.past [ch] after := by
  simp [advance, past, seek, Slice.drop, front]

end Past

end Cursor

namespace Reading

open Cursor

variable {α β : Type} {x : Reading α} {f : α → Reading β} {P : α → List Char → Prop}
  {Q : β → List Char → Prop} {c : Cursor}

/-! ## Recognition -/

/-- From every cursor the step recognizes texts with the property. -/
def Recognizes (x : Reading α) (P : α → List Char → Prop) : Prop :=
  ∀ c : Cursor, c.Recognized P (x c)

theorem recognized_bind (first : c.Recognized P (x c))
    (next : ∀ a text after, P a text → c.rest.text = text ++ after →
      (c.past text after).Recognized (fun b more => Q b (text ++ more)) (f a (c.past text after))) :
    c.Recognized Q ((x >>= f) c) := by
  rw [run_bind]
  generalize x c = outcome at first ⊢
  cases first with
  | stopped one => exact .stopped (by simpa using one)
  | @passed a text after report holds front silent =>
    have later := next a text after holds front
    show c.Recognized Q ⟨(f a (c.past text after)).value,
      report ++ (f a (c.past text after)).report⟩
    generalize f a (c.past text after) = outcome at later ⊢
    cases later with
    | stopped one => exact .stopped (by rw [Report.append_errors, silent]; exact one)
    | @passed b more rest reportToo holdsToo frontToo silentToo =>
      have whole : c.rest.text = text ++ more ++ rest := by
        rw [front, List.append_assoc]
        exact congrArg _ frontToo
      rw [past_past]
      exact .passed holdsToo whole (by simp [silent, silentToo])

/-- Two steps may be replaced by others that agree with them, the second one behind what
the first recognizes. -/
theorem bind_congr {y : Reading α} {g : α → Reading β} (first : c.Recognized P (x c))
    (same : y c = x c) (next : ∀ a text after, P a text → c.rest.text = text ++ after →
      g a (c.past text after) = f a (c.past text after)) :
    (y >>= g) c = (x >>= f) c := by
  rw [run_bind, run_bind, same]
  generalize x c = outcome at first ⊢
  cases first with
  | stopped => rfl
  | @passed a text after report holds front silent =>
    exact congrArg (fun later => (⟨later.value, report ++ later.report⟩ : Reported _))
      (next a text after holds front)

/-- One step after the other recognizes one text behind the other. -/
theorem Recognizes.bind (first : x.Recognizes P)
    (next : ∀ a text, P a text → (f a).Recognizes fun b more => Q b (text ++ more)) :
    (x >>= f).Recognizes Q :=
  fun c => recognized_bind (first c) fun a text _ holds _ => next a text holds _

theorem Recognizes.mono {R : α → List Char → Prop} (recognizes : x.Recognizes P)
    (weaker : ∀ a text, P a text → R a text) : x.Recognizes R :=
  fun c => (recognizes c).mono fun a text _ _ => weaker a text

theorem recognizes_pure {a : α} (holds : P a []) : (Pure.pure a : Reading α).Recognizes P :=
  fun _ => recognized_still holds rfl

theorem recognizes_look (g : Cursor → α) : (look g).Recognizes fun _ text => text = [] :=
  fun _ => recognized_still rfl rfl

theorem recognizes_ite {p : Prop} [Decidable p] {y : Reading α} (yes : p → x.Recognizes P)
    (no : ¬p → y.Recognizes P) : (if p then x else y).Recognizes P := by
  split
  · exact yes ‹_›
  · exact no ‹_›

/-- What is seen of the cursor, whatever it is, takes no text. -/
theorem Recognizes.after_look {g : Cursor → α} (next : ∀ a, (f a).Recognizes Q) :
    (look g >>= f).Recognizes Q :=
  (recognizes_look g).bind fun a text nothing => by
    subst nothing
    exact next a

theorem recognizes_expectedValue : (expectedValue : Reading α).Recognizes P :=
  fun _ => .stopped rfl

theorem recognizes_fail (span : Span) (message : String) :
    (fail span message : Reading α).Recognizes P :=
  fun _ => .stopped rfl

theorem recognizes_token (span : Span) (kind : Highlight) :
    (token span kind).Recognizes fun _ text => text = [] :=
  fun _ => recognized_still rfl rfl

theorem recognizes_readWhile (p : Char → Bool) :
    (readWhile p).Recognizes fun taken text =>
      taken.text = text ∧ ∀ ch ∈ text, p ch = true := by
  intro c
  refine .passed ⟨rfl, fun ch mem => ?_⟩ List.takeWhile_append_dropWhile.symm rfl
  exact List.all_eq_true.1 List.all_takeWhile ch mem

theorem recognizes_skipBlanks :
    skipBlanks.Recognizes fun _ text => ∀ ch ∈ text, Charset.isBlank ch = true := by
  intro c
  refine .passed (fun ch mem => ?_) List.takeWhile_append_dropWhile.symm rfl
  exact List.all_eq_true.1 List.all_takeWhile ch mem

theorem recognizes_expect (ch : Char) (kind : Option Highlight) :
    (expect ch kind).Recognizes fun _ text => text = [ch] := by
  intro c
  unfold expect Cursor.expect
  split
  · rename_i found
    obtain ⟨after, front⟩ := List.head?_eq_some_iff.1 found
    rw [advance_eq_past front]
    cases kind <;> exact .passed rfl front rfl
  · split <;> exact .stopped rfl

theorem recognized_advance {ch : Char} {after : List Char} (front : c.rest.text = ch :: after) :
    c.Recognized (fun _ text => text = [ch]) (advance c) := by
  rw [advance, move, advance_eq_past front]
  exact .passed rfl front rfl

theorem recognized_advanceOver {ch : Char} {after : List Char} (kind : Highlight)
    (front : c.rest.text = ch :: after) :
    c.Recognized (fun _ text => text = [ch]) (advanceOver kind c) := by
  rw [advanceOver, advance_eq_past front]
  exact .passed rfl front rfl

theorem recognizes_passComma : passComma.Recognizes fun found text =>
    ∃ before after, (∀ ch ∈ before, Charset.isBlank ch = true) ∧
      (∀ ch ∈ after, Charset.isBlank ch = true) ∧
        text = if found then before ++ ',' :: after else before := by
  intro c
  refine recognized_bind (recognizes_skipBlanks c) fun _ before rest blank _ => ?_
  rw [current?, look_bind]
  split
  · rename_i found
    obtain ⟨others, front⟩ := List.head?_eq_some_iff.1 found
    refine recognized_bind (recognized_advance front) fun _ comma _ isComma _ => ?_
    refine recognized_bind (recognizes_skipBlanks _) fun _ after _ blankToo _ => ?_
    refine recognizes_pure ⟨before, after, blank, blankToo, ?_⟩ _
    simp [isComma]
  · exact recognizes_pure ⟨before, [], blank, nofun, by simp⟩ _

/-! ## Completeness -/

/-- In front of a given text the step passes another one. -/
def Takes (x : Reading α) (text after : List Char) (a : α) : Prop :=
  ∀ c : Cursor, c.rest.text = text ++ after → (x c).value = some (a, c.past text after)

section Takes

variable {p : Char → Bool} {text more after : List Char} {a : α} {b : β}

theorem Takes.bind (first : x.Takes text (more ++ after) a) (next : (f a).Takes more after b) :
    (x >>= f).Takes (text ++ more) after b := by
  intro c front
  rw [List.append_assoc] at front
  rw [run_bind, Reported.value_bind, first c front]
  refine (next _ rfl).trans ?_
  rw [past_past]

/-- A single character first. -/
theorem Takes.cons {ch : Char} (first : x.Takes [ch] (more ++ after) a)
    (next : (f a).Takes more after b) : (x >>= f).Takes (ch :: more) after b :=
  Takes.bind first next

/-- Nothing is left for the second step. -/
theorem Takes.still (first : x.Takes text after a) (next : (f a).Takes [] after b) :
    (x >>= f).Takes text after b := by
  have both : (x >>= f).Takes (text ++ []) after b := Takes.bind first next
  rwa [List.append_nil] at both

theorem takes_pure (a : α) (after : List Char) : (Pure.pure a : Reading α).Takes [] after a := by
  intro c front
  obtain rfl : c.rest.text = after := front
  rfl

/-- What is seen in front of the texts decides on the next step. -/
theorem Takes.after_look {g : Cursor → α}
    (seen : ∀ c : Cursor, c.rest.text = text ++ after → g c = a)
    (next : (f a).Takes text after b) : (look g >>= f).Takes text after b := by
  intro c front
  rw [look_bind, seen c front]
  exact next c front

theorem takes_readWhile (all : ∀ ch ∈ text, p ch = true) (stops : Stops p (more ++ after))
    {f : Slice → Reading β}
    (next : ∀ taken : Slice, taken.text = text → (f taken).Takes more after b) :
    (readWhile p >>= f).Takes (text ++ more) after b := by
  intro c front
  rw [List.append_assoc] at front
  have step : (readWhile p c).value =
      some (⟨text, c.rest.start⟩, c.past text (more ++ after)) := by
    rw [readWhile, move, Cursor.readWhile, Slice.splitWhile_eq all stops front]
    rfl
  rw [run_bind, Reported.value_bind, step]
  refine (next ⟨text, c.rest.start⟩ rfl _ rfl).trans ?_
  rw [past_past]

/-- Nothing is left after the characters. -/
theorem takes_readWhile_still (all : ∀ ch ∈ text, p ch = true) (stops : Stops p after)
    {f : Slice → Reading β}
    (next : ∀ taken : Slice, taken.text = text → (f taken).Takes [] after b) :
    (readWhile p >>= f).Takes text after b := by
  have stopsToo : Stops p ([] ++ after) := stops
  have both : (readWhile p >>= f).Takes (text ++ []) after b := takes_readWhile all stopsToo next
  rwa [List.append_nil] at both

theorem takes_skipBlanks (blank : ∀ ch ∈ text, Charset.isBlank ch = true)
    (stops : Stops Charset.isBlank after) : skipBlanks.Takes text after () := by
  intro c front
  rw [skipBlanks, move, Cursor.skipBlanks, Cursor.readWhile, Slice.splitWhile_eq blank stops front]
  rfl

theorem takes_expect (ch : Char) (kind : Option Highlight) (after : List Char) :
    (expect ch kind).Takes [ch] after () := by
  intro c front
  have found : c.current? = some ch := congrArg List.head? front
  unfold expect Cursor.expect
  rw [if_pos found, advance_eq_past front]
  cases kind <;> rfl

theorem takes_advance (ch : Char) (after : List Char) : advance.Takes [ch] after () := by
  intro c front
  rw [advance, move, advance_eq_past front]
  rfl

theorem takes_advanceOver (ch : Char) (kind : Highlight) (after : List Char) :
    (advanceOver kind).Takes [ch] after () := by
  intro c front
  rw [advanceOver, advance_eq_past front]
  rfl

theorem takes_token (span : Span) (kind : Highlight) (after : List Char) :
    (token span kind).Takes [] after () := by
  intro c front
  obtain rfl : c.rest.text = after := front
  rfl

/-- A comma is passed with the blanks around it. -/
theorem takes_passComma (blank : ∀ ch ∈ text, Charset.isBlank ch = true)
    (blankToo : ∀ ch ∈ more, Charset.isBlank ch = true) (stops : Stops Charset.isBlank after) :
    passComma.Takes (text ++ ',' :: more) after true := by
  refine (takes_skipBlanks blank (stops_cons (by decide) _)).bind
    (.after_look (a := some ',') ?_ ?_)
  · intro c front
    exact congrArg List.head? front
  · exact (takes_advance ',' _).cons ((takes_skipBlanks blankToo stops).still (takes_pure true _))

/-- Where no comma follows, only blanks are passed. -/
theorem takes_passComma_none (blank : ∀ ch ∈ text, Charset.isBlank ch = true)
    (stops : Stops Charset.isBlank after) (noComma : after.head? ≠ some ',') :
    passComma.Takes text after false := by
  refine (takes_skipBlanks blank stops).still ?_
  intro c front
  have current : c.current? ≠ some ',' := by
    rw [Cursor.current?, Slice.front?, front]
    exact noComma
  rw [current?, look_bind, if_neg current]
  exact takes_pure false _ c front

end Takes

end Reading

end CommandScript

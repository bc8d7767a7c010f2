import CommandScript.Proofs.Argument.Wording
import CommandScript.Proofs.Text.Recognition

/-!
Readings that go on after an error.

A step that reports an error and goes on is judged by the whole report: without an error it has
passed a text with some property (`Reading.Admits`), and in front of a given text it passes that
text without an error (`Reading.Clears`). Both compose, and every step that recognizes texts or
takes them has them too. Readers are given a number of steps, and say that a value is missing where
none are left; that number does not matter as long as more steps come to the same and this error is
not reported (`Reading.Settled`).
-/

namespace CommandScript.Reading

open Cursor

variable {α β : Type} {x y : Reading α} {f g : α → Reading β} {P R : α → List Char → Prop}
  {Q : β → List Char → Prop} {c c' : Cursor} {a : α}

/-- A reader of slices says beside a cursor what it says without one. -/
theorem report_of_slice (z : Reported α) (c : Cursor) : (report z c).report = z.report := by
  rw [report, Reported.report_bind]
  exact Report.append_empty _

/-! ## Where a step leaves the cursor -/

theorem Recognizes.moved (recognizes : x.Recognizes P) (moved : (x c).value = some (a, c')) :
    ∃ text after, P a text ∧ c.rest.text = text ++ after ∧ c' = c.past text after := by
  have recognized := recognizes c
  generalize x c = outcome at recognized moved
  cases recognized with
  | stopped => cases moved
  | passed holds front =>
    cases moved
    exact ⟨_, _, holds, front, rfl⟩

/-- No step adds to what is left. -/
theorem Passes.moved (passes : x.Passes) (sound : c.Sound) (moved : (x c).value = some (a, c')) :
    c'.Sound ∧ c'.rest.text.length ≤ c.rest.text.length := by
  have passed := passes c sound
  generalize x c = outcome at passed moved
  cases passed with
  | stopped => cases moved
  | moved suffix =>
    cases moved
    refine ⟨sound.seek suffix, ?_⟩
    obtain ⟨before, text, -⟩ := suffix
    rw [text, List.length_append]
    exact Nat.le_add_left ..

theorem past_shorter {text after : List Char} (front : c.rest.text = text ++ after)
    (nonempty : text ≠ []) : (c.past text after).rest.text.length < c.rest.text.length := by
  have positive := List.length_pos_iff.2 nonempty
  have whole := past_length front
  omega

/-- A character that was expected and found is no longer left. -/
theorem expect_moved {ch : Char} {kind : Option Highlight} {u : Unit} (sound : c.Sound)
    (moved : (expect ch kind c).value = some (u, c')) :
    c'.Sound ∧ c'.rest.text.length < c.rest.text.length := by
  refine ⟨((passes_expect ch kind).moved sound moved).1, ?_⟩
  obtain ⟨_, after, rfl, front, rfl⟩ := (recognizes_expect ch kind).moved moved
  exact past_shorter front (List.cons_ne_nil _ _)

/-- A comma that was found is no longer left. -/
theorem passComma_moved (sound : c.Sound) (moved : (passComma c).value = some (true, c')) :
    c'.Sound ∧ c'.rest.text.length < c.rest.text.length := by
  refine ⟨(passes_passComma.moved sound moved).1, ?_⟩
  obtain ⟨_, after, ⟨before, between, -, -, rfl⟩, front, rfl⟩ := recognizes_passComma.moved moved
  exact past_shorter front (List.append_ne_nil_of_right_ne_nil _ (List.cons_ne_nil _ _))

/-! ## Texts that are admitted -/

/-- Without an error, the step has passed a text with the property. -/
def Admits (x : Reading α) (P : α → List Char → Prop) : Prop :=
  ∀ c : Cursor, (x c).report.errors = [] →
    ∃ a text after, P a text ∧ c.rest.text = text ++ after ∧
      (x c).value = some (a, c.past text after)

theorem Recognizes.admits (recognizes : x.Recognizes P) : x.Admits P := by
  intro c silent
  have recognized := recognizes c
  generalize x c = outcome at recognized silent ⊢
  cases recognized with
  | stopped one =>
    rw [silent] at one
    cases one
  | passed holds front => exact ⟨_, _, _, holds, front, rfl⟩

theorem Admits.mono (admits : x.Admits P) (weaker : ∀ a text, P a text → R a text) :
    x.Admits R := by
  intro c silent
  obtain ⟨a, text, after, holds, passed⟩ := admits c silent
  exact ⟨a, text, after, weaker a text holds, passed⟩

/-- One step after the other admits one text behind the other. -/
theorem Admits.bind (first : x.Admits P)
    (next : ∀ a text, P a text → (f a).Admits fun b more => Q b (text ++ more)) :
    (x >>= f).Admits Q := by
  intro c silent
  rw [run_bind] at silent ⊢
  obtain ⟨silentFirst, silentNext⟩ := List.append_eq_nil_iff.1 silent
  obtain ⟨a, text, after, holds, front, value⟩ := first c silentFirst
  rw [value] at silentNext
  obtain ⟨b, more, rest, holdsToo, frontToo, valueToo⟩ := next a text holds _ silentNext
  refine ⟨b, text ++ more, rest, holdsToo, ?_, ?_⟩
  · rw [front, List.append_assoc]
    exact congrArg _ frontToo
  · rw [Reported.value_bind, value]
    exact valueToo.trans (by rw [past_past])

theorem admits_ite {p : Prop} [Decidable p] (yes : p → x.Admits P) (no : ¬p → y.Admits P) :
    (if p then x else y).Admits P := by
  split
  · exact yes ‹_›
  · exact no ‹_›

/-- What is seen of the cursor, whatever it is, takes no text. -/
theorem Admits.after_look {g : Cursor → α} (next : ∀ a, (f a).Admits Q) :
    (look g >>= f).Admits Q :=
  (recognizes_look g).admits.bind fun a text nothing => by
    subst nothing
    exact next a

/-- An error is never silent. -/
theorem admits_error {P : Unit → List Char → Prop} (span : Span) (message : String) :
    (error span message).Admits P :=
  fun _ silent => absurd silent (List.cons_ne_nil _ _)

/-! ## Texts that are cleared -/

/-- In front of a given text the step passes another one without an error, and what it yields has
the property. -/
def Clears (x : Reading α) (text after : List Char) (P : α → Prop := fun _ => True) : Prop :=
  ∀ c : Cursor, c.rest.text = text ++ after →
    ∃ a report, x c = ⟨some (a, c.past text after), report⟩ ∧ P a ∧ report.errors = []

section Clears

variable {p : Char → Bool} {text more after : List Char} {S : α → Prop} {T : β → Prop}

/-- A step that stops after an error takes a text without one. -/
theorem Takes.clears (takes : x.Takes text after a) (recognizes : x.Recognizes P) :
    x.Clears text after (· = a) := by
  intro c front
  have recognized := recognizes c
  have taken := takes c front
  generalize x c = outcome at recognized taken ⊢
  cases recognized with
  | stopped => cases taken
  | passed holds frontToo silent =>
    obtain ⟨rfl, same⟩ := Prod.mk.inj (Option.some.inj taken)
    exact ⟨_, _, by rw [same], rfl, silent⟩

theorem Clears.mono {U : α → Prop} (clears : x.Clears text after S) (weaker : ∀ a, S a → U a) :
    x.Clears text after U := by
  intro c front
  obtain ⟨a, report, eq, holds, silent⟩ := clears c front
  exact ⟨a, report, eq, weaker a holds, silent⟩

theorem Clears.bind (first : x.Clears text (more ++ after) S)
    (next : ∀ a, S a → (f a).Clears more after T) : (x >>= f).Clears (text ++ more) after T := by
  intro c front
  rw [List.append_assoc] at front
  obtain ⟨a, report, eq, holds, silent⟩ := first c front
  obtain ⟨b, later, eqToo, holdsToo, silentToo⟩ := next a holds (c.past text (more ++ after)) rfl
  refine ⟨b, report ++ later, ?_, holdsToo, by rw [Report.append_errors, silent, silentToo]; rfl⟩
  rw [run_bind, eq, Reported.bind_mk]
  dsimp only
  rw [eqToo, past_past]

/-- A single character first. -/
theorem Clears.cons {ch : Char} (first : x.Clears [ch] (more ++ after) S)
    (next : ∀ a, S a → (f a).Clears more after T) : (x >>= f).Clears (ch :: more) after T :=
  Clears.bind first next

/-- Nothing is left for the second step. -/
theorem Clears.still (first : x.Clears text after S) (next : ∀ a, S a → (f a).Clears [] after T) :
    (x >>= f).Clears text after T := by
  have both : (x >>= f).Clears (text ++ []) after T := Clears.bind first next
  rwa [List.append_nil] at both

theorem clears_pure (a : α) (after : List Char) :
    (Pure.pure a : Reading α).Clears [] after (· = a) :=
  (takes_pure a after).clears (P := fun _ _ => True) (recognizes_pure trivial)

/-- What is seen in front of the texts decides on the next step. -/
theorem Clears.after_look {g : Cursor → α}
    (seen : ∀ c : Cursor, c.rest.text = text ++ after → g c = a)
    (next : (f a).Clears text after T) : (look g >>= f).Clears text after T := by
  intro c front
  rw [look_bind, seen c front]
  exact next c front

theorem clears_readWhile (all : ∀ ch ∈ text, p ch = true) (stops : Stops p after) :
    (readWhile p).Clears text after fun taken => taken.text = text := by
  intro c front
  refine ⟨⟨text, c.rest.start⟩, ∅, ?_, rfl, rfl⟩
  rw [readWhile, move, Cursor.readWhile, Slice.splitWhile_eq all stops front]
  rfl

theorem clears_skipBlanks (blank : ∀ ch ∈ text, Charset.isBlank ch = true)
    (stops : Stops Charset.isBlank after) : skipBlanks.Clears text after (· = ()) :=
  (takes_skipBlanks blank stops).clears recognizes_skipBlanks

theorem clears_expect (ch : Char) (kind : Option Highlight) (after : List Char) :
    (expect ch kind).Clears [ch] after (· = ()) :=
  (takes_expect ch kind after).clears (recognizes_expect ch kind)

theorem clears_token (span : Span) (kind : Highlight) (after : List Char) :
    (token span kind).Clears [] after (· = ()) :=
  (takes_token span kind after).clears (recognizes_token span kind)

end Clears

/-! ## Words for errors -/

/-- From every cursor, all errors of the step are worded so. -/
def Worded (x : Reading α) (holds : String → Prop) : Prop :=
  ∀ c : Cursor, (x c).report.Worded holds

section Worded

variable {holds : String → Prop}

theorem Worded.bind (first : x.Worded holds) (next : ∀ a, (f a).Worded holds) :
    (x >>= f).Worded holds :=
  Reports.bind (Report.worded_additive holds) first next

theorem worded_ite {p : Prop} [Decidable p] (yes : x.Worded holds) (no : y.Worded holds) :
    (if p then x else y).Worded holds :=
  reports_ite yes no

theorem worded_pure (a : α) : (Pure.pure a : Reading α).Worded holds :=
  reports_pure (Report.worded_additive holds) a

theorem worded_look (g : Cursor → α) : (look g).Worded holds :=
  reports_look (Report.worded_additive holds) g

theorem worded_move (g : Cursor → α × Cursor) : (move g).Worded holds :=
  reports_move (Report.worded_additive holds) g

theorem worded_report {z : Reported α} (worded : z.report.Worded holds) :
    (report z).Worded holds :=
  reports_report (Report.worded_additive holds) worded

theorem worded_expect {ch : Char} {kind : Option Highlight}
    (missing : holds (Cursor.Fault.expected ch).message)
    (ended : holds (Cursor.Fault.expectedBeforeEnd ch).message) :
    (expect ch kind).Worded holds :=
  reports_expect (Report.worded_additive holds) (fun _ => Report.worded_error.2 missing)
    (fun _ => Report.worded_error.2 ended) fun _ _ _ _ => Report.worded_token

theorem worded_passComma : passComma.Worded holds :=
  reports_passComma (Report.worded_additive holds)

end Worded

/-! ## Enough steps -/

/-- The message of a reader that has no steps left. -/
def outOfSteps : String :=
  Cursor.Fault.expectedValue.message

/-- At the cursor, the step comes to the same as another one, with more steps left, and does not
report that there are none left. -/
structure Settled (x y : Reading α) (c : Cursor) : Prop where
  same : y c = x c
  inTime : (x c).report.Worded (· ≠ outOfSteps)

theorem Worded.settled (worded : x.Worded (· ≠ outOfSteps)) (c : Cursor) : Settled x x c :=
  ⟨rfl, worded c⟩

theorem Settled.bind (first : Settled x y c)
    (next : ∀ a c', (x c).value = some (a, c') → Settled (f a) (g a) c') :
    Settled (x >>= f) (y >>= g) c := by
  obtain ⟨same, inTime⟩ := first
  constructor
  · rw [run_bind, run_bind, same]
    generalize x c = outcome at next ⊢
    rcases outcome with ⟨_ | ⟨a, c'⟩, report⟩
    · rfl
    · exact congrArg (fun later => (⟨later.value, report ++ later.report⟩ : Reported _))
        (next a c' rfl).same
  · rw [run_bind]
    generalize x c = outcome at inTime next ⊢
    rcases outcome with ⟨_ | ⟨a, c'⟩, report⟩
    · exact Report.worded_append.2 ⟨inTime, Report.worded_empty⟩
    · exact Report.worded_append.2 ⟨inTime, (next a c' rfl).inTime⟩

/-- What is seen of the cursor asks for no steps. -/
theorem Settled.after_look {h : Cursor → α} (next : Settled (f (h c)) (g (h c)) c) :
    Settled (look h >>= f) (look h >>= g) c := by
  constructor
  · rw [look_bind, look_bind]
    exact next.same
  · rw [look_bind]
    exact next.inTime

end CommandScript.Reading

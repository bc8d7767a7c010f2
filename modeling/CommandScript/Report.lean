import CommandScript.Report.Highlight
import CommandScript.Text.Slice

/-!
What a reader has to say about the text it read.

A `Report` lists errors, warnings and semantic tokens, each in the order in which
they were found. Reports compose by appending list by list, so a reader built
from smaller ones says what they say, one after the other. `Reported` is the
monad of values that come with a report: a reader returns its findings instead of
writing them somewhere, and its caller may tag or shift them afterwards.
-/

namespace CommandScript

/-! ## Remarks and tokens -/

/-- A message about a stretch of a line. -/
structure Remark where
  span : Span
  message : String
deriving DecidableEq, Repr

/-- How serious a diagnostic is. -/
inductive Severity where
  | error
  | warning
deriving DecidableEq, Repr

namespace Severity

/-- The word for a severity. -/
def name : Severity → String
  | error => "error"
  | warning => "warning"

/-- The number that editors use for a severity. -/
def editorCode : Severity → Nat
  | error => 1
  | warning => 2

end Severity

/-- A remark together with its severity. -/
structure Diagnostic extends Remark where
  severity : Severity
deriving DecidableEq, Repr

namespace Diagnostic

/-- A remark as an error. -/
def ofError (r : Remark) : Diagnostic :=
  ⟨r, .error⟩

/-- A remark as a warning. -/
def ofWarning (r : Remark) : Diagnostic :=
  ⟨r, .warning⟩

/-- Errors break a command, warnings do not. -/
def isError (d : Diagnostic) : Bool :=
  d.severity = .error

/-- The text of a diagnostic, for instance `error at 0..3: expected value`. -/
def toString (d : Diagnostic) : String :=
  s!"{d.severity.name} at {d.span.start}..{d.span.stop}: {d.message}"

instance : ToString Diagnostic := ⟨toString⟩

end Diagnostic

/-- A stretch of a line and what it is. -/
structure SemanticToken where
  span : Span
  kind : Highlight
deriving DecidableEq, Repr

/-- Orders tokens by where they begin. -/
def SemanticToken.startsBefore (a b : SemanticToken) : Bool :=
  a.span.start ≤ b.span.start

/-! ## Reports -/

/-- Errors, warnings and tokens, each in the order in which they were found. -/
structure Report where
  errors : List Remark
  warnings : List Remark
  tokens : List SemanticToken
deriving DecidableEq, Repr

namespace Report

/-- Nothing to say. -/
def empty : Report :=
  ⟨[], [], []⟩

instance : EmptyCollection Report := ⟨empty⟩

instance : Inhabited Report := ⟨empty⟩

/-- A single error. -/
def error (span : Span) (message : String) : Report :=
  ⟨[⟨span, message⟩], [], []⟩

/-- A single warning. -/
def warning (span : Span) (message : String) : Report :=
  ⟨[], [⟨span, message⟩], []⟩

/-- A single token. -/
def token (span : Span) (kind : Highlight) : Report :=
  ⟨[], [], [⟨span, kind⟩]⟩

/-- One report after another, list by list. -/
def append (a b : Report) : Report :=
  ⟨a.errors ++ b.errors, a.warnings ++ b.warnings, a.tokens ++ b.tokens⟩

instance : Append Report := ⟨append⟩

/-- No error was found; warnings do not count. -/
def success (r : Report) : Bool :=
  r.errors.isEmpty

/-- Errors, then warnings. -/
def diagnostics (r : Report) : List Diagnostic :=
  r.errors.map .ofError ++ r.warnings.map .ofWarning

/-- The tokens ordered by where they begin; ties keep the order in which they
were found. -/
def sortedTokens (r : Report) : List SemanticToken :=
  r.tokens.mergeSort SemanticToken.startsBefore

/-- The report with a label in front of every message. -/
def labelled (label : String) (r : Report) : Report :=
  let relabel (m : Remark) : Remark := { m with message := label ++ m.message }
  ⟨r.errors.map relabel, r.warnings.map relabel, r.tokens⟩

/-- The report on the same text in a line that has `k` more bytes in front. -/
def shift (k : Nat) (r : Report) : Report :=
  let move (m : Remark) : Remark := { m with span := m.span.shift k }
  ⟨r.errors.map move, r.warnings.map move, r.tokens.map fun t => { t with span := t.span.shift k }⟩

/-! ### Appending -/

@[simp] theorem append_errors (a b : Report) : (a ++ b).errors = a.errors ++ b.errors := rfl

@[simp] theorem append_warnings (a b : Report) :
    (a ++ b).warnings = a.warnings ++ b.warnings := rfl

@[simp] theorem append_tokens (a b : Report) : (a ++ b).tokens = a.tokens ++ b.tokens := rfl

@[simp] theorem empty_append (r : Report) : (∅ : Report) ++ r = r := rfl

@[simp] theorem append_empty (r : Report) : r ++ (∅ : Report) = r := by
  cases r
  show append _ empty = _
  simp [append, empty]

theorem append_assoc (a b c : Report) : a ++ b ++ c = a ++ (b ++ c) := by
  show append (append a b) c = append a (append b c)
  simp [append, List.append_assoc]

end Report

/-! ## Values with a report -/

/-- A value and what was said while it was read. -/
structure Reported (α : Type) where
  value : α
  report : Report
deriving Repr

namespace Reported

/-- A value without comment. -/
def pure {α : Type} (a : α) : Reported α :=
  ⟨a, ∅⟩

/-- First one reading, then the next, whose report follows. -/
def bind {α β : Type} (x : Reported α) (f : α → Reported β) : Reported β :=
  ⟨(f x.value).value, x.report ++ (f x.value).report⟩

instance : Monad Reported where
  pure := Reported.pure
  bind := Reported.bind

/-- Reports an error. -/
def error (span : Span) (message : String) : Reported Unit :=
  ⟨(), .error span message⟩

/-- Reports a warning. -/
def warning (span : Span) (message : String) : Reported Unit :=
  ⟨(), .warning span message⟩

/-- Reports a token. -/
def token (span : Span) (kind : Highlight) : Reported Unit :=
  ⟨(), .token span kind⟩

/-- Reports an error when a condition holds. -/
def errorIf (condition : Bool) (span : Span) (message : String) : Reported Unit :=
  if condition then error span message else pure ()

/-- The same reading with a label in front of every message. -/
def labelled {α : Type} (label : String) (x : Reported α) : Reported α :=
  ⟨x.value, x.report.labelled label⟩

/-- Readings of the elements of a list, one after the other. -/
def each {α : Type} (f : α → Reported Unit) : List α → Reported Unit
  | [] => pure ()
  | a :: as => bind (f a) fun _ => each f as

@[simp] theorem value_pure {α : Type} (a : α) : (Pure.pure a : Reported α).value = a := rfl

@[simp] theorem report_pure {α : Type} (a : α) : (Pure.pure a : Reported α).report = ∅ := rfl

@[simp] theorem value_bind {α β : Type} (x : Reported α) (f : α → Reported β) :
    (x >>= f).value = (f x.value).value := rfl

@[simp] theorem report_bind {α β : Type} (x : Reported α) (f : α → Reported β) :
    (x >>= f).report = x.report ++ (f x.value).report := rfl

instance : LawfulMonad Reported := LawfulMonad.mk' _
  (fun x => by
    show Reported.bind x (fun a => Reported.pure (id a)) = x
    simp [Reported.bind, Reported.pure])
  (fun _ _ => by
    show Reported.bind (Reported.pure _) _ = _
    simp [Reported.bind, Reported.pure])
  (fun x f g => by
    show Reported.bind (Reported.bind x f) g = Reported.bind x fun a => Reported.bind (f a) g
    simp [Reported.bind, Report.append_assoc])

end Reported

end CommandScript

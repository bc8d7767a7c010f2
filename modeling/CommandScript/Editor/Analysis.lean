import CommandScript.Editor.DeltaEncoding
import CommandScript.Walk

/-!
Analysis of a document.

Every line is read on its own. Blanks at its end do not count; a line that begins
with `#` is a comment, and blank lines and a lone closing brace are passed over.
Diagnostics beyond a cap are dropped, in the order of the document; tokens and
reports do not depend on the cap.
-/

namespace CommandScript

/-- The lines of a document, which a line break stands between. -/
def documentLines (text : List Char) : List (List Char) :=
  text.foldr
    (fun c lines =>
      if c = '\n' then [] :: lines
      else match lines with
        | [] => [[c]]
        | line :: rest => (c :: line) :: rest)
    [[]]

/-- A line that is not passed over. -/
inductive DocumentLine where
  | comment (span : Span)
  | command (text : List Char)
deriving DecidableEq, Repr

/-- What a line is; its end counts up to the last character that is no blank. -/
def DocumentLine.of? (line : List Char) : Option DocumentLine :=
  let whole := (Slice.ofLine line).trimEnd
  let body := whole.trimStart
  if body.isEmpty || body.is "\x7d" then none
  else if body.front? = some '#' then some (.comment body.span)
  else some (.command whole.text)

/-- A diagnostic and the number of its line. -/
structure LineDiagnostic where
  line : Nat
  diagnostic : Diagnostic
deriving DecidableEq, Repr

/-- The report on a line and its number. -/
structure ParsedLine where
  line : Nat
  report : LineReport

/-- The most diagnostics that an analysis yields. -/
structure AnalysisOptions where
  maxProblems : Nat
deriving DecidableEq, Repr

/-- A thousand diagnostics. -/
def AnalysisOptions.default : AnalysisOptions :=
  ⟨1000⟩

/-- What is known of a document: its diagnostics, its encoded tokens and the reports
on its commands, in order. -/
structure DocumentAnalysis where
  diagnostics : List LineDiagnostic
  tokens : List Nat
  lines : List ParsedLine

namespace DocumentAnalysis

/-- Binary search in reports that are ordered by line. While several are left, the one in
the middle decides in which half the search goes on. -/
def search? (line : Nat) (lines : List ParsedLine) : Option ParsedLine :=
  if several : 1 < lines.length then
    let half := lines.length / 2
    have inside : half < lines.length := by omega
    if line < lines[half].line then search? line (lines.take (lines.length - half))
    else search? line (lines.drop half)
  else
    lines.head?.filter fun parsed => parsed.line = line
termination_by lines.length

/-- The report on the command in a line. -/
def report? (analysis : DocumentAnalysis) (line : Nat) : Option LineReport :=
  (search? line analysis.lines).map ParsedLine.report

/-- What one line adds to an analysis. -/
structure LineFinding where
  diagnostics : List LineDiagnostic
  comments : List LineToken
  tokens : List LineToken
  lines : List ParsedLine

/-- The findings on a command. A walk that breaks off is an error over all of the
line. -/
def ofCommand (context : Context) (number : Nat) (command : List Char) : LineFinding :=
  match walk context command with
  | .ok report =>
    ⟨report.diagnostics.map (⟨number, ·⟩), [], report.tokens.map (⟨number, ·⟩),
      [⟨number, report⟩]⟩
  | .error error =>
    let remark : Remark := ⟨.upTo (byteLength command), error.message⟩
    ⟨[⟨number, .ofError remark⟩], [], [], []⟩

/-- The findings on a line. -/
def ofLine (context : Context) (number : Nat) (line : List Char) : LineFinding :=
  match DocumentLine.of? line with
  | none => ⟨[], [], [], []⟩
  | some (.comment span) => ⟨[], [⟨number, ⟨span, .comment⟩⟩], [], []⟩
  | some (.command command) => ofCommand context number command

end DocumentAnalysis

/-- Diagnoses and highlights every line of a document. -/
def analyze (context : Context) (options : AnalysisOptions) (text : List Char) :
    DocumentAnalysis :=
  let findings := (documentLines text).zipIdx.map fun (line, number) =>
    DocumentAnalysis.ofLine context number line
  { diagnostics := (findings.flatMap (·.diagnostics)).take options.maxProblems
    tokens := LineToken.encode (findings.flatMap (·.comments) ++ findings.flatMap (·.tokens))
    lines := findings.flatMap (·.lines) }

end CommandScript

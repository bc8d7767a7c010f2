import CommandScript.Editor.Analysis
import CommandScript.Proofs.Editor.DeltaEncoding

/-!
An analysis goes line by line.

What is found out about a line depends on that line and its number only (`ofLine_raise`), so the
analysis of a text that goes on after a line break is that of both parts, the second one with all
numbers raised (`analyze_lineLocal`). Comments and commands are collected apart, but sorting the
tokens puts those of the first part in front of all of the second (`decode_ofFindings_append`).
Reports come in the order of their lines, at most one for each line, which is what the binary
search for a line needs (`search?_eq_some_iff`).
-/

namespace CommandScript

/-! ## Lines of a text -/

theorem documentLines_ne_nil (text : List Char) : documentLines text ≠ [] := by
  cases text with
  | nil => exact List.cons_ne_nil _ _
  | cons c text =>
    rw [documentLines, List.foldr_cons]
    split
    · exact List.cons_ne_nil _ _
    · split <;> exact List.cons_ne_nil _ _

theorem documentLines_cons (c : Char) {text line : List Char} {lines : List (List Char)}
    (later : documentLines text = line :: lines) :
    documentLines (c :: text) =
      if c = '\n' then [] :: line :: lines else (c :: line) :: lines := by
  unfold documentLines at later ⊢
  rw [List.foldr_cons, later]

/-- A line break ends a line, and what follows it has lines of its own. -/
theorem documentLines_append (a b : List Char) :
    documentLines (a ++ '\n' :: b) = documentLines a ++ documentLines b := by
  induction a with
  | nil => rfl
  | cons c a ih =>
    obtain ⟨line, lines, first⟩ := List.exists_cons_of_ne_nil (documentLines_ne_nil a)
    rw [first, List.cons_append] at ih
    rw [List.cons_append, documentLines_cons c ih, documentLines_cons c first]
    split <;> rfl

/-! ## Findings further down -/

/-- The diagnostic some lines further down. -/
def LineDiagnostic.raise (n : Nat) (d : LineDiagnostic) : LineDiagnostic :=
  ⟨d.line + n, d.diagnostic⟩

/-- The report some lines further down. -/
def ParsedLine.raise (n : Nat) (parsed : ParsedLine) : ParsedLine :=
  ⟨parsed.line + n, parsed.report⟩

namespace LineToken

/-- The token some lines further down. -/
def raise (n : Nat) (t : LineToken) : LineToken :=
  ⟨t.line + n, t.token⟩

/-- The place some lines further down. -/
def Placed.raise (n : Nat) (place : Placed) : Placed :=
  ⟨place.line + n, place.column, place.length, place.kind⟩

theorem before_raise (n : Nat) (a b : LineToken) : (a.raise n).before (b.raise n) = a.before b := by
  simp [before, raise]

/-- Which tokens are in front of a line, if those behind them were moved down to it. -/
theorem filter_append_raise {n : Nat} {first : List LineToken} (above : ∀ t ∈ first, t.line < n)
    (second : List LineToken) :
    (first ++ second.map (raise n)).filter (fun t => t.line < n) = first ∧
      (first ++ second.map (raise n)).filter (fun t => !decide (t.line < n)) =
        second.map (raise n) := by
  have below : ∀ t ∈ second.map (raise n), ¬t.line < n := by
    intro t mem
    obtain ⟨t, -, rfl⟩ := List.mem_map.1 mem
    exact Nat.not_lt.2 (Nat.le_add_left ..)
  constructor
  · rw [List.filter_append, List.filter_eq_self.2 (by simpa using above),
      List.filter_eq_nil_iff.2 (by simpa using below), List.append_nil]
  · rw [List.filter_append, List.filter_eq_nil_iff.2 (by simpa using above), List.nil_append,
      List.filter_eq_self.2 (by simpa using below)]

/-- An editor sees the comments and tokens above a line in front of those from that line on, even
though all comments are collected first. -/
theorem decode_encode_append {n : Nat} {comments tokens : List LineToken}
    (above : ∀ t ∈ comments, t.line < n) (aboveToo : ∀ t ∈ tokens, t.line < n)
    (comments' tokens' : List LineToken) :
    decode (encode ((comments ++ comments'.map (raise n)) ++ (tokens ++ tokens'.map (raise n)))) =
      decode (encode (comments ++ tokens)) ++
        (decode (encode (comments' ++ tokens'))).map (Placed.raise n) := by
  obtain ⟨front, back⟩ := filter_append_raise above comments'
  obtain ⟨frontToo, backToo⟩ := filter_append_raise aboveToo tokens'
  have sameOrder := List.map_mergeSort (f := raise n) (l := comments' ++ tokens') (s := before)
    fun a _ b _ => (before_raise n a b).symm
  rw [decode_encode, decode_encode, decode_encode, sort_split n, List.filter_append, front,
    frontToo, List.filter_append, back, backToo, ← List.map_append, ← sameOrder, List.map_append,
    List.map_map, List.map_map]
  rfl

end LineToken

namespace DocumentAnalysis

/-- The findings some lines further down. -/
def LineFinding.raise (n : Nat) (finding : LineFinding) : LineFinding :=
  ⟨finding.diagnostics.map (.raise n), finding.comments.map (.raise n),
    finding.tokens.map (.raise n), finding.lines.map (.raise n)⟩

/-- The findings on the lines of a text. -/
def findings (context : Context) (text : List Char) : List LineFinding :=
  (documentLines text).zipIdx.map fun (line, number) => ofLine context number line

/-- The analysis that findings make up, with every diagnostic. -/
def ofFindings (findings : List LineFinding) : DocumentAnalysis where
  diagnostics := findings.flatMap (·.diagnostics)
  tokens := LineToken.encode (findings.flatMap (·.comments) ++ findings.flatMap (·.tokens))
  lines := findings.flatMap (·.lines)

section Findings

variable {context : Context} {number n : Nat} {line : List Char}

theorem ofCommand_raise (context : Context) (number n : Nat) (command : List Char) :
    ofCommand context (number + n) command = (ofCommand context number command).raise n := by
  unfold ofCommand
  split
  · simp [LineFinding.raise, LineDiagnostic.raise, LineToken.raise, ParsedLine.raise]
  · rfl

/-- What is found out about a line does not depend on its number. -/
theorem ofLine_raise (context : Context) (number n : Nat) (line : List Char) :
    ofLine context (number + n) line = (ofLine context number line).raise n := by
  unfold ofLine
  split
  · rfl
  · rfl
  · exact ofCommand_raise ..

theorem findings_append (context : Context) (a b : List Char) :
    findings context (a ++ '\n' :: b) =
      findings context a ++ (findings context b).map (.raise (documentLines a).length) := by
  have below := List.zipIdx_eq_map_add (l := documentLines b) (i := (documentLines a).length)
  rw [findings, documentLines_append, List.zipIdx_append, List.map_append, Nat.zero_add, below,
    List.map_map, findings, findings, List.map_map]
  congr 1
  refine List.map_congr_left fun numbered _ => ?_
  rw [Function.comp_apply, Function.comp_apply, ← ofLine_raise, Nat.add_comm]

theorem line_of_mem_ofLine {t : LineToken}
    (mem : t ∈ (ofLine context number line).comments ∨ t ∈ (ofLine context number line).tokens) :
    t.line = number := by
  unfold ofLine at mem
  split at mem
  · rcases mem with mem | mem <;> cases mem
  · rcases mem with mem | mem
    · rw [List.mem_singleton.1 mem]
    · cases mem
  · unfold ofCommand at mem
    split at mem
    · rcases mem with mem | mem
      · cases mem
      · obtain ⟨token, -, rfl⟩ := List.mem_map.1 mem
        rfl
    · rcases mem with mem | mem <;> cases mem

/-- The tokens of a text are on its lines. -/
theorem line_of_mem_findings {text : List Char} {finding : LineFinding}
    (found : finding ∈ findings context text) {t : LineToken}
    (mem : t ∈ finding.comments ∨ t ∈ finding.tokens) : t.line < (documentLines text).length := by
  obtain ⟨⟨line, number⟩, numbered, rfl⟩ := List.mem_map.1 found
  rw [line_of_mem_ofLine mem]
  exact (List.getElem?_eq_some_iff.1 (List.mem_zipIdx_iff_getElem?.1 numbered)).1

/-- There is a report on a line if it is a command and the walk ends with one. -/
theorem mem_lines_ofLine {parsed : ParsedLine} :
    parsed ∈ (ofLine context number line).lines ↔ parsed.line = number ∧ ∃ command,
      DocumentLine.of? line = some (.command command) ∧
        walk context command = .ok parsed.report := by
  rcases parsed with ⟨place, report⟩
  unfold ofLine
  split
  · rename_i kind
    simp [kind]
  · rename_i kind
    simp [kind]
  · rename_i command kind
    unfold ofCommand
    split
    · rename_i found walked
      simp [kind, walked, eq_comm]
    · rename_i broken
      simp [kind, broken]

theorem lines_ofLine_ordered (context : Context) (number : Nat) (line : List Char) :
    (ofLine context number line).lines.Pairwise fun a b => a.line < b.line := by
  unfold ofLine
  split
  · exact .nil
  · exact .nil
  · unfold ofCommand
    split
    · exact List.pairwise_singleton ..
    · exact .nil

end Findings

/-! ## Analyses one after the other -/

section Append

variable {n : Nat} {first second : List LineFinding}

/-- What is collected of findings further down is further down. -/
theorem flatMap_raise {α : Type} {part : LineFinding → List α} {move : α → α}
    (moves : ∀ finding, part (finding.raise n) = (part finding).map move) :
    (second.map (.raise n)).flatMap part = (second.flatMap part).map move := by
  rw [List.flatMap_map, List.map_flatMap, funext moves]

theorem diagnostics_ofFindings_append :
    (ofFindings (first ++ second.map (.raise n))).diagnostics =
      (ofFindings first).diagnostics ++ (ofFindings second).diagnostics.map (.raise n) := by
  show List.flatMap _ _ = _
  rw [List.flatMap_append, flatMap_raise fun _ => rfl]
  rfl

theorem lines_ofFindings_append :
    (ofFindings (first ++ second.map (.raise n))).lines =
      (ofFindings first).lines ++ (ofFindings second).lines.map (.raise n) := by
  show List.flatMap _ _ = _
  rw [List.flatMap_append, flatMap_raise fun _ => rfl]
  rfl

/-- The comments of both parts are collected in front of the commands of both, but a token of the
first part is still seen in front of all of the second. -/
theorem decode_ofFindings_append
    (above : ∀ finding ∈ first, ∀ t, t ∈ finding.comments ∨ t ∈ finding.tokens → t.line < n) :
    LineToken.decode (ofFindings (first ++ second.map (.raise n))).tokens =
      LineToken.decode (ofFindings first).tokens ++
        (LineToken.decode (ofFindings second).tokens).map (.raise n) := by
  have comments : ∀ t ∈ first.flatMap (·.comments), t.line < n := by
    intro t mem
    obtain ⟨finding, found, mem⟩ := List.mem_flatMap.1 mem
    exact above finding found t (.inl mem)
  have tokens : ∀ t ∈ first.flatMap (·.tokens), t.line < n := by
    intro t mem
    obtain ⟨finding, found, mem⟩ := List.mem_flatMap.1 mem
    exact above finding found t (.inr mem)
  show LineToken.decode (LineToken.encode (List.flatMap _ _ ++ List.flatMap _ _)) = _
  rw [List.flatMap_append, List.flatMap_append, flatMap_raise fun _ => rfl,
    flatMap_raise fun _ => rfl]
  exact LineToken.decode_encode_append comments tokens _ _

end Append

/-! ## Reports by line -/

section Search

variable {lines : List ParsedLine}

/-- The later of two reports is the one on the later line. -/
theorem line_lt_iff (ordered : lines.Pairwise fun a b => a.line < b.line) {i j : Nat}
    (inside : i < lines.length) (insideToo : j < lines.length) :
    lines[i].line < lines[j].line ↔ i < j := by
  have later := List.pairwise_iff_getElem.1 ordered
  rcases Nat.lt_trichotomy i j with before | rfl | after
  · exact iff_of_true (later i j inside insideToo before) before
  · exact iff_of_false (Nat.lt_irrefl _) (Nat.lt_irrefl _)
  · exact iff_of_false (Nat.lt_asymm (later j i insideToo inside after)) (Nat.lt_asymm after)

/-- Binary search finds the report on a line wherever it is. -/
theorem search?_eq_some_iff (ordered : lines.Pairwise fun a b => a.line < b.line) (line : Nat)
    (parsed : ParsedLine) :
    search? line lines = some parsed ↔ parsed ∈ lines ∧ parsed.line = line := by
  fun_induction search? line lines with
  | case1 lines several half inside before ih =>
    rw [ih (ordered.sublist (List.take_sublist ..))]
    refine and_congr_left fun same => ⟨List.mem_of_mem_take, fun mem => ?_⟩
    obtain ⟨i, bound, rfl⟩ := List.mem_iff_getElem.1 mem
    have inFront := (line_lt_iff ordered bound inside).1 (same ▸ before)
    exact List.mem_take_iff_getElem.2 ⟨i, by omega, rfl⟩
  | case2 lines several half inside notBefore ih =>
    rw [ih (ordered.sublist (List.drop_sublist ..))]
    refine and_congr_left fun same => ⟨List.mem_of_mem_drop, fun mem => ?_⟩
    obtain ⟨i, bound, rfl⟩ := List.mem_iff_getElem.1 mem
    have notInFront : half ≤ i := Nat.not_lt.1 fun inFront =>
      notBefore (same ▸ (line_lt_iff ordered bound inside).2 inFront)
    refine List.mem_drop_iff_getElem.2 ⟨i - half, by omega, ?_⟩
    congr 1
    omega
  | case3 lines single =>
    match lines with
    | [] => simp
    | [only] => simpa [Option.filter_eq_some_iff] using fun _ => eq_comm
    | _ :: _ :: _ => simp at single

/-- What is found for a line is the report that was made on it. -/
theorem report?_eq_some_iff {analysis : DocumentAnalysis}
    (ordered : analysis.lines.Pairwise fun a b => a.line < b.line) (line : Nat)
    (report : LineReport) :
    analysis.report? line = some report ↔ ⟨line, report⟩ ∈ analysis.lines := by
  rw [report?, Option.map_eq_some_iff]
  constructor
  · rintro ⟨parsed, found, rfl⟩
    obtain ⟨mem, rfl⟩ := (search?_eq_some_iff ordered line parsed).1 found
    exact mem
  · intro mem
    exact ⟨⟨line, report⟩, (search?_eq_some_iff ordered line _).2 ⟨mem, rfl⟩, rfl⟩

end Search

/-- At most one report for each line, in their order. -/
theorem lines_ordered (context : Context) (text : List Char) :
    ((findings context text).flatMap (·.lines)).Pairwise fun a b => a.line < b.line := by
  have numbers : (documentLines text).zipIdx.Pairwise fun a b => a.2 < b.2 := by
    rw [← List.pairwise_map, List.zipIdx_map_snd]
    exact List.pairwise_lt_range'
  refine List.pairwise_flatMap.2 ⟨fun finding found => ?_, List.pairwise_map.2 ?_⟩
  · obtain ⟨⟨line, number⟩, -, rfl⟩ := List.mem_map.1 found
    exact lines_ofLine_ordered ..
  · refine numbers.imp fun before parsed mem later memLater => ?_
    rw [(mem_lines_ofLine.1 mem).1, (mem_lines_ofLine.1 memLater).1]
    exact before

/-- The reports are those on the commands of the text whose walk ends with one. -/
theorem mem_lines_iff {context : Context} {text : List Char} {parsed : ParsedLine} :
    parsed ∈ (findings context text).flatMap (·.lines) ↔ ∃ line command,
      (documentLines text)[parsed.line]? = some line ∧
        DocumentLine.of? line = some (.command command) ∧
          walk context command = .ok parsed.report := by
  constructor
  · intro mem
    obtain ⟨finding, found, mem⟩ := List.mem_flatMap.1 mem
    obtain ⟨⟨line, number⟩, numbered, rfl⟩ := List.mem_map.1 found
    obtain ⟨rfl, command, isCommand, walked⟩ := mem_lines_ofLine.1 mem
    exact ⟨line, command, List.mem_zipIdx_iff_getElem?.1 numbered, isCommand, walked⟩
  · rintro ⟨line, command, isLine, isCommand, walked⟩
    have numbered := List.mem_zipIdx_iff_getElem? (x := (line, parsed.line)).2 isLine
    refine List.mem_flatMap.2 ⟨_, List.mem_map_of_mem numbered, ?_⟩
    exact mem_lines_ofLine.2 ⟨rfl, command, isCommand, walked⟩

end DocumentAnalysis

/-! ## Locality -/

open DocumentAnalysis

/-- The analysis of a text with all of its diagnostics. -/
def analyzeAll (context : Context) (text : List Char) : DocumentAnalysis :=
  ofFindings (findings context text)

/-- Analysis goes line by line. The analysis of two texts with a line break in between is that of
the first and behind it that of the second, whose lines are numbered on from those of the first:
the diagnostics, the reports and the tokens as an editor sees them. The reports are in the order
of their lines, and there is one for a line if it is a command whose walk ends with one. A cap
keeps that many diagnostics from the beginning and changes nothing else. -/
theorem analyze_lineLocal (context : Context) :
    (∀ a b : List Char,
      let n := (documentLines a).length
      let first := analyzeAll context a
      let second := analyzeAll context b
      let whole := analyzeAll context (a ++ '\n' :: b)
      whole.diagnostics = first.diagnostics ++ second.diagnostics.map (.raise n) ∧
        whole.lines = first.lines ++ second.lines.map (.raise n) ∧
        LineToken.decode whole.tokens =
          LineToken.decode first.tokens ++ (LineToken.decode second.tokens).map (.raise n)) ∧
    (∀ options text,
      let analysis := analyze context options text
      (analysis.lines.Pairwise fun parsed later => parsed.line < later.line) ∧
        ∀ number report, analysis.report? number = some report ↔ ∃ line command,
          (documentLines text)[number]? = some line ∧
            DocumentLine.of? line = some (.command command) ∧
              walk context command = .ok report) ∧
    ∀ options text,
      let analysis := analyze context options text
      let all := analyzeAll context text
      analysis.diagnostics = all.diagnostics.take options.maxProblems ∧
        analysis.tokens = all.tokens ∧ analysis.lines = all.lines := by
  refine ⟨fun a b => ?_, fun options text => ⟨lines_ordered context text, fun number report => ?_⟩,
    fun options text => ⟨rfl, rfl, rfl⟩⟩
  · dsimp only [analyzeAll]
    rw [findings_append]
    exact ⟨diagnostics_ofFindings_append, lines_ofFindings_append,
      decode_ofFindings_append fun _ found _ => line_of_mem_findings found⟩
  · rw [report?_eq_some_iff (lines_ordered context text)]
    exact mem_lines_iff

end CommandScript

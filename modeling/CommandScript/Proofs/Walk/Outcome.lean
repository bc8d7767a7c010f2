import CommandScript.Proofs.Argument.Wording
import CommandScript.Proofs.Walk.Isolation
import CommandScript.Proofs.Walk.Tiling

/-!
What a walk reports agrees with how it ends.

Every trail of a frontier has matched all its hops, so its only errors are about long
spaces behind them (`Trail.Clean`). A walk that succeeds reports these and no others. One
that fails reports a trail with at least one more (`Trail.Fails`): it ran out of input, or
nothing could follow it, or its last hop did not match. A literal is said to be unknown only
if it is none of those that could have followed.
-/

namespace CommandScript

open TokenReader

/-! ## Long spaces -/

/-- The tokens of a line that are more than one space. -/
def longSpaces (line : List Char) : List Token :=
  (Token.ofLine line).filter fun token => token.isSpace && 1 < token.slice.text.length

/-- The error over a token that is more than one space. -/
def Token.tooLong (token : Token) : Remark :=
  ⟨token.slice.span, Argument.extraSpace⟩

/-- The errors over long spaces at an offset. -/
def spacesAt (line : List Char) (offset : Nat) : List Remark :=
  ((longSpaces line).filter (·.slice.start == offset)).map Token.tooLong

section Spaces

variable {line : List Char} {token : Token} {r : TokenReader}

theorem longSpaces_increasing (line : List Char) :
    (longSpaces line).Pairwise fun token next => token.slice.start < next.slice.start :=
  (Token.ofLine_tiles line).increasing.filter _

/-- A token of spaces is reported if it is a long one. -/
theorem checkSeparator_errors (mem : token ∈ Token.ofLine line) (space : token.isSpace = true) :
    (Argument.checkSeparator token).report.errors =
      ([token].filter fun token => token.isSpace && 1 < token.slice.text.length).map
        Token.tooLong := by
  have spaces := Token.spaces_of_mem_ofLine mem space
  have nonempty := (Token.ofLine_tiles line).nonempty token mem
  have long : (token.slice.text != [' ']) = decide (1 < token.slice.text.length) := by
    generalize token.slice.text = text at spaces nonempty
    match text with
    | [] => exact absurd rfl nonempty
    | [c] => rw [spaces c (List.mem_singleton_self c)]; rfl
    | _ :: _ :: _ => simp
  rw [Argument.checkSeparator, long, List.filter_singleton, space]
  cases decide (1 < token.slice.text.length) <;> rfl

/-- Only the spaces under a reader are at its offset. -/
theorem spacesAt_offset (valid : r.Valid) : spacesAt r.line r.offset =
    (r.current?.toList.filter fun token => token.isSpace && 1 < token.slice.text.length).map
      Token.tooLong := by
  rw [spacesAt, longSpaces, List.filter_filter, ← valid.filter_start, List.filter_filter]
  simp only [Bool.and_comm]

theorem SpacesBetween.le {start stop : Nat} (spaces : SpacesBetween line start stop) :
    start ≤ stop := by
  obtain ⟨token, -, -, span⟩ := spaces
  obtain ⟨rfl, rfl⟩ := Span.mk.inj span
  exact token.slice.start_le_stop

/-- The entries of a path end one behind the other. -/
theorem TilesLine.increasing {path : List PathEntry} (tiles : TilesLine line path) :
    (path.map fun entry => entry.span.stop).Pairwise (· < ·) := by
  have chain : path.IsChain fun entry next => entry.span.stop < next.span.stop :=
    tiles.separated.imp_of_mem_imp fun entry next _ mem spaces =>
      Nat.lt_of_le_of_lt spaces.le (tiles.nonempty next mem)
  exact ((List.isChain_map _).2 chain).pairwise

/-- The errors over long spaces behind the entries of a path. -/
theorem flatMap_spacesAt {path : List PathEntry} (tiles : TilesLine line path) :
    (path.flatMap fun entry => spacesAt line entry.span.stop) =
      ((longSpaces line).filter fun token =>
        path.any fun entry => entry.span.stop == token.slice.start).map Token.tooLong := by
  have keyed := flatMap_filter_key tiles.increasing (longSpaces_increasing line)
  simp only [List.flatMap_map, List.any_map, Function.comp_def] at keyed
  rw [← keyed, List.map_flatMap]
  rfl

end Spaces

/-! ## Trails -/

/-- The errors of all hops of a trail. -/
def Trail.errors (trail : Trail) : List Remark :=
  trail.hops.flatMap fun hop => hop.report.errors

/-- The node at the end of a path from the root. -/
def nodeAt (root : CommandNode) (path : List PathEntry) : CommandNode :=
  (path.getLast?.map PathEntry.node).getD root

/-- A trail that matched all its hops. -/
structure Trail.Clean (root : CommandNode) (line : List Char) (trail : Trail) : Prop where
  errors : trail.errors = trail.path.flatMap fun entry => spacesAt line entry.span.stop
  matched : trail.latest.matched = true
  node : trail.node = nodeAt root trail.path

section Trails

variable {context : Context} {line : List Char} {trail : Trail} {hop : Hop}

theorem Trail.errors_push (trail : Trail) (hop : Hop) :
    (trail.push hop).errors = trail.errors ++ hop.report.errors := by
  rw [errors, hops_push, List.flatMap_append, List.flatMap_singleton]
  rfl

theorem Trail.errors_add (trail : Trail) (report : Report) :
    (trail.add report).errors = trail.errors ++ report.errors := by
  rw [errors, errors, hops_eq, hops_eq]
  simp [add, Hop.add]

namespace Walk

/-- A hop that matched has no errors. -/
theorem attemptNode_errors {name : String} {node : CommandNode} {word : Slice} {r : TokenReader}
    (matched : (attemptNode context name node word r).matched = true) :
    (attemptNode context name node word r).report.errors = [] := by
  unfold attemptNode attemptLiteral attemptArgument at *
  split at matched
  · rename_i isLiteral
    rw [if_pos isLiteral]
    split <;> rfl
  · rename_i isArgument
    rw [if_neg isArgument]
    dsimp only at matched ⊢
    split at matched
    · cases matched
    · exact List.isEmpty_iff.1 matched

/-- The separator behind a hop without errors is an error if it is a long one. -/
theorem passedHop_errors (valid : hop.reader.Valid) (separated : hop.reader.AtSeparator)
    (none : hop.report.errors = []) :
    (passedHop hop).report.errors = spacesAt hop.reader.line hop.reader.offset := by
  rw [spacesAt_offset valid]
  unfold passedHop
  split
  · rename_i token found
    have space := separated token found
    rw [if_pos space, found]
    have errors := checkSeparator_errors (valid.mem_of_current? found) space
    show hop.report.errors ++ (Argument.checkSeparator token).report.errors = _
    rw [none, errors]
    rfl
  · rename_i found
    rw [none, found]
    rfl

theorem passedHop_entry (hop : Hop) : (passedHop hop).entry = hop.entry := by
  unfold passedHop
  split
  · split <;> rfl
  · rfl

theorem startTrail_clean (context : Context) (line : List Char) :
    (startTrail context line).Clean context.root line := by
  refine ⟨?_, rfl, rfl⟩
  show (startTrail context line).latest.report.errors ++ [] = []
  rw [List.append_nil]
  unfold startTrail
  cases Token.ofLine line with
  | nil => rfl
  | cons first others => cases space : first.isSpace <;> simp [space] <;> rfl

theorem offspring_clean (builtin : context.kinds.IsBuiltin) (sound : trail.Sound line)
    (clean : trail.Clean context.root line) :
    ∀ next ∈ offspring context trail, next.Clean context.root line := by
  intro next mem
  rcases List.mem_map.1 mem with ⟨extension, survivor, rfl⟩
  rcases List.mem_filter.1 survivor with ⟨memExtension, survived⟩
  cases extended_of_mem memExtension with
  | deadEnd => cases survived
  | @tried name node word found child =>
    have stands := attemptNode_stands builtin name node sound.valid found
    have behind := attemptNode_behind builtin name node sound.valid found
    have none := attemptNode_errors survived
    generalize attemptNode context name node word trail.reader = hop
      at stands behind survived none
    have separated := behind.separated survived
    have errors := passedHop_errors (behind.ahead.valid sound.valid) separated none
    rw [← stands.stops survived, behind.ahead.line, sound.sameLine] at errors
    have entry := passedHop_entry hop
    rw [passed_push]
    refine ⟨?_, (congrArg PathEntry.matched entry).trans survived, ?_⟩
    · rw [Trail.errors_push, Trail.path_push, entry, List.flatMap_append, clean.errors, errors,
        List.flatMap_singleton]
      rfl
    · rw [nodeAt, Trail.path_push, List.getLast?_concat]
      rfl

end Walk

end Trails

/-- All trails of a frontier are clean, and so are the terminals, whose paths tile the line. -/
theorem Walk.Reached.clean {context : Context} {line : List Char} {n : Nat} {state : State}
    (builtin : context.kinds.IsBuiltin) (reached : Reached context line n state) :
    (∀ trail ∈ state.frontier, trail.Clean context.root line) ∧
      ∀ trail ∈ state.allTerminals, trail.Clean context.root line ∧ TilesLine line trail.path := by
  have start := startTrail_clean context line
  have goesOn := fun (trail : Trail) (sound : trail.Sound line)
    (clean : trail.Clean context.root line) => offspring_clean builtin sound clean
  have tiles := (reached.tiles builtin).allTerminals (reached.sound builtin)
  refine ⟨reached.frontier_holds builtin start goesOn, fun trail mem => ⟨?_, (tiles trail mem).1⟩⟩
  exact (reached.allTerminals_hold builtin start goesOn trail mem).2.2

/-! ## Failures -/

/-- The error says of a word of the line that it is none of the literals after the node in
front of the last entry of the path, and it is none of them. -/
def UnknownLiteral (root : CommandNode) (line : List Char) (path : List PathEntry)
    (error : Remark) : Prop :=
  ∃ word, ⟨word, false⟩ ∈ Token.ofLine line ∧ error.span.start = word.start ∧
    let expected := Walk.literalsAfter root (nodeAt root path.dropLast)
    error.message = (Walk.Fault.unknownLiteral word.toString expected).message ∧
      word.toString ∉ expected

/-- A trail has errors, and one that begins like an unknown literal is about one. -/
structure Trail.Fails (root : CommandNode) (line : List Char) (trail : Trail) : Prop where
  some : trail.errors ≠ []
  literal : ∀ error ∈ trail.errors, "Unknown literal".toList <+: error.message.toList →
    UnknownLiteral root line trail.path error

section Failures

variable {context : Context} {line : List Char} {trail other : Trail} {hop : Hop}

theorem spacesAt_opens {offset : Nat} {error : Remark} (mem : error ∈ spacesAt line offset) :
    OpensOtherwise error.message := by
  obtain ⟨token, -, rfl⟩ := List.mem_map.1 mem
  exact .of_letters rfl

/-- A clean trail with more errors fails. -/
theorem Trail.Clean.fails {root : CommandNode} (clean : trail.Clean root line)
    {faults : List Remark} (errors : other.errors = trail.errors ++ faults) (some : faults ≠ [])
    (literal : ∀ fault ∈ faults, "Unknown literal".toList <+: fault.message.toList →
      UnknownLiteral root line other.path fault) : other.Fails root line where
  some := by
    rw [errors]
    exact List.append_ne_nil_of_right_ne_nil _ some
  literal error mem begins := by
    rw [errors, clean.errors] at mem
    rcases List.mem_append.1 mem with spaces | fault
    · obtain ⟨entry, -, spaces⟩ := List.mem_flatMap.1 spaces
      exact absurd begins (spacesAt_opens spaces).not_unknown
    · exact literal error fault begins

/-- A clean trail with an error of another kind fails. -/
theorem Trail.Clean.fails_add {root : CommandNode} (clean : trail.Clean root line) (span : Span)
    {message : String} (opens : OpensOtherwise message) :
    (trail.add (.error span message)).Fails root line :=
  clean.fails (trail.errors_add _) (List.cons_ne_nil _ _)
    (List.forall_mem_singleton.2 fun begins => absurd begins opens.not_unknown)

namespace Walk

/-- Trails that ran out of input fail. -/
theorem incomplete_fails {root : CommandNode} {frontier : List Trail}
    (clean : ∀ trail ∈ frontier, trail.Clean root line) :
    ∀ trail ∈ incomplete line frontier, trail.Fails root line := by
  intro trail mem
  rcases List.mem_map.1 mem with ⟨short, found, rfl⟩
  exact (clean short (List.mem_filter.1 found).1).fails_add _ (.of_letters rfl)

/-- A literal that does not match has nothing to report, and an argument that does not has
errors of its own. -/
theorem attemptNode_missed (builtin : context.kinds.IsBuiltin) {name : String}
    {node : CommandNode} {word : Slice} {r : TokenReader}
    (missed : (attemptNode context name node word r).matched = false) :
    let errors := (attemptNode context name node word r).report.errors
    (node.isLiteral = true → errors = []) ∧ (node.isLiteral = false →
      errors ≠ [] ∧ ∀ error ∈ errors, OpensOtherwise error.message) := by
  unfold attemptNode attemptLiteral attemptArgument at *
  split at missed
  · rename_i isLiteral
    split at missed
    · cases missed
    · rename_i differs
      rw [if_pos isLiteral, if_neg differs]
      exact ⟨fun _ => rfl, fun isArgument => by rw [isLiteral] at isArgument; cases isArgument⟩
  · rename_i isArgument
    rw [if_neg isArgument]
    refine ⟨fun isLiteral => absurd isLiteral isArgument, fun _ => ?_⟩
    dsimp only at missed ⊢
    split at missed
    · have opens : OpensOtherwise (Fault.unknownKind (node.parser.getD "")).message :=
        .append (.of_letters rfl) _
      exact ⟨List.cons_ne_nil _ _, List.forall_mem_singleton.2 opens⟩
    · rename_i parser known
      obtain ⟨kind, rfl⟩ := builtin.create?_eq_some known
      refine ⟨fun none => ?_, kind.read_worded node.properties context.registries r⟩
      rw [Report.success, none] at missed
      cases missed

/-- The literals that may follow a node are the names of its literal children. -/
theorem mem_literalsAfter {root node : CommandNode} {typed : String} :
    typed ∈ literalsAfter root node ↔
      ∃ child, (typed, child) ∈ node.effectiveChildren root ∧ child.isLiteral = true := by
  simp [literalsAfter]

/-- Where nothing goes on from a trail, no literal is expected that was typed. -/
theorem not_mem_literalsAfter {word : Slice} (barren : offspring context trail = [])
    (found : trail.reader.current? = some ⟨word, false⟩) :
    word.toString ∉ literalsAfter context.root trail.node := by
  intro expected
  obtain ⟨child, mem, isLiteral⟩ := mem_literalsAfter.1 expected
  have typed : word.is word.toString = true := by simp [Slice.is, Slice.toString]
  rw [offspring_eq (currentWord?_of_current? found)] at barren
  have missed := List.filterMap_eq_nil_iff.1 barren _ mem
  simp [attemptNode, attemptLiteral, isLiteral, typed] at missed

/-- A literal that did not match is explained by what was expected in its place. -/
theorem explain_push {word : Slice} (missed : hop.matched = false)
    (found : trail.reader.current? = some ⟨word, false⟩) :
    explain context (trail.push hop) =
      if hop.node.isLiteral then
        (trail.push hop).add (.error trail.reader.remaining.span
          (Fault.unknownLiteral word.toString (literalsAfter context.root trail.node)).message)
      else
        trail.push hop := by
  have typed : (trail.latest.reader.current?.map (·.slice.toString)).getD "" = word.toString :=
    congrArg (fun token : Option Token => (token.map (·.slice.toString)).getD "") found
  simp only [explain, Trail.push, Trail.node, missed, typed, Bool.not_false, Bool.and_true]
  rfl

/-- What was tried where nothing goes on fails, once it is explained. -/
theorem explain_fails (builtin : context.kinds.IsBuiltin) (sound : trail.Sound line)
    (clean : trail.Clean context.root line) (barren : offspring context trail = []) :
    ∀ extension ∈ extensions context trail,
      (explain context extension.2).Fails context.root line := by
  intro extension mem
  cases extended_of_mem mem with
  | deadEnd =>
    have fails := clean.fails_add trail.reader.remaining.span
      (OpensOtherwise.of_letters rfl : OpensOtherwise Fault.expectedEnd.message)
    unfold explain
    split
    · rw [if_neg (by simp [Trail.add, Hop.add, clean.matched])]
      exact fails
    · exact fails
  | @tried name node word found child =>
    -- A hop that matched would have gone on.
    have missed : (attemptNode context name node word trail.reader).matched = false := by
      rw [offspring_eq (currentWord?_of_current? found)] at barren
      simpa using List.filterMap_eq_nil_iff.1 barren _ child
    have said := attemptNode_missed builtin missed
    have tries := (attemptNode_tries context name node word trail.reader).2
    generalize attemptNode context name node word trail.reader = hop at missed said tries ⊢
    subst tries
    rw [explain_push missed found]
    cases isLiteral : hop.node.isLiteral with
    | false =>
      obtain ⟨some, worded⟩ := said.2 isLiteral
      exact clean.fails (trail.errors_push hop) some fun fault mem begins =>
        absurd begins (worded fault mem).not_unknown
    | true =>
      have silent := trail.errors_push hop
      rw [said.1 isLiteral, List.append_nil] at silent
      have errors := fun report => (trail.push hop).errors_add report
      rw [silent] at errors
      rw [if_pos rfl]
      refine clean.fails (errors _) (List.cons_ne_nil _ _)
        (List.forall_mem_singleton.2 fun _ => ⟨word, ?_, ?_, ?_⟩)
      · have onLine := sound.valid.mem_of_current? found
        rwa [sound.sameLine] at onLine
      · exact (remaining_start _).trans (sound.valid.current_start found).symm
      · rw [Trail.path_add, Trail.path_push, List.dropLast_concat, ← clean.node]
        exact ⟨rfl, not_mem_literalsAfter barren found⟩

/-- Something is tried from every word on. -/
theorem extensions_ne_nil (sound : trail.Sound line) (live : trail.atEnd = false) :
    extensions context trail ≠ [] := by
  obtain ⟨word, found⟩ := sound.atWord.currentWord?_eq_some live
  unfold extensions
  rw [found]
  cases trail.node.effectiveChildren context.root with
  | nil => exact List.cons_ne_nil _ _
  | cons child children => exact List.cons_ne_nil _ _

end Walk

end Failures

/-! ## Reports -/

/-- The errors of a report agree with its outcome. A success comes with an error for every
long space behind an entry of the path, in order, and no others. A failure comes with an
error, and an unknown literal is none of those that are expected. -/
structure LineReport.ErrorsAgree (root : CommandNode) (line : List Char) (report : LineReport) :
    Prop where
  succeeds : report.success = true → report.errors =
    ((longSpaces line).filter fun token => report.path.any fun entry =>
      entry.span.stop == token.slice.start).map fun token => .ofError token.tooLong
  fails : report.success = false → report.errors ≠ []
  literal : report.success = false → ∀ error ∈ report.errors,
    "Unknown literal".toList <+: error.message.toList →
      UnknownLiteral root line report.path error.toRemark

namespace Walk

section Reports

variable {context : Context} {root : CommandNode} {line : List Char} {chosen : Trail}
  {others : List Trail}

theorem report_errors (kind : AmbiguityKind) (chosen : Trail) (others : List Trail) :
    (report kind chosen others).errors = chosen.errors.map .ofError := by
  have each : ∀ r : Report, r.diagnostics.filter Diagnostic.isError = r.errors.map .ofError := by
    intro r
    have errors : (r.errors.map Diagnostic.ofError).filter Diagnostic.isError =
        r.errors.map .ofError :=
      List.filter_eq_self.2 (List.forall_mem_map.2 fun _ _ => rfl)
    have warnings : (r.warnings.map Diagnostic.ofWarning).filter Diagnostic.isError = [] :=
      List.filter_eq_nil_iff.2 (List.forall_mem_map.2 fun _ _ => Bool.false_ne_true)
    rw [Report.diagnostics, List.filter_append, errors, warnings, List.append_nil]
  rw [LineReport.errors, report, List.filter_flatMap, Trail.errors, List.map_flatMap]
  simp only [each]

theorem report_clean (clean : chosen.Clean root line) (tiles : TilesLine line chosen.path) :
    (report .terminals chosen others).ErrorsAgree root line where
  succeeds _ := by
    rw [report_errors, clean.errors, flatMap_spacesAt tiles, List.map_map]
    rfl
  fails := nofun
  literal := nofun

theorem report_fails {kind : AmbiguityKind} (failed : kind ≠ .terminals)
    (fails : chosen.Fails root line) : (report kind chosen others).ErrorsAgree root line where
  succeeds success := absurd (of_decide_eq_true success) failed
  fails _ := by
    rw [report_errors]
    exact fun none => fails.some (List.map_eq_nil_iff.1 none)
  literal _ error mem := by
    rw [report_errors] at mem
    obtain ⟨remark, found, rfl⟩ := List.mem_map.1 mem
    exact fails.literal remark found

/-- A walk that found terminals reports the first of them, and one that found none reports a
failure. -/
theorem finish_errors {terminals : List Trail} {otherwise : LineReport}
    (holds : ∀ trail ∈ terminals, trail.Clean root line ∧ TilesLine line trail.path)
    (fails : terminals = [] → otherwise.ErrorsAgree root line) :
    (finish terminals otherwise).ErrorsAgree root line := by
  cases terminals with
  | nil => exact fails rfl
  | cons chosen others =>
    obtain ⟨clean, tiles⟩ := holds chosen (List.mem_cons_self ..)
    exact report_clean clean tiles

/-- A walk in which every attempt failed is reported by one of them. -/
theorem failure_errors {start : Trail} {attempts : List Trail} (some : attempts ≠ [])
    (fails : ∀ trail ∈ attempts, (explain context trail).Fails root line) :
    (failure context start attempts).ErrorsAgree root line := by
  cases attempts with
  | nil => exact absurd rfl some
  | cons first trails =>
    obtain ⟨firstFails, othersFail⟩ := List.forall_mem_cons.1 fails
    have chosen := furthest_all (P := fun trail => (explain context trail).Fails root line)
      firstFails othersFail
    exact report_fails (by decide) chosen.1

/-- A walk that ran out of input in front of the end of every command is reported by a trail
that did. -/
theorem reportFirst_errors {start : Trail} {frontier : List Trail}
    (clean : ∀ trail ∈ frontier, trail.Clean root line) (some : frontier ≠ [])
    (ends : ∀ trail ∈ frontier, trail.atEnd = true)
    (none : frontier.filter Trail.isTerminal = []) :
    (reportFirst .incomplete start (incomplete line frontier)).ErrorsAgree root line := by
  have fails := incomplete_fails clean
  cases short : incomplete line frontier with
  | nil =>
    obtain ⟨trail, mem⟩ := List.exists_mem_of_ne_nil _ some
    have unfinished := List.filter_eq_nil_iff.1 (List.map_eq_nil_iff.1 short) trail mem
    have terminal := List.filter_eq_nil_iff.1 none trail mem
    have either : trail.isTerminal = true ∨ trail.isIncomplete = true := by
      cases executable : trail.node.executable <;>
        simp [Trail.isTerminal, Trail.isIncomplete, ends trail mem, executable]
    exact absurd either (not_or.2 ⟨terminal, unfinished⟩)
  | cons chosen others =>
    rw [short] at fails
    exact report_fails (by decide) (fails chosen (List.mem_cons_self ..))

end Reports

end Walk

/-- Every walk ends with a report whose errors agree with its outcome. -/
theorem walk_errors_agree (context : Context) (builtin : context.kinds.IsBuiltin)
    (line : List Char) :
    ∃ report, walk context line = .ok report ∧ report.ErrorsAgree context.root line := by
  obtain ⟨n, last, report, reached, done, walked⟩ := Walk.walk_ends builtin line
  refine ⟨report, walked, ?_⟩
  have sound := reached.sound builtin
  obtain ⟨clean, terminals⟩ := reached.clean builtin
  have generated := Walk.generation_generated builtin (Walk.startTrail context line) sound
  rw [done] at generated
  cases generated with
  | exhausted ends =>
    refine Walk.finish_errors terminals fun none => ?_
    exact Walk.reportFirst_errors clean (reached.further builtin.isForward).1 ends
      (List.append_eq_nil_iff.1 none).2
  | stuck barren live =>
    refine Walk.finish_errors terminals fun _ => ?_
    obtain ⟨trail, inFrontier, live⟩ := live
    apply Walk.failure_errors
    · intro none
      have all := List.flatMap_eq_nil_iff.1 (List.map_eq_nil_iff.1 none) trail inFrontier
      exact Walk.extensions_ne_nil (sound trail inFrontier) live all
    · intro attempt mem
      obtain ⟨extension, found, rfl⟩ := List.mem_map.1 mem
      obtain ⟨parent, inFrontier, memExtension⟩ := List.mem_flatMap.1 found
      exact Walk.explain_fails builtin (sound parent inFrontier) (clean parent inFrontier)
        (List.flatMap_eq_nil_iff.1 barren parent inFrontier) extension memExtension

/-- A success with one space too many, and a literal that does not follow. -/
theorem walk_errors_agree_pair :
    let context := Context.ofPair "time" "query"
    context.kinds.IsBuiltin ∧
      (∃ report, walk context "time  query".toList = .ok report ∧ report.success = true ∧
        report.errors = [.ofError ⟨⟨4, 6⟩, Argument.extraSpace⟩] ∧
          report.ErrorsAgree context.root "time  query".toList) ∧
      ∃ report, walk context "time set".toList = .ok report ∧ report.success = false ∧
        report.ErrorsAgree context.root "time set".toList := by
  intro context
  have builtin : context.kinds.IsBuiltin := KindRegistry.builtin_isBuiltin
  refine ⟨builtin, ?_, ?_⟩
  · obtain ⟨report, walked, agree⟩ := walk_errors_agree context builtin "time  query".toList
    obtain ⟨_, same, success, errors⟩ : ∃ report,
        walk context "time  query".toList = .ok report ∧ report.success = true ∧
          report.errors = [.ofError ⟨⟨4, 6⟩, Argument.extraSpace⟩] := ⟨_, rfl, rfl, rfl⟩
    obtain rfl := Except.ok.inj (walked.symm.trans same)
    exact ⟨report, walked, success, errors, agree⟩
  · obtain ⟨report, walked, agree⟩ := walk_errors_agree context builtin "time set".toList
    obtain ⟨_, same, failed⟩ : ∃ report,
        walk context "time set".toList = .ok report ∧ report.success = false := ⟨_, rfl, rfl⟩
    obtain rfl := Except.ok.inj (walked.symm.trans same)
    exact ⟨report, walked, failed, agree⟩

end CommandScript

import CommandScript.Proofs.Argument.Visible
import CommandScript.Proofs.Editor.DeltaEncoding
import CommandScript.Proofs.Walk.Outcome

/-!
What a walk highlights can be seen.

A walk reports what its attempts reported, with remarks of its own added. So what holds of
remarks and of every attempt on a word (`Walk.Attempts`) holds of all that is reported hop by
hop (`Walk.walk_reports`). No attempt highlights anything empty, but for a boolean that is
missing in advancements (`Walk.attempts_visible`), next to an error. So only a walk that fails
may report an empty token (`walk_tokens_visible`), and one does (`walk_tokens_invisible`).
-/

namespace CommandScript

open TokenReader

/-! ## Trails -/

/-- The report of every hop has a property. -/
def Trail.Reports (P : Report → Prop) (trail : Trail) : Prop :=
  ∀ hop ∈ trail.hops, P hop.report

/-- A property of reports that remarks have, and every attempt on a word. -/
structure Walk.Attempts (context : Context) (P : Report → Prop) : Prop where
  additive : Report.Additive P
  remarks : ∀ {r : Report}, r.tokens = [] → P r
  attempt : ∀ {r : TokenReader} {word : Slice}, r.Valid → r.current? = some ⟨word, false⟩ →
    ∀ name node, P (attemptNode context name node word r).report

section Trails

variable {context : Context} {line : List Char} {P : Report → Prop} {trail : Trail}

theorem Trail.Reports.push {hop : Hop} (reports : trail.Reports P) (holds : P hop.report) :
    (trail.push hop).Reports P := by
  rw [Reports, hops_push]
  exact List.forall_mem_append.2 ⟨reports, List.forall_mem_singleton.2 holds⟩

namespace Walk

/-- More may be remarked on the latest hop. -/
theorem Attempts.add (attempts : Attempts context P) (reports : trail.Reports P)
    {remarks : Report} (silent : remarks.tokens = []) : (trail.add remarks).Reports P := by
  have added : P (trail.latest.report ++ remarks) :=
    attempts.additive.append (reports _ trail.latest_mem_hops) (attempts.remarks silent)
  rw [Trail.Reports, Trail.hops_eq] at *
  exact List.forall_mem_append.2
    ⟨(List.forall_mem_append.1 reports).1, List.forall_mem_singleton.2 added⟩

theorem Attempts.passedHop (attempts : Attempts context P) {hop : Hop} (holds : P hop.report) :
    P (passedHop hop).report := by
  unfold Walk.passedHop
  split
  · rename_i token found
    split
    · have remarks := attempts.remarks (Argument.checkSeparator_tokens token)
      exact attempts.additive.append holds remarks
    · exact holds
  · exact holds

theorem Attempts.startTrail (attempts : Attempts context P) (line : List Char) :
    (startTrail context line).Reports P :=
  List.forall_mem_singleton.2 (attempts.remarks (startTrail_silent context line))

theorem Attempts.extensions (attempts : Attempts context P) (sound : trail.Sound line)
    (reports : trail.Reports P) :
    ∀ extension ∈ extensions context trail, extension.2.Reports P := by
  intro extension mem
  cases extended_of_mem mem with
  | deadEnd => exact attempts.add reports rfl
  | tried found child => exact reports.push (attempts.attempt sound.valid found _ _)

theorem Attempts.offspring (attempts : Attempts context P) (sound : trail.Sound line)
    (reports : trail.Reports P) : ∀ next ∈ offspring context trail, next.Reports P := by
  intro next mem
  rcases List.mem_map.1 mem with ⟨extension, survivor, rfl⟩
  rcases List.mem_filter.1 survivor with ⟨memExtension, survived⟩
  cases extended_of_mem memExtension with
  | deadEnd => cases survived
  | tried found child =>
    rw [passed_push]
    exact reports.push (attempts.passedHop (attempts.attempt sound.valid found _ _))

theorem Attempts.explain (attempts : Attempts context P) (reports : trail.Reports P) :
    (explain context trail).Reports P := by
  unfold Walk.explain
  split
  · split
    · exact attempts.add reports rfl
    · exact reports
  · exact reports

/-! ## Reports -/

/-- The report is on a trail whose hops report what has a property. If it is a success, the
trail matched all its hops. -/
def Tells (P : Report → Prop) (root : CommandNode) (line : List Char) (told : LineReport) : Prop :=
  ∃ kind chosen others, told = report kind chosen others ∧ chosen.Reports P ∧
    (told.success = true → chosen.Clean root line)

variable {root : CommandNode} {told : LineReport}

theorem tells_failed {kind : AmbiguityKind} (failed : kind ≠ .terminals) {chosen : Trail}
    (reports : chosen.Reports P) (others : List Trail) :
    Tells P root line (report kind chosen others) :=
  ⟨kind, chosen, others, rfl, reports, fun success => absurd (of_decide_eq_true success) failed⟩

theorem tells_finish {terminals : List Trail}
    (holds : ∀ trail ∈ terminals, trail.Reports P ∧ trail.Clean root line)
    (otherwise : Tells P root line told) : Tells P root line (finish terminals told) := by
  cases terminals with
  | nil => exact otherwise
  | cons chosen others =>
    obtain ⟨reports, clean⟩ := holds chosen (List.mem_cons_self ..)
    exact ⟨.terminals, chosen, others, rfl, reports, fun _ => clean⟩

theorem Attempts.reportFirst (attempts : Attempts context P) {start : Trail}
    (startReports : start.Reports P) {frontier : List Trail}
    (reports : ∀ trail ∈ frontier, trail.Reports P) :
    Tells P root line (reportFirst .incomplete start (incomplete line frontier)) := by
  have short : ∀ trail ∈ incomplete line frontier, trail.Reports P := by
    intro trail mem
    rcases List.mem_map.1 mem with ⟨short, found, rfl⟩
    exact attempts.add (reports short (List.mem_filter.1 found).1) rfl
  cases unfinished : incomplete line frontier with
  | nil => exact tells_failed (by decide) startReports []
  | cons chosen others =>
    rw [unfinished] at short
    exact tells_failed (by decide) (short chosen (List.mem_cons_self ..)) others

theorem Attempts.failure (attempts : Attempts context P) {start : Trail}
    (startReports : start.Reports P) {tried : List Trail}
    (reports : ∀ trail ∈ tried, trail.Reports P) :
    Tells P root line (failure context start tried) := by
  cases tried with
  | nil => exact tells_failed (by decide) startReports []
  | cons first others =>
    rcases List.forall_mem_cons.1 reports with ⟨firstReports, othersReport⟩
    have chosen := (furthest_all firstReports othersReport).1
    exact tells_failed (by decide) (attempts.explain chosen) _

/-- What holds of remarks and of every attempt holds of what a walk reports hop by hop. -/
theorem walk_reports (builtin : context.kinds.IsBuiltin) (attempts : Attempts context P)
    (walked : walk context line = .ok told) : Tells P context.root line told := by
  obtain ⟨n, last, ended, reached, done, eq⟩ := walk_ends builtin line
  obtain rfl := Except.ok.inj (walked.symm.trans eq)
  have sound := reached.sound builtin
  have start := attempts.startTrail line
  have goesOn := fun (trail : Trail) (sound : trail.Sound line) (reports : trail.Reports P) =>
    attempts.offspring sound reports
  have frontier := reached.frontier_holds builtin start goesOn
  have terminals : ∀ trail ∈ last.allTerminals,
      trail.Reports P ∧ trail.Clean context.root line := fun trail mem =>
    ⟨(reached.allTerminals_hold builtin start goesOn trail mem).2.2,
      ((reached.clean builtin).2 trail mem).1⟩
  have generated := generation_generated builtin (Walk.startTrail context line) sound
  rw [done] at generated
  cases generated with
  | exhausted ends => exact tells_finish terminals (attempts.reportFirst start frontier)
  | stuck barren =>
    refine tells_finish terminals (attempts.failure start fun trail mem => ?_)
    rcases List.mem_map.1 mem with ⟨extension, found, rfl⟩
    rcases List.mem_flatMap.1 found with ⟨parent, inFrontier, memExtension⟩
    exact attempts.extensions (sound parent inFrontier) (frontier parent inFrontier) _ memExtension

/-! ## What is highlighted -/

/-- No attempt highlights anything empty, but for booleans that are missing. -/
theorem attempts_visible (builtin : context.kinds.IsBuiltin) :
    Attempts context Argument.VisibleBooleans where
  additive := Report.visibleBut_additive (· = Argument.Target.missingBoolean)
  remarks silent := (Report.visible_of_silent silent).but
  attempt {r word} valid found name node := by
    unfold attemptNode attemptLiteral attemptArgument
    split
    · have written := (valid.current found).2.2.2.1
      split
      · exact (Report.visible_token.2 written).but
      · exact Report.visible_empty.but
    · dsimp only
      split
      · exact Report.visible_error.but
      · rename_i parser known
        obtain ⟨kind, rfl⟩ := builtin.create?_eq_some known
        exact (kind.argument node.properties).read_visible context.registries valid

end Walk

/-- The errors of a trail that matched all its hops are about long spaces. -/
theorem Trail.Clean.message_eq {root : CommandNode} (clean : trail.Clean root line) :
    ∀ error ∈ trail.errors, error.message = Argument.extraSpace := by
  intro error mem
  rw [clean.errors] at mem
  obtain ⟨entry, -, spaces⟩ := List.mem_flatMap.1 mem
  obtain ⟨token, -, rfl⟩ := List.mem_map.1 spaces
  rfl

/-- An error of the report says of a place in advancements that a boolean is missing. -/
def LineReport.LacksBoolean (report : LineReport) (span : Span) : Prop :=
  .ofError ⟨span, Argument.Target.missingBoolean⟩ ∈ report.diagnostics

/-- What is empty stands where a failed walk lacks a boolean. -/
theorem Walk.Tells.visible {root : CommandNode} {told : LineReport}
    (tells : Tells Argument.VisibleBooleans root line told) :
    ∀ t ∈ told.tokens, t.span.start < t.span.stop ∨
      told.success = false ∧ t.kind = .keyword ∧ t.span.start = t.span.stop ∧
        told.LacksBoolean t.span := by
  obtain ⟨kind, chosen, others, rfl, reports, clean⟩ := tells
  intro t mem
  obtain ⟨hop, inHops, sorted⟩ := List.mem_flatMap.1 mem
  refine (reports hop inHops t (Report.mem_sortedTokens.1 sorted)).imp_right ?_
  rintro ⟨keyword, empty, ⟨span, message⟩, error, rfl, rfl⟩
  refine ⟨?_, keyword, empty, ?_⟩
  · -- A trail that matched all its hops has other errors only.
    refine eq_false_of_ne_true fun success => ?_
    have said := (clean success).message_eq _ (List.mem_flatMap.2 ⟨hop, inHops, error⟩)
    exact absurd said (by decide : Argument.Target.missingBoolean ≠ Argument.extraSpace)
  · refine List.mem_flatMap.2 ⟨hop, inHops, ?_⟩
    exact List.mem_append_left _ (List.mem_map_of_mem error)

end Trails

/-! ## An argument that does not match -/

/-- A tree whose only command is an argument, with the kinds of the library. -/
def Context.ofArgument (kind : String) : Context :=
  ⟨⟨.root, [("value", ⟨.argument, [], true, none, some kind, []⟩)], false, none, none, []⟩, .empty,
    .builtin⟩

/-- If only an argument may follow the root, and it does not match the first word, the walk
reports on that attempt. -/
theorem Walk.walk_of_missed (context : Context) (line : List Char) (word : Slice)
    (builtin : context.kinds.IsBuiltin) {name : String} {node : CommandNode}
    (only : context.root.effectiveChildren context.root = [(name, node)])
    (argument : node.isLiteral = false) (found : (firstReader line).current? = some ⟨word, false⟩)
    (missed : (attemptNode context name node word (firstReader line)).matched = false) :
    walk context line = .ok (report .failures ((startTrail context line).push
      (attemptNode context name node word (firstReader line))) []) := by
  have sound := startTrail_sound context line
  have root : (startTrail context line).node = context.root := rfl
  rw [← startTrail_reader context line] at found missed ⊢
  rw [walk, run]
  generalize startTrail context line = start at *
  have live : start.atEnd = false := atEnd_eq_false found
  have tried : extensions context start =
      [(true, start.push (attemptNode context name node word start.reader))] := by
    rw [extensions, currentWord?_of_current? found, root, only]
    rfl
  have tries := (attemptNode_tries context name node word start.reader).2
  generalize attemptNode context name node word start.reader = hop at *
  have barren : offspring context start = [] := by
    simp [offspring, tried, survives, Trail.push, missed]
  have explained : explain context (start.push hop) = start.push hop := by
    simp [explain, Trail.push, Trail.node, tries, argument]
  have frontier : State.Sound line ⟨[start], []⟩ := List.forall_mem_singleton.2 sound
  have generated := generation_generated builtin start frontier
  generalize generation context line start ⟨[start], []⟩ = progress at generated ⊢
  cases generated with
  | exhausted ends =>
    have ended := ends start (List.mem_singleton_self _)
    rw [live] at ended
    cases ended
  | stuck =>
    have terminals : State.allTerminals ⟨[start], []⟩ = [] := by
      simp [State.allTerminals, Trail.isTerminal, live]
    simp [terminals, finish, failure, tried, reportFailure, furthest, explained]
  | next fertile => exact absurd (by simp [barren]) fertile

/-- A criterion without a boolean: behind its sign an empty keyword is reported. -/
theorem walk_criterion : ∃ report,
    walk (.ofArgument "minecraft:entity") "@e[advancements=\x7ba=\x7d]".toList = .ok report ∧
      ⟨⟨19, 19⟩, .keyword⟩ ∈ report.tokens := by
  let line := "@e[advancements=\x7ba=\x7d]".toList
  have walked := Walk.walk_of_missed (.ofArgument "minecraft:entity") line ⟨line, 0⟩
    KindRegistry.builtin_isBuiltin rfl rfl (by decide +kernel) (by decide +kernel)
  refine ⟨_, walked, List.mem_flatMap.2 ⟨_, Trail.latest_mem_hops _, ?_⟩⟩
  rw [Report.mem_sortedTokens]
  decide +kernel

/-! ## What can be seen -/

/-- Every token that a walk reports is over some text, and so is every token that an editor
decodes, but for empty keywords of a walk that fails: an error at the same place says that a
boolean is missing in advancements. -/
theorem walk_tokens_visible (context : Context) (builtin : context.kinds.IsBuiltin)
    (line : List Char) (report : LineReport) (walked : walk context line = .ok report) :
    (∀ t ∈ report.tokens, t.span.start < t.span.stop ∨
      report.success = false ∧ t.kind = .keyword ∧ t.span.start = t.span.stop ∧
        report.LacksBoolean t.span) ∧
    ∀ number, ∀ seen ∈ LineToken.decode (LineToken.encode (report.tokens.map (⟨number, ·⟩))),
      0 < seen.length ∨
        report.success = false ∧ seen.kind = Highlight.keyword.index ∧ seen.length = 0 ∧
          report.LacksBoolean (.emptyAt seen.column) := by
  have tokens := (Walk.walk_reports builtin (Walk.attempts_visible builtin) walked).visible
  refine ⟨tokens, fun number seen mem => ?_⟩
  obtain ⟨t, inReport, rfl⟩ := LineToken.mem_decode_encode.1 mem
  obtain ⟨token, found, rfl⟩ := List.mem_map.1 inReport
  refine (tokens token found).imp Nat.sub_pos_of_lt ?_
  rintro ⟨failed, keyword, empty, lacks⟩
  refine ⟨failed, congrArg Highlight.index keyword, Nat.sub_eq_zero_of_le empty.ge, ?_⟩
  have place : Span.emptyAt token.span.start = token.span := congrArg (Span.mk _) empty
  exact place ▸ lacks

/-- An error stands where the boolean is missing. -/
theorem walk_tokens_visible_criterion :
    (Context.ofArgument "minecraft:entity").kinds.IsBuiltin ∧ ∃ report,
      walk (.ofArgument "minecraft:entity") "@e[advancements=\x7ba=\x7d]".toList = .ok report ∧
        report.success = false ∧ report.LacksBoolean ⟨19, 19⟩ := by
  obtain ⟨report, walked, mem⟩ := walk_criterion
  have builtin := KindRegistry.builtin_isBuiltin
  have visible := (walk_tokens_visible _ builtin _ report walked).1 _ mem
  rcases visible with positive | ⟨failed, -, -, lacks⟩
  · exact absurd positive (Nat.lt_irrefl 19)
  · exact ⟨builtin, report, walked, failed, lacks⟩

/-- The boolean that is missing there is highlighted all the same. -/
theorem walk_tokens_invisible :
    (Context.ofArgument "minecraft:entity").kinds.IsBuiltin ∧ ∃ report,
      walk (.ofArgument "minecraft:entity") "@e[advancements=\x7ba=\x7d]".toList = .ok report ∧
        (¬∀ t ∈ report.tokens, t.span.start < t.span.stop) ∧
          ¬∀ seen ∈ LineToken.decode (LineToken.encode (report.tokens.map (⟨0, ·⟩))),
            0 < seen.length := by
  obtain ⟨report, walked, mem⟩ := walk_criterion
  refine ⟨KindRegistry.builtin_isBuiltin, report, walked, fun visible => ?_, fun visible => ?_⟩
  · exact absurd (visible _ mem) (Nat.lt_irrefl 19)
  · have positive := visible _
      (LineToken.mem_decode_encode.2 ⟨_, List.mem_map_of_mem mem, rfl⟩)
    exact absurd positive (Nat.lt_irrefl 0)

end CommandScript

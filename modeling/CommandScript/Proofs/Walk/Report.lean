import CommandScript.Proofs.Walk.Run

/-!
What a walk reports stays on its line.

Every trail that a walk comes to fits its line (`Trail.Fits`), and so does every trail
that is only tried. The report on a walk is one of them with an error or two added,
so all its spans are covered by the line and its tokens lie behind one another
(`walk_fits`).
-/

namespace CommandScript

/-! ## Trails -/

namespace Walk

section Trails

variable {context : Context} {line : List Char} {trail : Trail}

theorem fits_remark {span : Span} (covers : (Slice.ofLine line).Covers span) (message : String)
    (fits : trail.Fits line) : (trail.add (.error span message)).Fits line :=
  fits.add (Report.fits_error covers message) rfl

/-- Nothing is highlighted in front of the first word. -/
theorem startTrail_silent (context : Context) (line : List Char) :
    (startTrail context line).latest.report.tokens = [] := by
  unfold startTrail
  cases Token.ofLine line with
  | nil => rfl
  | cons first others => cases space : first.isSpace <;> simp [space] <;> rfl

/-- Leading spaces are remarked on. -/
theorem startTrail_fits (context : Context) (line : List Char) :
    (startTrail context line).Fits line := by
  have sound := startTrail_sound context line
  have report : (startTrail context line).latest.report.Fits (Slice.ofLine line) := by
    unfold startTrail
    cases tokens : Token.ofLine line with
    | nil => exact Report.fits_empty _
    | cons first others =>
      have valid : (TokenReader.ofLine line).Valid := ⟨List.suffix_refl _, Nat.zero_le _⟩
      have found : (TokenReader.ofLine line).current? = some first := by
        rw [TokenReader.ofLine, TokenReader.ofTokens, TokenReader.current?, tokens]
        rfl
      dsimp only
      split
      · exact Report.fits_warning (valid.current_within found).covers _
      · exact Report.fits_empty _
  have hops : (startTrail context line).hops = [(startTrail context line).latest] := rfl
  have tokens : (startTrail context line).tokens = [] := by
    rw [Trail.tokens, hops, List.flatMap_singleton, Report.sortedTokens,
      startTrail_silent context line, List.mergeSort_nil]
  refine ⟨?_, ?_, ?_, ?_, ?_⟩
  · rw [hops]
    exact List.forall_mem_singleton.2 ⟨sound.valid, sound.sameLine⟩
  · rw [hops]
    exact List.forall_mem_singleton.2 report
  · rw [hops]
    exact List.forall_mem_singleton.2 (Slice.covers_emptyAt (.refl (Slice.ofLine line)))
  · rw [tokens]
    exact .nil
  · rw [tokens]
    intro token mem
    cases mem

/-- Whatever is tried after a trail stays on the line. -/
theorem extensions_fits (builtin : context.kinds.IsBuiltin) (sound : trail.Sound line)
    (fits : trail.Fits line) :
    ∀ extension ∈ extensions context trail, extension.2.Fits line := by
  intro extension mem
  cases extended_of_mem mem with
  | deadEnd =>
    have covers := sound.valid.remaining_covers
    rw [sound.sameLine] at covers
    exact fits_remark covers _ fits
  | @tried name node word found child =>
    have behind := attemptNode_behind builtin name node sound.valid found
    rw [sound.sameLine] at behind
    exact fits.push sound.valid behind

theorem offspring_fits (builtin : context.kinds.IsBuiltin) (sound : trail.Sound line)
    (fits : trail.Fits line) : ∀ next ∈ offspring context trail, next.Fits line := by
  intro next mem
  rcases List.mem_map.1 mem with ⟨extension, found, rfl⟩
  have extended := extensions_fits builtin sound fits extension (List.mem_filter.1 found).1
  obtain ⟨valid, sameLine⟩ := extended.readers _ extension.2.latest_mem_hops
  exact extended.passed valid sameLine

/-- An unknown literal is remarked on where it was tried. -/
theorem explain_fits (fits : trail.Fits line) : (explain context trail).Fits line := by
  unfold explain
  split
  · rename_i parent earlier eq
    split
    · have mem : parent ∈ trail.hops := by
        rw [Trail.hops_eq, eq]
        simp
      obtain ⟨valid, sameLine⟩ := fits.readers parent mem
      have covers := valid.remaining_covers
      rw [sameLine] at covers
      exact fits_remark covers _ fits
    · exact fits
  · exact fits

end Trails

/-! ## States -/

section States

variable {context : Context} {line : List Char} {n : Nat} {state : State}

/-- All trails of a state stay on the line. -/
structure State.Fits (line : List Char) (state : State) : Prop where
  frontier : ∀ trail ∈ state.frontier, trail.Fits line
  terminals : ∀ trail ∈ state.terminals, trail.Fits line

theorem State.Fits.allTerminals (fits : state.Fits line) :
    ∀ trail ∈ state.allTerminals, trail.Fits line :=
  List.forall_mem_append.2
    ⟨fits.terminals, fun trail mem => fits.frontier trail (List.mem_filter.1 mem).1⟩

theorem Reached.fits (builtin : context.kinds.IsBuiltin)
    (reached : Reached context line n state) : state.Fits line := by
  have start := startTrail_fits context line
  have goesOn := fun (trail : Trail) (sound : trail.Sound line) (fits : trail.Fits line) =>
    offspring_fits builtin sound fits
  refine ⟨reached.frontier_holds builtin start goesOn, fun trail mem => ?_⟩
  exact (reached.allTerminals_hold builtin start goesOn trail (List.mem_append_left _ mem)).2.2

end States

end Walk

/-! ## Reports -/

/-- All spans of a report are covered by the line, and its tokens lie behind one
another. -/
structure LineReport.Fits (line : List Char) (report : LineReport) : Prop where
  diagnostics : ∀ d ∈ report.diagnostics, (Slice.ofLine line).Covers d.span
  tokens : ∀ t ∈ report.tokens, (Slice.ofLine line).Covers t.span
  ordered : report.tokens.Pairwise SemanticToken.EndsBefore
  path : ∀ entry ∈ report.path, (Slice.ofLine line).Covers entry.span
  alternatives : ∀ ambiguity ∈ report.ambiguity, ∀ path ∈ ambiguity.alternatives,
    ∀ entry ∈ path, (Slice.ofLine line).Covers entry.span

theorem Report.Fits.diagnostics {r : Report} {s : Slice} (fits : r.Fits s) :
    ∀ d ∈ r.diagnostics, s.Covers d.span := by
  intro d mem
  rcases List.mem_append.1 mem with mem | mem
  · rcases List.mem_map.1 mem with ⟨remark, found, rfl⟩
    exact fits.errors remark found
  · rcases List.mem_map.1 mem with ⟨remark, found, rfl⟩
    exact fits.warnings remark found

namespace Walk

section Reports

variable {context : Context} {line : List Char}

theorem path_covers {trail : Trail} (fits : trail.Fits line) :
    ∀ entry ∈ trail.path, (Slice.ofLine line).Covers entry.span := by
  intro entry mem
  rcases List.mem_map.1 mem with ⟨hop, found, rfl⟩
  exact fits.spans hop (List.mem_of_mem_drop found)

theorem report_fits (kind : AmbiguityKind) {chosen : Trail} {others : List Trail}
    (fits : chosen.Fits line) (othersFit : ∀ other ∈ others, other.Fits line) :
    (report kind chosen others).Fits line where
  diagnostics d mem := by
    rcases List.mem_flatMap.1 mem with ⟨hop, found, memHop⟩
    exact (fits.reports hop found).diagnostics d memHop
  tokens t mem := by
    rcases List.mem_flatMap.1 mem with ⟨hop, found, memHop⟩
    exact (fits.reports hop found).tokens t (Report.mem_sortedTokens.1 memHop)
  ordered := fits.ordered
  path := path_covers fits
  alternatives ambiguity mem path memPath := by
    unfold report at mem
    dsimp only at mem
    split at mem
    · cases mem
    · obtain rfl := Option.some.inj mem
      rcases List.mem_map.1 memPath with ⟨other, found, rfl⟩
      exact path_covers (othersFit other found)

theorem reportFirst_fits (kind : AmbiguityKind) {fallback : Trail} {trails : List Trail}
    (fallbackFits : fallback.Fits line) (fits : ∀ trail ∈ trails, trail.Fits line) :
    (reportFirst kind fallback trails).Fits line := by
  cases trails with
  | nil => exact report_fits kind fallbackFits nofun
  | cons chosen others =>
    rcases List.forall_mem_cons.1 fits with ⟨first, rest⟩
    exact report_fits kind first rest

theorem finish_fits {terminals : List Trail} {otherwise : LineReport}
    (fits : ∀ trail ∈ terminals, trail.Fits line) (otherwiseFits : otherwise.Fits line) :
    (finish terminals otherwise).Fits line := by
  cases terminals with
  | nil => exact otherwiseFits
  | cons chosen others =>
    rcases List.forall_mem_cons.1 fits with ⟨first, rest⟩
    exact report_fits .terminals first rest

theorem incomplete_fits {frontier : List Trail} (fits : ∀ trail ∈ frontier, trail.Fits line) :
    ∀ trail ∈ incomplete line frontier, trail.Fits line := by
  intro trail mem
  rcases List.mem_map.1 mem with ⟨short, found, rfl⟩
  have whole : (Slice.ofLine line).span = .upTo (byteLength line) :=
    congrArg (Span.mk 0) (TokenReader.line_stop line)
  exact fits_remark (whole ▸ Slice.covers_self _) _ (fits short (List.mem_filter.1 found).1)

/-- The trail that read furthest and the others are the given ones. -/
theorem furthest_all {P : Trail → Prop} {first : Trail} {trails : List Trail} (holds : P first)
    (rest : ∀ trail ∈ trails, P trail) :
    P (furthest first trails).1 ∧ ∀ trail ∈ (furthest first trails).2, P trail := by
  induction trails generalizing first with
  | nil => exact ⟨holds, nofun⟩
  | cons next trails ih =>
    rcases List.forall_mem_cons.1 rest with ⟨nextHolds, later⟩
    obtain ⟨best, others⟩ := ih nextHolds later
    rw [furthest]
    dsimp only
    split
    · exact ⟨best, List.forall_mem_cons.2 ⟨holds, others⟩⟩
    · exact ⟨holds, rest⟩

theorem failure_fits {start : Trail} {attempts : List Trail} (startFits : start.Fits line)
    (fits : ∀ trail ∈ attempts, trail.Fits line) : (failure context start attempts).Fits line := by
  cases attempts with
  | nil => exact report_fits .failures startFits nofun
  | cons first others =>
    rcases List.forall_mem_cons.1 fits with ⟨firstFits, othersFit⟩
    obtain ⟨chosen, rest⟩ := furthest_all firstFits othersFit
    exact report_fits .failures (explain_fits chosen) rest

end Reports

end Walk

/-- What a walk reports stays on its line. -/
theorem walk_fits {context : Context} {line : List Char} {report : LineReport}
    (builtin : context.kinds.IsBuiltin) (walked : walk context line = .ok report) :
    report.Fits line := by
  obtain ⟨n, last, ended, reached, done, eq⟩ := Walk.walk_ends builtin line
  obtain rfl := Except.ok.inj (walked.symm.trans eq)
  have sound := reached.sound builtin
  have fits := reached.fits builtin
  have start := Walk.startTrail_fits context line
  have generated := Walk.generation_generated builtin (Walk.startTrail context line) sound
  rw [done] at generated
  cases generated with
  | exhausted ends =>
    exact Walk.finish_fits fits.allTerminals
      (Walk.reportFirst_fits .incomplete start (Walk.incomplete_fits fits.frontier))
  | stuck barren =>
    apply Walk.finish_fits fits.allTerminals (Walk.failure_fits start _)
    intro trail mem
    rcases List.mem_map.1 mem with ⟨extension, found, rfl⟩
    rcases List.mem_flatMap.1 found with ⟨parent, inFrontier, memExtension⟩
    exact Walk.extensions_fits builtin (sound parent inFrontier) (fits.frontier parent inFrontier)
      extension memExtension

/-- The tokens that a walk reports never overlap, whether it succeeds or not: every one
ends before the next begins, hence they are ordered by where they begin. -/
theorem walk_tokens_ordered (context : Context) (builtin : context.kinds.IsBuiltin)
    (line : List Char) (report : LineReport) (walked : walk context line = .ok report) :
    report.tokens.Pairwise (fun t u => t.span.stop ≤ u.span.start) ∧
      report.tokens.Pairwise fun t u => t.span.start ≤ u.span.start := by
  have fits := walk_fits builtin walked
  refine ⟨fits.ordered, fits.ordered.imp_of_mem ?_⟩
  intro t u mem _ ends
  exact Nat.le_trans (fits.tokens t mem).bounds.2.1 ends

theorem walk_tokens_ordered_literal :
    (Context.ofLiteral "stop").kinds.IsBuiltin ∧
      ∃ report, walk (Context.ofLiteral "stop") "stop now".toList = .ok report ∧
        report.tokens.Pairwise fun t u => t.span.stop ≤ u.span.start := by
  have builtin := Context.ofLiteral_isBuiltin "stop"
  obtain ⟨-, -, report, -, -, walked⟩ := Walk.walk_ends builtin "stop now".toList
  have ordered := walk_tokens_ordered (Context.ofLiteral "stop") builtin _ report walked
  exact ⟨builtin, report, walked, ordered.1⟩

end CommandScript

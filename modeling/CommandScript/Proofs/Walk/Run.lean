import CommandScript.Proofs.Walk.Generation

/-!
Whole walks.

A walk goes through the states of `Walk.Reached`, all of them sound, since the trail
in front of the first word is. Every generation passes a token on each of its trails
(`Walk.Reached.further`), so a walk ends before it runs out of generations, whatever
kinds of arguments there are (`walk_terminates`). With those of the library it never
loses step with the tokens of its line (`walk_in_step`).
-/

namespace CommandScript

open TokenReader

/-! ## Small trees -/

/-- A tree whose only command is one literal, with the kinds of the library. -/
def Context.ofLiteral (name : String) : Context :=
  ⟨⟨.root, [(name, ⟨.literal, [], true, none, none, []⟩)], false, none, none, []⟩, .empty, .builtin⟩

/-- A tree whose only command is one literal after another, with the kinds of the
library. -/
def Context.ofPair (first second : String) : Context :=
  ⟨⟨.root, [(first, ⟨.literal, [(second, ⟨.literal, [], true, none, none, []⟩)], false, none, none,
    []⟩)], false, none, none, []⟩, .empty, .builtin⟩

/-- A tree with two commands, either of them a literal, with the kinds of the library. -/
def Context.ofEither (first second : String) : Context :=
  ⟨⟨.root, [(first, ⟨.literal, [], true, none, none, []⟩),
    (second, ⟨.literal, [], true, none, none, []⟩)], false, none, none, []⟩, .empty, .builtin⟩

theorem Context.ofLiteral_isBuiltin (name : String) : (ofLiteral name).kinds.IsBuiltin :=
  KindRegistry.builtin_isBuiltin

namespace Walk

/-! ## States -/

/-- The states that a walk comes to, by the number of generations before. -/
inductive Reached (context : Context) (line : List Char) : Nat → State → Prop where
  | start : Reached context line 0 ⟨[startTrail context line], []⟩
  | next {n : Nat} {state after : State} (reached : Reached context line n state)
    (step : generation context line (startTrail context line) state = .ok (.next after)) :
    Reached context line (n + 1) after

section Reached

variable {context : Context} {line : List Char} {n : Nat} {state : State}

/-! ## The first word -/

/-- The reader in front of the first word of a line, past leading spaces. -/
def firstReader (line : List Char) : TokenReader :=
  match Token.ofLine line with
  | first :: others => if first.isSpace then .ofTokens others line else .ofLine line
  | [] => .ofLine line

theorem startTrail_reader (context : Context) (line : List Char) :
    (startTrail context line).reader = firstReader line := by
  unfold startTrail firstReader TokenReader.ofLine
  cases tokens : Token.ofLine line with
  | nil => rfl
  | cons first others =>
    cases space : first.isSpace <;> simp [space, Trail.reader]

theorem firstReader_sound (line : List Char) :
    (firstReader line).Valid ∧ (firstReader line).line = line ∧ (firstReader line).AtWord := by
  have tiles := Token.ofLine_tiles line
  unfold firstReader TokenReader.ofLine
  cases tokens : Token.ofLine line with
  | nil =>
    refine ⟨⟨?_, Nat.le_refl _⟩, rfl, nofun⟩
    simp only [ofTokens, tokens]
    exact List.suffix_refl _
  | cons first others =>
    rw [tokens] at tiles
    cases tiles with
    | cons starts nonempty turns later =>
      dsimp only
      split
      · rename_i space
        refine ⟨⟨?_, Nat.zero_le _⟩, rfl, fun next mem => ?_⟩
        · simp only [ofTokens, tokens]
          exact List.suffix_cons _ _
        · rw [current?, ofTokens, ← List.head?_eq_getElem?] at mem
          have turn := turns next mem
          rw [space] at turn
          exact eq_false_of_ne_true turn
      · rename_i word
        refine ⟨⟨?_, Nat.zero_le _⟩, rfl, fun next mem => ?_⟩
        · simp only [ofTokens, tokens]
          exact List.suffix_refl _
        · obtain rfl := Option.some.inj mem
          exact eq_false_of_ne_true word

theorem startTrail_sound (context : Context) (line : List Char) :
    (startTrail context line).Sound line := by
  obtain ⟨valid, sameLine, atWord⟩ := firstReader_sound line
  rw [← startTrail_reader context line] at valid sameLine atWord
  exact ⟨valid, sameLine, atWord⟩

/-! ## Generations -/

/-- The trails of a state stand at words or at the end, and each of them has passed a token in
every generation before. -/
theorem Reached.further (forward : context.kinds.IsForward)
    (reached : Reached context line n state) :
    state.frontier ≠ [] ∧ ∀ trail ∈ state.frontier, trail.Sound line ∧
      n ≤ trail.reader.index ∧ trail.reader.tokens = (startTrail context line).reader.tokens := by
  induction reached with
  | start =>
    refine ⟨List.cons_ne_nil _ _, List.forall_mem_singleton.2 ⟨?_, Nat.zero_le _, rfl⟩⟩
    exact startTrail_sound context line
  | next reached step ih =>
    obtain ⟨fertile, goOn⟩ := goesOn_of_next step
    refine ⟨fertile, fun next mem => ?_⟩
    obtain ⟨trail, inFrontier, goesOn⟩ := goOn next mem
    obtain ⟨sound, past, tokens⟩ := ih.2 trail inFrontier
    obtain ⟨nextSound, further, sameTokens, -⟩ := goesOn.sound forward sound
    exact ⟨nextSound, Nat.lt_of_le_of_lt past further, sameTokens.trans tokens⟩

theorem Reached.sound (builtin : context.kinds.IsBuiltin)
    (reached : Reached context line n state) : state.Sound line :=
  fun trail mem => ((reached.further builtin.isForward).2 trail mem).1

/-- What holds of the trail in front of the first word, and of whatever goes on from a trail if
it holds of that one, holds of the frontier of every state. -/
theorem Reached.frontier_holds {P : Trail → Prop} (builtin : context.kinds.IsBuiltin)
    (start : P (startTrail context line))
    (goesOn : ∀ trail, trail.Sound line → P trail → ∀ next ∈ offspring context trail, P next)
    (reached : Reached context line n state) : ∀ trail ∈ state.frontier, P trail := by
  induction reached with
  | start => exact List.forall_mem_singleton.2 start
  | next reached step ih =>
    have sound := reached.sound builtin
    have generated := generation_generated builtin (startTrail context line) sound
    rw [step] at generated
    cases generated with
    | next fertile =>
      intro next mem
      obtain ⟨trail, inFrontier, memOffspring⟩ := List.mem_flatMap.1 mem
      exact goesOn trail (sound trail inFrontier) (ih trail inFrontier) next memOffspring

/-- It holds of the terminals as well, which stand at the end of a command. -/
theorem Reached.allTerminals_hold {P : Trail → Prop} (builtin : context.kinds.IsBuiltin)
    (start : P (startTrail context line))
    (goesOn : ∀ trail, trail.Sound line → P trail → ∀ next ∈ offspring context trail, P next)
    (reached : Reached context line n state) :
    ∀ trail ∈ state.allTerminals, trail.Sound line ∧ trail.isTerminal = true ∧ P trail := by
  have ofFrontier : ∀ {n state}, Reached context line n state →
      ∀ trail ∈ state.frontier.filter Trail.isTerminal,
        trail.Sound line ∧ trail.isTerminal = true ∧ P trail := by
    intro n state reached trail mem
    obtain ⟨inFrontier, terminal⟩ := List.mem_filter.1 mem
    exact ⟨reached.sound builtin trail inFrontier, terminal,
      reached.frontier_holds builtin start goesOn trail inFrontier⟩
  induction reached with
  | start => exact ofFrontier .start
  | next reached step ih =>
    have generated := generation_generated builtin (startTrail context line)
      (reached.sound builtin)
    refine List.forall_mem_append.2 ⟨?_, ofFrontier (reached.next step)⟩
    rw [step] at generated
    cases generated with
    | next fertile => exact ih

/-- There are no more generations than tokens before any state. -/
theorem Reached.le_length (forward : context.kinds.IsForward)
    (reached : Reached context line n state) :
    n ≤ (startTrail context line).reader.tokens.length := by
  obtain ⟨fertile, further⟩ := reached.further forward
  obtain ⟨trail, mem⟩ := List.exists_mem_of_ne_nil _ fertile
  obtain ⟨sound, past, tokens⟩ := further trail mem
  exact tokens ▸ Nat.le_trans past sound.valid.index

/-! ## Ends -/

/-- The outcome of a walk whose last generation is given: it broke off, or it reported. -/
inductive Ends : Except WalkError Progress → Except WalkError LineReport → Prop where
  | broken (error : WalkError) : Ends (.error error) (.error error)
  | reported (report : LineReport) : Ends (.ok (.done report)) (.ok report)

/-- With a generation left for every token that is not passed yet, and one more, a walk ends. -/
theorem run_ends (forward : context.kinds.IsForward) {fuel : Nat}
    (reached : Reached context line n state)
    (enough : (startTrail context line).reader.tokens.length < n + fuel) :
    ∃ n last outcome, Reached context line n last ∧
      Ends (generation context line (startTrail context line) last) outcome ∧
        run context line (startTrail context line) fuel state = some outcome := by
  induction fuel generalizing n state with
  | zero => exact absurd (reached.le_length forward) (Nat.not_le.2 enough)
  | succ fuel ih =>
    rw [run]
    cases step : generation context line (startTrail context line) state with
    | error error => exact ⟨n, state, _, reached, step ▸ .broken error, rfl⟩
    | ok progress =>
      cases progress with
      | done report => exact ⟨n, state, _, reached, step ▸ .reported report, rfl⟩
      | next after => exact ih (reached.next step) (by omega)

/-- Every walk ends with the outcome of a generation that it comes to. -/
theorem walk_ends_forward (forward : context.kinds.IsForward) (line : List Char) :
    ∃ n last, Reached context line n last ∧
      Ends (generation context line (startTrail context line) last) (walk context line) := by
  obtain ⟨n, last, outcome, reached, ends, ran⟩ := run_ends forward
    (Reached.start : Reached context line 0 _) (Nat.lt_add_left _ (Nat.lt_succ_self _))
  rw [walk, ran]
  exact ⟨n, last, reached, ends⟩

theorem walk_eq_ok_iff {report : LineReport} : walk context line = .ok report ↔
    run context line (startTrail context line)
      ((startTrail context line).reader.tokens.length + 1) ⟨[startTrail context line], []⟩ =
        some (.ok report) := by
  rw [walk]
  generalize run context line _ _ _ = outcome
  cases outcome <;> simp

/-- With kinds of the library every walk ends with a report. -/
theorem walk_ends (builtin : context.kinds.IsBuiltin) (line : List Char) :
    ∃ n last report, Reached context line n last ∧
      generation context line (startTrail context line) last = .ok (.done report) ∧
        walk context line = .ok report := by
  obtain ⟨n, last, reached, ends⟩ := walk_ends_forward builtin.isForward line
  have generated := generation_generated builtin (startTrail context line) (reached.sound builtin)
  generalize step : generation context line (startTrail context line) last = outcome
    at ends generated
  generalize walked : walk context line = result at ends
  cases ends with
  | broken error => cases generated
  | reported report => exact ⟨n, last, report, reached, step, rfl⟩

end Reached

end Walk

/-! ## Termination -/

/-- A walk ends after at most one generation more than its line has tokens, whatever the tree and
whatever the kinds, as long as these read forward. Its last generation reports or breaks off, and
so does the walk. Whatever survives a generation is one hop longer than some trail that came into
it, and its reader stands further on. -/
theorem walk_terminates (context : Context) (forward : context.kinds.IsForward)
    (line : List Char) :
    (∃ n last, n ≤ (Token.ofLine line).length ∧ Walk.Reached context line n last ∧
      Walk.Ends (Walk.generation context line (Walk.startTrail context line) last)
        (walk context line)) ∧
    (∀ n state, Walk.Reached context line n state → n ≤ (Token.ofLine line).length) ∧
    ∀ n state after, Walk.Reached context line n state →
      Walk.generation context line (Walk.startTrail context line) state = .ok (.next after) →
        ∀ next ∈ after.frontier, ∃ trail ∈ state.frontier,
          next.earlier = trail.latest :: trail.earlier ∧
            trail.reader.index < next.reader.index := by
  have start := Walk.startTrail_sound context line
  have tokens : (Walk.startTrail context line).reader.tokens.length ≤
      (Token.ofLine line).length := by
    have suffix := start.valid.tokens
    rw [start.sameLine] at suffix
    exact suffix.length_le
  have bound : ∀ n state, Walk.Reached context line n state →
      n ≤ (Token.ofLine line).length := fun n state reached =>
    Nat.le_trans (reached.le_length forward) tokens
  refine ⟨?_, bound, fun n state after reached step next mem => ?_⟩
  · obtain ⟨n, last, reached, ends⟩ := Walk.walk_ends_forward forward line
    exact ⟨n, last, bound n last reached, reached, ends⟩
  · obtain ⟨trail, inFrontier, goesOn⟩ := (Walk.goesOn_of_next step).2 next mem
    have sound := ((reached.further forward).2 trail inFrontier).1
    obtain ⟨-, further, -, earlier⟩ := goesOn.sound forward sound
    exact ⟨trail, inFrontier, earlier, further⟩

/-- Behind a literal that leads back to the root, an argument that reads nothing breaks the walk
off in its second generation. -/
theorem walk_terminates_idle :
    let idle : Kind := ⟨fun _ => ⟨fun _ r => ⟨r, ∅⟩, fun _ => [], []⟩, []⟩
    let argument : CommandNode := ⟨.argument, [], false, none, some "idle", []⟩
    let run : CommandNode := ⟨.literal, [("x", argument)], false, some [], none, []⟩
    let context : Context := ⟨⟨.root, [("run", run)], false, none, none, []⟩, .empty,
      KindRegistry.empty.register "idle" idle⟩
    context.kinds.IsForward ∧ walk context "run a".toList = .error ⟨4⟩ ∧
      ∃ n last, n ≤ 3 ∧ Walk.Reached context "run a".toList n last ∧
        Walk.Ends (Walk.generation context "run a".toList
          (Walk.startTrail context "run a".toList) last) (.error ⟨4⟩) := by
  intro idle argument run context
  have forward : context.kinds.IsForward := by
    intro name properties parser found registries r valid _
    obtain ⟨kind, known, rfl⟩ := Option.map_eq_some_iff.1 found
    have entries : context.kinds.entries = [("idle", idle)] := rfl
    rw [KindRegistry.get?, entries, List.lookup_cons] at known
    split at known
    · obtain rfl := Option.some.inj known
      exact valid.ahead_self
    · cases known
  have outcome : walk context "run a".toList = .error ⟨4⟩ := rfl
  have terminates := (walk_terminates context forward "run a".toList).1
  rw [outcome] at terminates
  exact ⟨forward, outcome, terminates⟩

/-! ## In step -/

/-- A walk never loses step with the tokens of its line: it ends with a report, every
trail that is extended in any generation stands on a word, and a kind of the library
that is read at a word of a line without an error leaves its reader in front of spaces
or past the last token. -/
theorem walk_in_step (context : Context) (builtin : context.kinds.IsBuiltin) (line : List Char) :
    (∃ report, walk context line = .ok report) ∧
      (∀ n state, Walk.Reached context line n state → ∀ trail ∈ state.frontier,
        trail.atEnd = false → ∃ word, trail.reader.current? = some ⟨word, false⟩) ∧
      ∀ (kind : BuiltinKind) (properties : Properties) (registries : Registries)
        (r : TokenReader) (word : Slice), r.Valid → r.current? = some ⟨word, false⟩ →
          let outcome := (kind.kind.build properties).read registries r
          outcome.report.success = true →
            ∀ token, outcome.value.current? = some token → token.isSpace = true := by
  refine ⟨?_, ?_, ?_⟩
  · obtain ⟨-, -, report, -, -, walked⟩ := Walk.walk_ends builtin line
    exact ⟨report, walked⟩
  · intro n state reached trail mem live
    obtain ⟨word, found⟩ := (reached.sound builtin trail mem).atWord.currentWord?_eq_some live
    exact ⟨word, currentWord?_eq_some found⟩
  · intro kind properties registries r word valid found outcome _ token current
    have atWord := atWord_of_current? found
    exact ((kind.argument properties).read_reads registries valid atWord).separated token current

theorem walk_in_step_literal :
    (Context.ofLiteral "stop").kinds.IsBuiltin ∧
      ∃ report, walk (Context.ofLiteral "stop") "stop now".toList = .ok report :=
  ⟨Context.ofLiteral_isBuiltin "stop",
    (walk_in_step (Context.ofLiteral "stop") (Context.ofLiteral_isBuiltin "stop")
      "stop now".toList).1⟩

end CommandScript

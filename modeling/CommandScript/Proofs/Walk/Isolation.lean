import CommandScript.Proofs.Grammar
import CommandScript.Proofs.Walk.Search

/-!
Failed alternatives leave no trace.

Two walks of one line, the second through the tree without a child at which no attempt
of the first matched, go through the same generations: their trails are twins
(`Walk.Twins`), the same hop by hop but for the nodes, and so are what goes on from
them (`Walk.offspring_twins`), since an attempt looks at nothing of a node that the
erasure changes. A walk that succeeds then reports the same in both trees
(`walk_without_failed`).
-/

namespace CommandScript

/-! ## Reports of two trees -/

/-- An entry of a path without its node. -/
def PathEntry.outline (entry : PathEntry) : String × Span × Bool :=
  (entry.name, entry.span, entry.matched)

/-- The kind of an ambiguity and the outlines of the paths. -/
def Ambiguity.outline (ambiguity : Ambiguity) :
    AmbiguityKind × List (List (String × Span × Bool)) :=
  (ambiguity.kind, ambiguity.alternatives.map fun path => path.map PathEntry.outline)

/-- Two reports say the same of a line, but for the nodes of their trees. -/
structure LineReport.Agrees (report other : LineReport) : Prop where
  success : other.success = report.success
  diagnostics : other.diagnostics = report.diagnostics
  tokens : other.tokens = report.tokens
  path : other.path.map PathEntry.outline = report.path.map PathEntry.outline
  ambiguity : other.ambiguity.map Ambiguity.outline = report.ambiguity.map Ambiguity.outline

/-- The context with a child erased from its tree. -/
def Context.erase (context : Context) (parent : List String) (name : String) : Context :=
  { context with root := context.root.eraseAt name parent }

namespace Walk

/-! ## Attempts at a child -/

/-- Where the node of a trail stands in the tree: the root at its top, and every other
node at the place where it follows the one before. -/
inductive Stands (root : CommandNode) : Trail → List String → Prop where
  | root {hop : Hop} (top : hop.node = root) : Stands root ⟨hop, []⟩ []
  | follower {trail : Trail} {hop : Hop} {place parent : List String}
    (before : Stands root trail place)
    (follows : ⟨parent, hop.name, hop.node⟩ ∈ trail.node.followersAt root place) :
    Stands root (trail.push hop) (parent ++ [hop.name])

/-- The attempts of a walk at the child of a name below the node at a path: those after
a trail of any frontier that the child may follow. -/
inductive Attempted (context : Context) (line : List Char) (parent : List String)
    (name : String) : Hop → Prop where
  | tried {n : Nat} {state : State} {trail : Trail} {place : List String} {word : Slice}
    {node : CommandNode} (reached : Reached context line n state) (mem : trail ∈ state.frontier)
    (stands : Stands context.root trail place)
    (follows : ⟨parent, name, node⟩ ∈ trail.node.followersAt context.root place)
    (found : trail.reader.currentWord? = some word) :
    Attempted context line parent name (attemptNode context name node word trail.reader)

section Attempts

variable {context : Context} {line : List Char} {parent : List String} {name : String}

theorem Stands.occurs {root : CommandNode} {trail : Trail} {place : List String}
    (stands : Stands root trail place) : root.Occurs trail.node := by
  induction stands with
  | root top => exact top ▸ CommandNode.occurs_root _
  | follower _ follows ih => exact ih.follower follows

/-- The node of an attempt may follow some node of the tree. -/
theorem Attempted.follows {hop : Hop} (attempted : Attempted context line parent name hop) :
    ∃ node place, context.root.Occurs node ∧
      ⟨parent, name, hop.node⟩ ∈ node.followersAt context.root place := by
  cases attempted with
  | @tried n state trail place word node reached mem stands follows found =>
    rw [(attemptNode_tries ..).2]
    exact ⟨trail.node, place, stands.occurs, follows⟩

/-- A literal that is no word of the line never matches. -/
theorem Attempted.missed {hop : Hop} (builtin : context.kinds.IsBuiltin)
    (attempted : Attempted context line parent name hop) (isLiteral : hop.node.isLiteral = true)
    (absent : ∀ token ∈ Token.ofLine line, token.slice.text ≠ name.toList) :
    hop.matched = false := by
  cases attempted with
  | @tried n state trail place word node reached mem stands follows found =>
    have sound := reached.sound builtin trail mem
    have onLine := sound.valid.mem_of_current? (TokenReader.currentWord?_eq_some found)
    rw [sound.sameLine] at onLine
    have differs : word.is name = false := beq_eq_false_iff_ne.2 (absent _ onLine)
    rw [(attemptNode_tries ..).2] at isLiteral
    simp [attemptNode, attemptLiteral, isLiteral, differs]

end Attempts

/-! ## Twins -/

/-- Two hops are the same but for their nodes. -/
def Alike (hop other : Hop) : Prop :=
  ∃ node, other = { hop with node := node }

/-- Two trails took the same hops, the second through the tree without a child. -/
structure Twins (context : Context) (parent : List String) (name : String)
    (trail other : Trail) : Prop where
  hops : List.Forall₂ Alike (trail.latest :: trail.earlier) (other.latest :: other.earlier)
  stands : ∃ place, Stands context.root trail place ∧
    other.node = trail.node.erasedAt name parent place
  occurs : (context.erase parent name).root.Occurs other.node

/-- The hop after the separator behind it. -/
def passedHop (hop : Hop) : Hop :=
  match hop.reader.current? with
  | some token =>
    if token.isSpace then
      { hop.add (Argument.checkSeparator token).report with reader := hop.reader.advance }
    else
      hop
  | none => hop

/-- Past the separator only the latest hop changes. -/
theorem passed_push (trail : Trail) (hop : Hop) :
    (trail.push hop).passed = trail.push (passedHop hop) := by
  unfold Trail.passed passSeparator passedHop
  cases found : hop.reader.current? with
  | none => simp [Trail.push, Trail.reader, found]
  | some token =>
    cases space : token.isSpace <;> simp [Trail.push, Trail.reader, Trail.add, found, space]

section Twins

variable {context : Context} {line : List Char} {parent : List String} {name : String}
  {trail other : Trail} {hop twin : Hop}

theorem Alike.passed (alike : Alike hop twin) : Alike (passedHop hop) (passedHop twin) := by
  rcases alike with ⟨node, rfl⟩
  unfold passedHop
  dsimp only
  split
  · split <;> exact ⟨node, rfl⟩
  · exact ⟨node, rfl⟩

/-- An attempt does not look at the children of a node. -/
theorem attemptNode_erasedAt (place : List String) (key : String) (node : CommandNode)
    (word : Slice) (reader : TokenReader) :
    attemptNode (context.erase parent name) key (node.erasedAt name parent place) word reader =
      { attemptNode context key node word reader with
        node := node.erasedAt name parent place } := by
  obtain ⟨kind, -, -, parser, properties⟩ := node.erasedAt_fields name parent place
  unfold attemptNode attemptLiteral attemptArgument CommandNode.isLiteral Context.erase
  rw [kind, parser, properties]
  dsimp only
  split
  · split <;> rfl
  · split <;> rfl

theorem passedHop_fields (hop : Hop) :
    (passedHop hop).name = hop.name ∧ (passedHop hop).node = hop.node := by
  unfold passedHop
  split
  · split <;> exact ⟨rfl, rfl⟩
  · exact ⟨rfl, rfl⟩

namespace Twins

theorem reader (twins : Twins context parent name trail other) : other.reader = trail.reader := by
  have hops := twins.hops
  rcases trail with ⟨latest, earlier⟩
  rcases other with ⟨twin, before⟩
  cases hops with
  | cons alike _ =>
    rcases alike with ⟨node, rfl⟩
    rfl

/-- What follows the second trail is what follows the first, less the child. -/
theorem followersAt (resolves : (context.erase parent name).root.RedirectsResolve)
    (twins : Twins context parent name trail other) {place : List String}
    (node : other.node = trail.node.erasedAt name parent place) :
    other.node.followersAt (context.erase parent name).root place =
      (trail.node.followersAt context.root place).filterMap (Follower.erased? name parent) := by
  obtain ⟨path, occurs⟩ := twins.occurs
  obtain ⟨-, -, redirect, -, -⟩ := trail.node.erasedAt_fields name parent place
  rw [node] at occurs ⊢
  refine CommandNode.followersAt_erasedAt fun target redirects => ?_
  exact resolves _ occurs target (redirect.trans redirects)

/-- Twins that pass a hop to a node that is left, and the separator behind it, are twins
again. -/
theorem push (twins : Twins context parent name trail other) {place above : List String}
    (stands : Stands context.root trail place)
    (follows : ⟨above, hop.name, hop.node⟩ ∈ trail.node.followersAt context.root place)
    (occurs : (context.erase parent name).root.Occurs
      (hop.node.erasedAt name parent (above ++ [hop.name]))) :
    Twins context parent name (trail.push hop).passed
      (other.push { hop with
        node := hop.node.erasedAt name parent (above ++ [hop.name]) }).passed := by
  obtain ⟨key, node⟩ := passedHop_fields hop
  obtain ⟨-, twinNode⟩ := passedHop_fields
    { hop with node := hop.node.erasedAt name parent (above ++ [hop.name]) }
  rw [passed_push, passed_push]
  refine ⟨.cons (Alike.passed ⟨_, rfl⟩) twins.hops, ⟨above ++ [hop.name], ?_, ?_⟩, ?_⟩
  · rw [← key, ← node] at follows
    rw [← key]
    exact .follower stands follows
  · refine twinNode.trans ?_
    rw [← node]
    rfl
  · show (context.erase parent name).root.Occurs (passedHop _).node
    rw [twinNode]
    exact occurs

end Twins

variable {n : Nat} {state : State}

/-- What goes on from twins are twins, in the same order. -/
theorem offspring_twins (unmatched : ∀ hop, Attempted context line parent name hop →
      hop.matched = false)
    (resolves : (context.erase parent name).root.RedirectsResolve)
    (reached : Reached context line n state) (mem : trail ∈ state.frontier)
    (sound : trail.Sound line) (twins : Twins context parent name trail other) :
    List.Forall₂ (Twins context parent name) (offspring context trail)
      (offspring (context.erase parent name) other) := by
  have reader := twins.reader
  cases ends : trail.atEnd with
  | true =>
    have endsToo : other.atEnd = true := by
      rw [Trail.atEnd, reader]
      exact ends
    rw [offspring_of_atEnd ends, offspring_of_atEnd endsToo]
    exact .nil
  | false =>
    obtain ⟨word, found⟩ := sound.atWord.currentWord?_eq_some ends
    obtain ⟨place, stands, node⟩ := twins.stands
    have followers := twins.followersAt resolves node
    rw [offspring_eq found, offspring_eq (reader ▸ found),
      trail.node.effectiveChildren_eq context.root place,
      other.node.effectiveChildren_eq _ place, followers, List.filterMap_map, List.filterMap_map,
      List.filterMap_filterMap]
    refine forall₂_filterMap fun follower follows => ?_
    rcases follower with ⟨above, key, child⟩
    have tries := attemptNode_tries context key child word trail.reader
    by_cases same : above = parent ∧ key = name
    · obtain ⟨rfl, rfl⟩ := same
      have missed := unmatched _ (.tried reached mem stands follows found)
      simp [Follower.erased?, missed]
    · simp only [Function.comp, Follower.erased?, if_neg same, Option.bind_some,
        attemptNode_erasedAt, reader]
      have erased : ⟨above, key, child.erasedAt name parent (above ++ [key])⟩ ∈
          other.node.followersAt (context.erase parent name).root place := by
        rw [followers]
        exact List.mem_filterMap.2 ⟨_, follows, if_neg same⟩
      generalize attemptNode context key child word trail.reader = hop at tries ⊢
      obtain ⟨rfl, rfl⟩ := tries
      by_cases matched : hop.matched = true
      · rw [if_pos matched, if_pos matched]
        exact .some (twins.push stands follows (twins.occurs.follower erased))
      · rw [if_neg matched, if_neg matched]
        exact .none

/-! ## Reports -/

theorem Twins.isTerminal (twins : Twins context parent name trail other) :
    trail.isTerminal = true ↔ other.isTerminal = true := by
  obtain ⟨place, -, node⟩ := twins.stands
  obtain ⟨-, executable, -⟩ := trail.node.erasedAt_fields name parent place
  rw [Trail.isTerminal, Trail.isTerminal, Trail.atEnd, Trail.atEnd, twins.reader, node, executable]

theorem Twins.path (twins : Twins context parent name trail other) :
    trail.path.map PathEntry.outline = other.path.map PathEntry.outline := by
  have hops : List.Forall₂ Alike (trail.hops.drop 1) (other.hops.drop 1) :=
    List.forall₂_drop 1 (List.rel_reverse twins.hops)
  rw [Trail.path, Trail.path, List.map_map, List.map_map]
  refine map_eq_of_forall₂ hops fun hop twin alike => ?_
  rcases alike with ⟨node, rfl⟩
  rfl

/-- The reports on twins agree. -/
theorem report_agrees (kind : AmbiguityKind) {trails others : List Trail}
    (first : Twins context parent name trail other)
    (rest : List.Forall₂ (Twins context parent name) trails others) :
    (report kind trail trails).Agrees (report kind other others) := by
  have hops : List.Forall₂ Alike trail.hops other.hops := List.rel_reverse first.hops
  refine ⟨rfl, ?_, ?_, first.path.symm, ?_⟩
  · refine congrArg List.flatten (map_eq_of_forall₂ hops fun hop twin alike => ?_).symm
    rcases alike with ⟨node, rfl⟩
    rfl
  · refine congrArg List.flatten (map_eq_of_forall₂ hops fun hop twin alike => ?_).symm
    rcases alike with ⟨node, rfl⟩
    rfl
  · have paths := map_eq_of_forall₂ rest fun _ _ twins => twins.path
    unfold report
    dsimp only
    rw [isEmpty_eq_of_forall₂ rest]
    split
    · rfl
    · simp only [Option.map_some, Ambiguity.outline, List.map_map]
      exact congrArg (fun paths => some (kind, paths)) paths.symm

/-- Walks that end with terminals agree. -/
theorem finish_agrees {trails others : List Trail} {otherwise otherwiseToo : LineReport}
    (twins : List.Forall₂ (Twins context parent name) trails others)
    (failed : otherwise.success = false) (success : (finish trails otherwise).success = true) :
    (finish trails otherwise).Agrees (finish others otherwiseToo) := by
  cases twins with
  | nil => rw [finish, failed] at success; cases success
  | cons first rest => exact report_agrees .terminals first rest

/-! ## Runs -/

/-- The trails of two states are twins, in the same order. -/
structure TwinStates (context : Context) (parent : List String) (name : String)
    (state other : State) : Prop where
  frontier : List.Forall₂ (Twins context parent name) state.frontier other.frontier
  terminals : List.Forall₂ (Twins context parent name) state.terminals other.terminals

theorem TwinStates.allTerminals {other : State}
    (twins : TwinStates context parent name state other) :
    List.Forall₂ (Twins context parent name) state.allTerminals other.allTerminals := by
  refine List.rel_append twins.terminals (List.rel_filter ?_ twins.frontier)
  exact fun _ _ related => related.isTerminal

theorem startTrail_twins (context : Context) (line : List Char) (parent : List String)
    (name : String) :
    Twins context parent name (startTrail context line)
      (startTrail (context.erase parent name) line) where
  hops := .cons ⟨(context.erase parent name).root, rfl⟩ .nil
  stands := ⟨[], .root rfl, (context.root.erasedAt_nil name parent).symm⟩
  occurs := CommandNode.occurs_root _

/-- What a generation leads to in both trees: reports that agree if they are a success, or
states of twins. -/
inductive InStep (context : Context) (parent : List String) (name : String) :
    Except WalkError Progress → Except WalkError Progress → Prop where
  | done {report other : LineReport} (agrees : report.success = true → report.Agrees other) :
    InStep context parent name (.ok (.done report)) (.ok (.done other))
  | next {state other : State} (twins : TwinStates context parent name state other) :
    InStep context parent name (.ok (.next state)) (.ok (.next other))

theorem generation_inStep (builtin : context.kinds.IsBuiltin)
    (unmatched : ∀ hop, Attempted context line parent name hop → hop.matched = false)
    (resolves : (context.erase parent name).root.RedirectsResolve) {other : State}
    (reached : Reached context line n state)
    (reachedToo : Reached (context.erase parent name) line n other)
    (twins : TwinStates context parent name state other) :
    InStep context parent name (generation context line (startTrail context line) state)
      (generation (context.erase parent name) line
        (startTrail (context.erase parent name) line) other) := by
  have builtinToo : (context.erase parent name).kinds.IsBuiltin := builtin
  have sound := reached.sound builtin
  have next := forall₂_flatMap twins.frontier fun trail mem _ =>
    offspring_twins unmatched resolves reached mem (sound trail mem)
  have generated := generation_generated builtin (startTrail context line) sound
  have generatedToo := generation_generated builtinToo
    (startTrail (context.erase parent name) line) (reachedToo.sound builtinToo)
  generalize generation context line (startTrail context line) state = outcome at generated ⊢
  generalize generation (context.erase parent name) line
    (startTrail (context.erase parent name) line) other = outcomeToo at generatedToo ⊢
  rcases outcome with _ | ⟨report⟩ | ⟨after⟩
  · cases generated
  · obtain ⟨barren, otherwise, failed, rfl⟩ := generated.ended
    rw [barren] at next
    cases generatedToo with
    | exhausted => exact .done (finish_agrees twins.allTerminals failed)
    | stuck => exact .done (finish_agrees twins.allTerminals failed)
    | next fertile => exact absurd (List.forall₂_nil_left_iff.1 next) fertile
  · cases generated with
    | next fertile =>
      rcases outcomeToo with _ | ⟨reportToo⟩ | ⟨afterToo⟩
      · cases generatedToo
      · rw [generatedToo.ended.1] at next
        exact absurd (List.forall₂_nil_right_iff.1 next) fertile
      · cases generatedToo with
        | next => exact .next ⟨next, twins.allTerminals⟩

theorem run_agrees (builtin : context.kinds.IsBuiltin)
    (unmatched : ∀ hop, Attempted context line parent name hop → hop.matched = false)
    (resolves : (context.erase parent name).root.RedirectsResolve) {fuel : Nat} {other : State}
    {report : LineReport} (reached : Reached context line n state)
    (reachedToo : Reached (context.erase parent name) line n other)
    (twins : TwinStates context parent name state other)
    (ran : run context line (startTrail context line) fuel state = some (.ok report))
    (success : report.success = true) :
    ∃ reportToo, run (context.erase parent name) line
      (startTrail (context.erase parent name) line) fuel other = some (.ok reportToo) ∧
        report.Agrees reportToo := by
  induction fuel generalizing n state other with
  | zero => cases ran
  | succ fuel ih =>
    have inStep := generation_inStep builtin unmatched resolves reached reachedToo twins
    rw [run] at ran ⊢
    generalize step : generation context line (startTrail context line) state = outcome
      at inStep ran
    generalize stepToo : generation (context.erase parent name) line
      (startTrail (context.erase parent name) line) other = outcomeToo at inStep ⊢
    cases inStep with
    | done agrees =>
      obtain rfl := Except.ok.inj (Option.some.inj ran)
      exact ⟨_, rfl, agrees success⟩
    | next twins => exact ih (reached.next step) (reachedToo.next stepToo) twins ran

end Twins

end Walk

/-- A child at which no attempt of a walk matched leaves no trace in its success: without
it and all below it, provided that every redirect still leads somewhere, the line is
walked with success again, with the same diagnostics, tokens, path and ambiguity. -/
theorem walk_without_failed (context : Context) (builtin : context.kinds.IsBuiltin)
    (line : List Char) (report : LineReport) (walked : walk context line = .ok report)
    (success : report.success = true) (parent : List String) (name : String)
    (unmatched : ∀ hop, Walk.Attempted context line parent name hop → hop.matched = false)
    (resolves : (context.erase parent name).root.RedirectsResolve) :
    ∃ other, walk (context.erase parent name) line = .ok other ∧ other.success = true ∧
      report.Agrees other := by
  have twins := Walk.startTrail_twins context line parent name
  obtain ⟨other, ran, agrees⟩ := Walk.run_agrees builtin unmatched resolves .start .start
    ⟨.cons twins .nil, .nil⟩ (Walk.walk_eq_ok_iff.1 walked) success
  rw [← twins.reader] at ran
  exact ⟨other, Walk.walk_eq_ok_iff.2 ran, agrees.success.trans success, agrees⟩

/-- A literal that is tried first and is not on the line may as well be missing. -/
theorem walk_without_failed_either :
    let context := Context.ofEither "go" "stop"
    context.kinds.IsBuiltin ∧ (context.erase [] "go").root.RedirectsResolve ∧
      (∀ hop, Walk.Attempted context "stop".toList [] "go" hop → hop.matched = false) ∧
        ∃ report other, walk context "stop".toList = .ok report ∧ report.success = true ∧
          walk (context.erase [] "go") "stop".toList = .ok other ∧ report.Agrees other := by
  intro context
  have builtin : context.kinds.IsBuiltin := KindRegistry.builtin_isBuiltin
  have resolves : (context.erase [] "go").root.RedirectsResolve := by
    intro entry mem target redirects
    have nodes : (context.erase [] "go").root.nodes = [([], _), (["stop"], _)] := rfl
    rw [nodes] at mem
    rcases List.mem_cons.1 mem with rfl | mem
    · cases redirects
    · obtain rfl := List.mem_singleton.1 mem
      cases redirects
  have unmatched : ∀ hop, Walk.Attempted context "stop".toList [] "go" hop →
      hop.matched = false := by
    intro hop attempted
    refine attempted.missed builtin ?_ ?_
    · obtain ⟨node, place, ⟨path, occurs⟩, follows⟩ := attempted.follows
      have nodes : context.root.nodes = [([], context.root), (["go"], _), (["stop"], _)] := rfl
      rw [nodes] at occurs
      -- Only the root has followers, and both of them are literals.
      rcases List.mem_cons.1 occurs with top | below
      · obtain ⟨-, rfl⟩ := Prod.mk.inj top
        have followers : context.root.followersAt context.root place =
          [⟨place, "go", _⟩, ⟨place, "stop", _⟩] := rfl
        rw [followers] at follows
        rcases List.mem_cons.1 follows with first | second
        · rw [(Follower.mk.inj first).2.2]
          rfl
        · rw [(Follower.mk.inj (List.mem_singleton.1 second)).2.2]
          rfl
      · have leaf : node.followersAt context.root place = [] := by
          rcases List.mem_cons.1 below with first | second
          · rw [(Prod.mk.inj first).2]
            rfl
          · rw [(Prod.mk.inj (List.mem_singleton.1 second)).2]
            rfl
        rw [leaf] at follows
        cases follows
    · have tokens : Token.ofLine "stop".toList = [⟨⟨"stop".toList, 0⟩, false⟩] := rfl
      rw [tokens]
      exact List.forall_mem_singleton.2 (by decide)
  obtain ⟨report, walked, success⟩ : ∃ report, walk context "stop".toList = .ok report ∧
      report.success = true := ⟨_, rfl, rfl⟩
  obtain ⟨other, walkedToo, -, agrees⟩ :=
    walk_without_failed context builtin _ report walked success [] "go" unmatched resolves
  exact ⟨builtin, resolves, unmatched, report, other, walked, success, walkedToo, agrees⟩

end CommandScript

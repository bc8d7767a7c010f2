import CommandScript.Proofs.List
import CommandScript.Proofs.Walk.Derivation

/-!
A walk finds every derivation of its line.

The frontier of a generation traces, trail by trail, the derivations of as many hops
(`Walk.Reached.traces`): what goes on from a trail are the hops that take something,
in the order of the children. The terminals are the accepting ones among them, so once
the walk ends no accepting derivation is missing, none is found twice, and the first is
the least (`walk_finds_derivations`).
-/

namespace CommandScript

open TokenReader

open CommandScript.Derivation (Branch take? level Accepting Precedes positions)

namespace Walk

section Hops

variable {context : Context} {r : TokenReader} {word : Slice}

/-- A hop that was tried, beside what its node takes: nothing, and then it did not
match, or the text from one reader to another. -/
inductive Tried (r : TokenReader) (name : String) (node : CommandNode) (hop : Hop) :
    Option TokenReader → Prop where
  | missed (unmatched : hop.matched = false) : Tried r name node hop none
  | took {after : TokenReader} (reader : hop.reader = after)
    (entry : hop.entry = ⟨name, ⟨r.offset, after.offset⟩, node, true⟩) :
    Tried r name node hop (some after)

theorem attemptNode_tried (builtin : context.kinds.IsBuiltin) (valid : r.Valid)
    (found : r.current? = some ⟨word, false⟩) (name : String) (node : CommandNode) :
    Tried r name node (attemptNode context name node word r) (take? context node name r) := by
  have current := currentWord?_of_current? found
  have atWord := atWord_of_current? found
  unfold attemptNode take?
  split
  · rw [current]
    unfold attemptLiteral
    dsimp only
    split
    · apply Tried.took rfl
      rw [← valid.current_start found, ← valid.current_stop found]
      rfl
    · exact .missed rfl
  · unfold attemptArgument
    dsimp only
    cases registered : context.kinds.create? (node.parser.getD "") node.properties with
    | none => exact .missed rfl
    | some parser =>
      have read := builtin.create?_reads registered context.registries valid atWord
      have span := spanRead_eq valid found read.ahead
      rw [Option.bind_some]
      dsimp only
      cases success : (parser.read context.registries r).report.success with
      | false => exact .missed rfl
      | true =>
        rw [span]
        exact .took rfl rfl

/-- At the end of a line nothing is taken. -/
theorem take?_of_atEnd (builtin : context.kinds.IsBuiltin) (valid : r.Valid)
    (ends : r.atEnd = true) (name : String) (node : CommandNode) :
    take? context node name r = none := by
  unfold take?
  split
  · rw [currentWord?_of_atEnd ends]
  · cases registered : context.kinds.create? (node.parser.getD "") node.properties with
    | none => rfl
    | some parser =>
      have read := builtin.create?_reads registered context.registries valid
        (atWord_of_atEnd ends)
      simp [read.refuses ends]

end Hops

/-! ## Trails and derivations -/

/-- The trail made the hops of the branch, and stands where it leads. -/
structure Traces (trail : Trail) (branch : Branch) : Prop where
  node : trail.node = branch.node
  reader : trail.reader = branch.reader
  path : trail.path = branch.choices.map Choice.entry

section Traces

variable {context : Context} {line : List Char} {trail : Trail} {branch : Branch}

/-- What goes on from a trail on a word are the children whose attempts match. -/
theorem offspring_eq {word : Slice} (found : trail.reader.currentWord? = some word) :
    offspring context trail =
      (trail.node.effectiveChildren context.root).filterMap fun (name, node) =>
        let hop := attemptNode context name node word trail.reader
        if hop.matched then some (trail.push hop).passed else none := by
  unfold offspring extensions
  rw [found]
  dsimp only
  generalize trail.node.effectiveChildren context.root = children
  cases children with
  | nil => rfl
  | cons child children =>
    dsimp only
    generalize child :: children = children
    induction children with
    | nil => rfl
    | cons child children ih =>
      rw [List.map_cons, List.filter_cons, List.filterMap_cons, ← ih]
      dsimp only [survives]
      cases matched : (attemptNode context child.1 child.2 word trail.reader).matched <;>
        simp [Trail.push, matched]

theorem offspring_traces (builtin : context.kinds.IsBuiltin) (sound : trail.Sound line)
    (traces : Traces trail branch) :
    List.Forall₂ Traces (offspring context trail) (branch.next context) := by
  cases ends : trail.atEnd with
  | true =>
    have none : branch.next context = [] := by
      apply List.filterMap_eq_nil_iff.2
      intro child _
      rw [Branch.push?, ← traces.reader, take?_of_atEnd builtin sound.valid ends]
      rfl
    rw [offspring_of_atEnd ends, none]
    exact .nil
  | false =>
    obtain ⟨word, found⟩ := sound.atWord.currentWord?_eq_some ends
    rw [offspring_eq found, Branch.next, ← traces.node]
    nth_rewrite 1 [← List.zipIdx_map_fst 0 (trail.node.effectiveChildren context.root)]
    rw [List.filterMap_map]
    refine forall₂_filterMap fun child _ => ?_
    rcases child with ⟨⟨name, node⟩, position⟩
    have tried := attemptNode_tried builtin sound.valid (currentWord?_eq_some found) name node
    have behind := attemptNode_behind builtin name node sound.valid (currentWord?_eq_some found)
    rw [Branch.push?, ← traces.reader]
    dsimp only [Function.comp]
    generalize attemptNode context name node word trail.reader = hop at tried behind ⊢
    generalize take? context node name trail.reader = took at tried ⊢
    cases tried with
    | missed unmatched =>
      rw [unmatched]
      exact .none
    | @took after reader entry =>
      have matched : hop.matched = true := congrArg PathEntry.matched entry
      have separated : (trail.push hop).reader.AtSeparator := behind.separated matched
      obtain ⟨-, passedReader, passedNode, passedPath⟩ := Trail.passSeparator_eq separated
      rw [matched]
      refine .some ⟨passedNode.trans (congrArg PathEntry.node entry), ?_, ?_⟩
      · rw [passedReader, ← reader]
        rfl
      · rw [passedPath, Trail.path_push, traces.path, entry, List.map_append]
        rfl

theorem flatMap_offspring_traces (builtin : context.kinds.IsBuiltin) {trails : List Trail}
    {branches : List Branch} (sound : ∀ trail ∈ trails, trail.Sound line)
    (traces : List.Forall₂ Traces trails branches) :
    List.Forall₂ Traces (trails.flatMap (offspring context))
      (branches.flatMap (Branch.next context)) :=
  forall₂_flatMap traces fun trail mem _ => offspring_traces builtin (sound trail mem)

/-! ## Generations -/

/-- The accepting branches of `n` hops. -/
def accepting (context : Context) (line : List Char) (n : Nat) : List Branch :=
  (level context line n).filter Branch.accepts

theorem startTrail_traces (context : Context) (line : List Char) :
    Traces (startTrail context line) (.root context line) :=
  ⟨rfl, startTrail_reader context line, rfl⟩

theorem filter_isTerminal_traces {trails : List Trail} {branches : List Branch}
    (traces : List.Forall₂ Traces trails branches) :
    List.Forall₂ Traces (trails.filter Trail.isTerminal) (branches.filter Branch.accepts) := by
  apply List.rel_filter _ traces
  intro trail branch related
  show trail.isTerminal = true ↔ branch.accepts = true
  rw [Trail.isTerminal, Trail.atEnd, related.node, related.reader, Branch.accepts]

variable {n : Nat} {state : State}

/-- The terminals of a state and those of its frontier trace the accepting branches of
up to as many hops as there were generations. -/
theorem allTerminals_traces
    (frontier : List.Forall₂ Traces state.frontier (level context line n))
    (terminals : List.Forall₂ Traces state.terminals
      ((List.range n).flatMap (accepting context line))) :
    List.Forall₂ Traces state.allTerminals
      ((List.range (n + 1)).flatMap (accepting context line)) := by
  rw [List.range_succ, List.flatMap_append, List.flatMap_singleton]
  exact List.rel_append terminals (filter_isTerminal_traces frontier)

/-- The frontier traces the branches of as many hops as there were generations, and the
terminals trace the accepting ones of fewer. -/
theorem Reached.traces (builtin : context.kinds.IsBuiltin)
    (reached : Reached context line n state) :
    List.Forall₂ Traces state.frontier (level context line n) ∧
      List.Forall₂ Traces state.terminals ((List.range n).flatMap (accepting context line)) := by
  induction reached with
  | start => exact ⟨.cons (startTrail_traces context line) .nil, .nil⟩
  | @next n state after reached step ih =>
    rcases ih with ⟨frontier, terminals⟩
    have sound := reached.sound builtin
    have generated := generation_generated builtin (startTrail context line) sound
    rw [step] at generated
    cases generated with
    | next fertile =>
      exact ⟨flatMap_offspring_traces builtin sound frontier,
        allTerminals_traces frontier terminals⟩

/-! ## Whole walks -/

/-- Beyond a level without derivations there are none. -/
theorem level_eq_nil {m : Nat} (none : level context line n = []) (le : n ≤ m) :
    level context line m = [] := by
  induction le with
  | refl => exact none
  | step _ ih => rw [level, ih]; rfl

/-- If no derivation has more than `n` hops, these are the accepting ones. -/
theorem mem_accepting_iff (none : level context line (n + 1) = []) {choices : List Choice} :
    Accepting context line choices ↔
      choices ∈ ((List.range (n + 1)).flatMap (accepting context line)).map Branch.choices := by
  constructor
  · rintro ⟨node, reader, derived, ends, executable⟩
    have inLevel := Derivation.mem_level_length derived
    have short : choices.length < n + 1 := by
      apply Nat.lt_of_not_le
      intro long
      rw [level_eq_nil none long] at inLevel
      cases inLevel
    refine List.mem_map.2
      ⟨⟨choices, node, reader⟩, List.mem_flatMap.2 ⟨choices.length, ?_, ?_⟩, rfl⟩
    · exact List.mem_range.2 short
    · exact List.mem_filter.2 ⟨inLevel, by simp [Branch.accepts, ends, executable]⟩
  · intro mem
    rcases List.mem_map.1 mem with ⟨branch, inAll, rfl⟩
    rcases List.mem_flatMap.1 inAll with ⟨m, -, inAccepting⟩
    rcases List.mem_filter.1 inAccepting with ⟨inLevel, accepts⟩
    rcases Bool.and_eq_true_iff.1 accepts with ⟨ends, executable⟩
    exact ⟨branch.node, branch.reader, (Derivation.mem_level.1 inLevel).1, ends, executable⟩

/-- Level by level the accepting derivations come in their order. -/
theorem accepting_ordered (context : Context) (line : List Char) (n : Nat) :
    (((List.range n).flatMap (accepting context line)).map Branch.choices).Pairwise Precedes := by
  refine List.pairwise_map.2 (List.pairwise_flatMap.2 ⟨fun m _ => ?_, ?_⟩)
  · apply ((Derivation.level_ordered context line m).filter _).imp_of_mem
    intro a b memA memB lex
    have lengthA := (Derivation.mem_level.1 (List.mem_filter.1 memA).1).2
    have lengthB := (Derivation.mem_level.1 (List.mem_filter.1 memB).1).2
    exact Or.inr ⟨lengthA.trans lengthB.symm, lex⟩
  · refine List.pairwise_lt_range.imp fun {k m} less a memA b memB => Or.inl ?_
    rw [(Derivation.mem_level.1 (List.mem_filter.1 memA).1).2,
      (Derivation.mem_level.1 (List.mem_filter.1 memB).1).2]
    exact less

/-- A walk ends when no derivation has more hops, and then its report is on the first
terminal, or no success. -/
theorem walk_ends_traced (builtin : context.kinds.IsBuiltin) (line : List Char) :
    ∃ n terminals otherwise, level context line (n + 1) = [] ∧
      List.Forall₂ Traces terminals ((List.range (n + 1)).flatMap (accepting context line)) ∧
        otherwise.success = false ∧ walk context line = .ok (finish terminals otherwise) := by
  obtain ⟨n, last, report, reached, done, walked⟩ := walk_ends builtin line
  have sound := reached.sound builtin
  obtain ⟨frontier, terminals⟩ := reached.traces builtin
  have next := flatMap_offspring_traces builtin sound frontier
  have generated := generation_generated builtin (startTrail context line) sound
  rw [done] at generated
  obtain ⟨barren, otherwise, failed, rfl⟩ := generated.ended
  rw [barren] at next
  exact ⟨n, last.allTerminals, otherwise, List.forall₂_nil_left_iff.1 next,
    allTerminals_traces frontier terminals, failed, walked⟩

end Traces

end Walk

/-- A walk succeeds if and only if its line has an accepting derivation. It then reports
the path of the least of them, the one of the fewest hops and the smallest positions,
and beside it the paths of all others in order. -/
theorem walk_finds_derivations (context : Context) (builtin : context.kinds.IsBuiltin)
    (line : List Char) :
    ∃ report, walk context line = .ok report ∧
      (report.success = true ↔ ∃ choices, Accepting context line choices) ∧
      (report.success = true → ∃ best others,
        (∀ choices, Accepting context line choices ↔ choices ∈ best :: others) ∧
        (best :: others).Pairwise Precedes ∧
        report.path = best.map Choice.entry ∧
        report.ambiguity = if others.isEmpty then none
          else some ⟨.terminals, others.map fun choices => choices.map Choice.entry⟩) := by
  obtain ⟨n, terminals, otherwise, none, traces, failed, walked⟩ :=
    Walk.walk_ends_traced builtin line
  refine ⟨_, walked, ?_⟩
  have accepted : ∀ choices, Accepting context line choices ↔ _ :=
    fun choices => Walk.mem_accepting_iff none
  have ordered := Walk.accepting_ordered context line (n + 1)
  generalize (List.range (n + 1)).flatMap (Walk.accepting context line) = branches
    at traces accepted ordered
  cases traces with
  | nil =>
    have noSuccess : (Walk.finish [] otherwise).success = false := failed
    rw [noSuccess]
    refine ⟨⟨nofun, ?_⟩, nofun⟩
    rintro ⟨choices, accepting⟩
    cases (accepted choices).1 accepting
  | @cons chosen best others branches first rest =>
    refine ⟨⟨fun _ => ⟨best.choices, (accepted _).2 (List.mem_cons_self ..)⟩, fun _ => rfl⟩,
      fun _ => ⟨best.choices, branches.map Branch.choices, accepted, ordered, first.path, ?_⟩⟩
    have paths := map_eq_of_forall₂ rest fun _ _ traces => traces.path
    have empty : others.isEmpty = (branches.map Branch.choices).isEmpty := by
      cases rest <;> rfl
    show (if others.isEmpty then _ else some (Ambiguity.mk .terminals (others.map Trail.path))) = _
    rw [empty, paths, List.map_map]
    rfl

/-- A literal alone on its line is found. -/
theorem walk_finds_derivations_literal :
    (Context.ofLiteral "stop").kinds.IsBuiltin ∧
      ∃ report, walk (Context.ofLiteral "stop") "stop".toList = .ok report ∧
        report.success = true := by
  have builtin := Context.ofLiteral_isBuiltin "stop"
  obtain ⟨report, walked, success, -⟩ :=
    walk_finds_derivations (Context.ofLiteral "stop") builtin "stop".toList
  have child : ((Context.ofLiteral "stop").root.effectiveChildren
      (Context.ofLiteral "stop").root)[0]? = some ("stop", _) := rfl
  have derived : Derivation (Context.ofLiteral "stop") "stop".toList _ _ _ :=
    .hop .root child (.literal rfl rfl rfl)
  exact ⟨builtin, report, walked, success.2 ⟨_, _, _, derived, rfl, rfl⟩⟩

end CommandScript

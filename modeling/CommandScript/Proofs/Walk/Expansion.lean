import CommandScript.Proofs.Context
import CommandScript.Proofs.Walk.Run

/-!
What a walk comes across in a tree that a context was built of.

A walk expands the root first and then nodes below it only (`Walk.Reached.root_or_below`), and what it
tries are nodes below the root (`CommandNode.Occurs.effectiveChild_below`). All of these can be
used, but two things are not looked at when a context is built: the redirect of the root, and
whether a node below the root is itself marked as a root. A walk takes such a node for an
argument, named or not (`walk_expands_usable`).
-/

namespace CommandScript

namespace Walk

/-- The walk of a line expands the last node of a trail in some generation: input is left. -/
def Expands (context : Context) (line : List Char) (n : Nat) (trail : Trail) : Prop :=
  (∃ state, Reached context line n state ∧ trail ∈ state.frontier) ∧ trail.atEnd = false

section Nodes

variable {context : Context} {line : List Char} {n : Nat} {state : State} {trail next : Trail}

theorem node_of_passSeparator (passed : passSeparator trail = .ok next) :
    next.node = trail.node := by
  obtain ⟨separated, -⟩ := Trail.atSeparator_of_passSeparator passed
  obtain ⟨same, -, node, -⟩ := Trail.passSeparator_eq separated
  obtain rfl := Except.ok.inj (passed.symm.trans same)
  exact node

/-- A trail goes on to a node that may follow its last one. -/
theorem GoesOn.follows (goesOn : GoesOn context trail next) :
    ∃ name, (name, next.node) ∈ trail.node.effectiveChildren context.root := by
  cases goesOn with
  | passed extended survived passed =>
    cases extended with
    | deadEnd => cases survived
    | @tried name node word found child =>
      have tried : next.node = node := (node_of_passSeparator passed).trans
        (attemptNode_tries context name node word trail.reader).2
      exact ⟨name, tried ▸ child⟩

/-- The first generation expands the root, and every later one expands nodes below it. -/
theorem Reached.root_or_below (reached : Reached context line n state) :
    ∀ trail ∈ state.frontier,
      (n = 0 ∧ trail.node = context.root) ∨ (n ≠ 0 ∧ context.root.Below trail.node) := by
  induction reached with
  | start => exact List.forall_mem_singleton.2 (Or.inl ⟨rfl, rfl⟩)
  | next reached step ih =>
    intro next mem
    obtain ⟨trail, inFrontier, goesOn⟩ := (goesOn_of_next step).2 next mem
    obtain ⟨name, child⟩ := goesOn.follows
    have occurs : context.root.Occurs trail.node := by
      rcases ih trail inFrontier with ⟨-, top⟩ | ⟨-, below⟩
      · exact top ▸ CommandNode.occurs_root context.root
      · exact below.occurs
    exact Or.inr ⟨Nat.succ_ne_zero _, occurs.effectiveChild_below child⟩

theorem Expands.root_or_below (expands : Expands context line n trail) :
    (n = 0 ∧ trail.node = context.root) ∨ (n ≠ 0 ∧ context.root.Below trail.node) := by
  obtain ⟨⟨state, reached, mem⟩, -⟩ := expands
  exact reached.root_or_below trail mem

theorem Expands.occurs (expands : Expands context line n trail) :
    context.root.Occurs trail.node := by
  rcases expands.root_or_below with ⟨-, top⟩ | ⟨-, below⟩
  · exact top ▸ CommandNode.occurs_root context.root
  · exact below.occurs

/-- The walk of a line with a word expands the root. -/
theorem expands_root (context : Context) : Expands context ['a'] 0 (startTrail context ['a']) := by
  refine ⟨⟨_, .start, List.mem_singleton_self _⟩, ?_⟩
  rw [Trail.atEnd, startTrail_reader]
  rfl

/-- What is reported on an argument whose kind is not known names the kind. -/
theorem attemptNode_unknown {name kind : String} {node : CommandNode} (word : Slice)
    (reader : TokenReader) (other : node.isLiteral = false) (names : node.parser = some kind)
    (unknown : context.kinds.get? kind = none) :
    (attemptNode context name node word reader).report =
      .error reader.remaining.span ("Parser not implemented for " ++ kind) := by
  have create : context.kinds.create? kind node.properties = none := by
    rw [KindRegistry.create?, unknown]
    rfl
  unfold attemptNode attemptArgument
  rw [other, names]
  simp only [Bool.false_eq_true, if_false, Option.getD_some, create]
  rfl

end Nodes

end Walk

open Walk

/-- In a context that was built, every node that a walk expands has a redirect that leads
somewhere, or none, exactly if this holds of the root; of the others it always holds. Whatever a
walk tries is a literal, a node that is marked as a root, or an argument that names its kind, by
which it is reported if the kind is not known. -/
theorem walk_expands_usable {root : CommandNode} {registries : Registries} {kinds : KindRegistry}
    {context : Context} (built : Context.build root registries kinds = .ok context) :
    ((∀ line n trail, Expands context line n trail → Context.Leads context.root trail.node) ↔
      Context.Leads context.root context.root) ∧
    ∀ line n trail, Expands context line n trail →
      (n ≠ 0 → Context.Leads context.root trail.node) ∧
      ∀ name child, (name, child) ∈ trail.node.effectiveChildren context.root →
        child.kind = .literal ∨ child.kind = .root ∨ ∃ kind, child.parser = some kind ∧
          (context.kinds.get? kind = none → ∀ word,
            (attemptNode context name child word trail.reader).report =
              .error trail.reader.remaining.span ("Parser not implemented for " ++ kind)) := by
  have below : ∀ node, context.root.Below node → Context.Usable context.root node :=
    fun node => Context.usable_of_below root built
  refine ⟨⟨fun leads => ?_, fun leads line n trail expands => ?_⟩,
    fun line n trail expands => ⟨fun later => ?_, fun name child follows => ?_⟩⟩
  · exact leads ['a'] 0 _ (expands_root context)
  · rcases expands.root_or_below with ⟨-, top⟩ | ⟨-, isBelow⟩
    · rwa [top]
    · exact (below _ isBelow).leads
  · rcases expands.root_or_below with ⟨first, -⟩ | ⟨-, isBelow⟩
    · exact absurd first later
    · exact (below _ isBelow).leads
  · have usable := below child (expands.occurs.effectiveChild_below follows)
    cases isKind : child.kind with
    | root => exact Or.inr (Or.inl rfl)
    | literal => exact Or.inl rfl
    | argument =>
      obtain ⟨kind, names⟩ := usable.names isKind
      have other : child.isLiteral = false := by
        rw [CommandNode.isLiteral, isKind]
        rfl
      refine Or.inr (Or.inr ⟨kind, names, fun unknown word => ?_⟩)
      exact attemptNode_unknown word _ other names unknown

/-- A literal that leads back to the root is expanded in the second generation, and an argument of
a kind that is not known is tried behind it. -/
theorem walk_expands_usable_again :
    let again : CommandNode := ⟨.literal, [], false, some [], none, []⟩
    let value : CommandNode := ⟨.argument, [], true, none, some "value", []⟩
    let root : CommandNode := ⟨.root, [("run", again), ("x", value)], false, none, none, []⟩
    let context : Context := ⟨root, .empty, .empty⟩
    Context.build root .empty .empty = .ok context ∧
      ∃ trail, Expands context "run a".toList 1 trail ∧ trail.node = again ∧
        Context.Leads root trail.node ∧ ("x", value) ∈ trail.node.effectiveChildren root ∧
          ∀ word, (attemptNode context "x" value word trail.reader).report =
            .error trail.reader.remaining.span "Parser not implemented for value" := by
  intro again value root context
  have built : Context.build root .empty .empty = .ok context := rfl
  obtain ⟨after, step, trail, mem, node, live⟩ : ∃ after,
      generation context "run a".toList (startTrail context "run a".toList)
        ⟨[startTrail context "run a".toList], []⟩ = .ok (.next after) ∧
      ∃ trail ∈ after.frontier, trail.node = again ∧ trail.atEnd = false :=
    ⟨_, rfl, _, List.mem_cons_self .., rfl, rfl⟩
  have expands : Expands context "run a".toList 1 trail :=
    ⟨⟨after, .next .start step, mem⟩, live⟩
  have follows : ("x", value) ∈ trail.node.effectiveChildren root := by
    rw [node]
    exact List.mem_cons_of_mem _ (List.mem_cons_self ..)
  obtain ⟨leads, tried⟩ := (walk_expands_usable built).2 _ _ _ expands
  refine ⟨built, trail, expands, node, leads (by decide), follows, ?_⟩
  rcases tried "x" value follows with literal | marked | ⟨kind, names, unknown⟩
  · cases literal
  · cases marked
  · obtain rfl := Option.some.inj names
    exact unknown rfl

/-- Contexts are built of a tree with a second root in it, which a walk tries as an argument that
names no kind, and of a tree whose root redirects to nowhere. -/
theorem walk_expands_unusable :
    let nested : CommandNode := ⟨.root, [("x", .emptyRoot)], false, none, none, []⟩
    let astray : CommandNode := ⟨.root, [], false, some ["nowhere"], none, []⟩
    let context (root : CommandNode) : Context := ⟨root, .empty, .builtin⟩
    (Context.build nested .empty .builtin = .ok (context nested) ∧
      (walk (context nested) "a".toList).map LineReport.diagnostics =
        .ok [.ofError ⟨⟨0, 1⟩, "Parser not implemented for "⟩] ∧
      ¬∀ line n trail, Expands (context nested) line n trail →
        ∀ name child, (name, child) ∈ trail.node.effectiveChildren nested →
          child.isLiteral = false → ∃ kind, child.parser = some kind) ∧
    Context.build astray .empty .builtin = .ok (context astray) ∧
      ¬∀ line n trail, Expands (context astray) line n trail →
        Context.Leads astray trail.node := by
  intro nested astray context
  refine ⟨⟨rfl, rfl, fun names => ?_⟩, rfl, fun leads => ?_⟩
  · obtain ⟨kind, named⟩ := names ['a'] 0 _ (expands_root (context nested)) "x" .emptyRoot
      (List.mem_singleton_self _) rfl
    cases named
  · obtain ⟨there, found⟩ := leads ['a'] 0 _ (expands_root (context astray)) ["nowhere"] rfl
    cases found

end CommandScript

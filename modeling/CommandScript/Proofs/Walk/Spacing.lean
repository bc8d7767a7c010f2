import CommandScript.Proofs.Grammar
import CommandScript.Proofs.List
import CommandScript.Proofs.Shift.Argument
import CommandScript.Proofs.Walk.Run
import Mathlib.Data.Option.Basic

/-!
Spaces between words do not matter for the way of a line through the tree.

Two lines of the same words, with as many spaces between two of them as one likes, have tokens
that are alike (`Token.Alike`). Their walks go abreast: readers that have passed as many tokens
meet the same words, attempts at the same node match or fail together
(`Walk.attemptNode_abreast`), and so do generations and whole walks (`Walk.run_abreast`).
What depends on offsets (spans, messages, the errors at separators) may differ, but no choice
of a walk looks at it. The one thing that can tell the lines apart is an argument of several
words, which counts separators among its errors, so the tree must not call for one
(`Context.IsUnspaced`).

Kinds of arguments under names that the tree does not mention are never asked for. The walk is
therefore compared with the one whose registry has no others (`Context.restrict`), of which it is
known that it ends with a report.
-/

namespace CommandScript

/-! ## Tokens and readers -/

/-- The tokens are both spaces, of whatever number, or both the same word. -/
structure Token.Alike (token other : Token) : Prop where
  isSpace : other.isSpace = token.isSpace
  text : token.isSpace = false → other.slice.text = token.slice.text

namespace TokenReader

/-- The readers have passed as many tokens of lines whose tokens are alike. -/
structure Abreast (r other : TokenReader) : Prop where
  tokens : List.Forall₂ Token.Alike r.tokens other.tokens
  index : other.index = r.index

namespace Abreast

variable {r other : TokenReader}

theorem atEnd (abreast : r.Abreast other) : other.atEnd = r.atEnd := by
  rw [TokenReader.atEnd, TokenReader.atEnd, abreast.index, abreast.tokens.length_eq]

theorem current? (abreast : r.Abreast other) :
    Option.Rel Token.Alike r.current? other.current? := by
  rw [TokenReader.current?, TokenReader.current?, abreast.index]
  exact forall₂_getElem? abreast.tokens r.index

/-- Both readers stand at the same word, or neither at one. -/
theorem currentWord? (abreast : r.Abreast other) :
    Option.Rel (fun word twin : Slice => twin.text = word.text) r.currentWord?
      other.currentWord? := by
  unfold TokenReader.currentWord?
  have tokens := abreast.current?
  generalize r.current? = current, other.current? = currentToo at tokens
  cases tokens with
  | none => exact .none
  | @some token twin alike =>
    dsimp only
    rw [alike.isSpace]
    cases space : token.isSpace with
    | true => exact .none
    | false => exact .some (alike.text space)

theorem advance (abreast : r.Abreast other) : r.advance.Abreast other.advance := by
  unfold TokenReader.advance
  rw [abreast.atEnd]
  split
  · exact abreast
  · exact ⟨abreast.tokens, congrArg Nat.succ abreast.index⟩

theorem consumeAll (abreast : r.Abreast other) : r.consumeAll.Abreast other.consumeAll :=
  ⟨abreast.tokens, abreast.tokens.length_eq.symm⟩

end Abreast

end TokenReader

/-! ## Arguments -/

/-- A word anywhere in a line is checked with the success of the same word elsewhere. -/
theorem Reported.success_of_text {check : Slice → Reported Unit}
    (shifted : ∀ k s, Shifted k id (check s) (check (s.shift k))) {word other : Slice}
    (same : other.text = word.text) :
    (check other).report.success = (check word).report.success := by
  have alone : ∀ s : Slice, (check s).report.success = (check ⟨s.text, 0⟩).report.success :=
    fun s => (shifted s.start ⟨s.text, 0⟩).success
  rw [alone other, alone word, same]

/-- Read by a word, or to the end, arguments stay abreast and succeed together. -/
theorem Argument.WordReader.abreast {read : TokenReader → Reported TokenReader}
    (reader : WordReader read) {r other : TokenReader} (abreast : r.Abreast other) :
    (read r).value.Abreast (read other).value ∧
      (read other).report.success = (read r).report.success := by
  cases reader with
  | word missing shifted =>
    unfold readWord
    have words := abreast.currentWord?
    generalize r.currentWord? = word, other.currentWord? = twin at words
    cases words with
    | none => exact ⟨abreast, rfl⟩
    | some same =>
      refine ⟨abreast.advance, ?_⟩
      simpa only [Reported.report_bind, Reported.report_pure, Report.append_empty]
        using Reported.success_of_text shifted same
  | rest missing =>
    unfold readRest
    rw [abreast.atEnd]
    split
    · exact ⟨abreast, rfl⟩
    · exact ⟨abreast.consumeAll, rfl⟩

/-- The kinds whose arguments are several words with separators between them. -/
def BuiltinKind.spaced : List BuiltinKind :=
  [vec3, vec2, blockPos, columnPos, rotation, particle]

theorem BuiltinKind.argument_unspaced {kind : BuiltinKind} (unspaced : kind ∉ spaced)
    (properties : Properties) : ¬(kind.argument properties).IsSpaced := by
  cases kind
  case vec3 | vec2 | blockPos | columnPos | rotation | particle =>
    exact absurd (by decide) unspaced
  case angle => exact Nat.lt_irrefl 1
  all_goals exact not_false

/-! ## Contexts -/

namespace Context

/-- The names under which the nodes that are no literals look up their kinds. -/
def kindNames (context : Context) : List String :=
  (context.root.descendants.filter fun entry => !entry.2.isLiteral).map
    fun entry => entry.2.parser.getD ""

/-- Every kind that the tree calls for is one of the library, under any name, and takes a single
word or the rest of the line. -/
def IsUnspaced (context : Context) : Prop :=
  ∀ name ∈ context.kindNames, ∀ kind, context.kinds.get? name = some kind →
    ∃ k : BuiltinKind, k ∉ BuiltinKind.spaced ∧ kind.build = k.kind.build

/-- The context without the kinds that the tree does not call for. -/
def restrict (context : Context) : Context :=
  { context with
    kinds := ⟨context.kinds.entries.filter fun entry => context.kindNames.contains entry.1⟩ }

theorem restrict_get? (context : Context) (name : String) :
    context.restrict.kinds.get? name =
      if context.kindNames.contains name then context.kinds.get? name else none :=
  lookup_filter context.kinds.entries context.kindNames.contains name

/-- A node below the root that is no literal calls for its kind. -/
theorem mem_kindNames {context : Context} {node : CommandNode} (below : context.root.Below node)
    (notLiteral : node.isLiteral = false) : node.parser.getD "" ∈ context.kindNames := by
  obtain ⟨path, mem⟩ := below
  refine List.mem_map.2 ⟨(path, node), List.mem_filter.2 ⟨mem, ?_⟩, rfl⟩
  rw [notLiteral]
  rfl

theorem restrict_isBuiltin {context : Context} (unspaced : context.IsUnspaced) :
    context.restrict.kinds.IsBuiltin := by
  intro name kind found
  rw [restrict_get?] at found
  split at found
  · rename_i called
    obtain ⟨k, -, build⟩ := unspaced name (List.contains_iff_mem.1 called) kind found
    exact ⟨k, build⟩
  · cases found

end Context

/-! ## Reports -/

/-- An entry of a path without its span. -/
def PathEntry.choice (entry : PathEntry) : String × CommandNode × Bool :=
  (entry.name, entry.node, entry.matched)

/-- The kind of an ambiguity and the choices of its paths. -/
def Ambiguity.choices (ambiguity : Ambiguity) :
    AmbiguityKind × List (List (String × CommandNode × Bool)) :=
  (ambiguity.kind, ambiguity.alternatives.map fun path => path.map PathEntry.choice)

/-- Two lines took the same way through the tree. -/
structure LineReport.SameWay (report other : LineReport) : Prop where
  success : other.success = report.success
  path : other.path.map PathEntry.choice = report.path.map PathEntry.choice
  ambiguity : other.ambiguity.map Ambiguity.choices = report.ambiguity.map Ambiguity.choices

namespace LineReport.SameWay

variable {report other third : LineReport}

theorem symm (sameWay : report.SameWay other) : other.SameWay report :=
  ⟨sameWay.success.symm, sameWay.path.symm, sameWay.ambiguity.symm⟩

theorem trans (sameWay : report.SameWay other) (next : other.SameWay third) :
    report.SameWay third :=
  ⟨next.success.trans sameWay.success, next.path.trans sameWay.path,
    next.ambiguity.trans sameWay.ambiguity⟩

end LineReport.SameWay

namespace Walk

/-! ## Trails -/

/-- Two hops to the same node, with readers abreast behind them. -/
structure HopsAbreast (hop other : Hop) : Prop where
  name : other.name = hop.name
  node : other.node = hop.node
  matched : other.matched = hop.matched
  reader : hop.reader.Abreast other.reader

/-- Two trails of hops to the same nodes of a tree. -/
structure TrailsAbreast (root : CommandNode) (trail other : Trail) : Prop where
  latest : HopsAbreast trail.latest other.latest
  earlier : List.Forall₂ HopsAbreast trail.earlier other.earlier
  occurs : root.Occurs trail.node

section Trails

variable {root : CommandNode} {trail other : Trail} {hop twin : Hop}

namespace TrailsAbreast

theorem reader (abreast : TrailsAbreast root trail other) : trail.reader.Abreast other.reader :=
  abreast.latest.reader

theorem node (abreast : TrailsAbreast root trail other) : other.node = trail.node :=
  abreast.latest.node

theorem atEnd (abreast : TrailsAbreast root trail other) : other.atEnd = trail.atEnd :=
  abreast.reader.atEnd

/-- What is reported does not matter. -/
theorem add (abreast : TrailsAbreast root trail other) (report reportToo : Report) :
    TrailsAbreast root (trail.add report) (other.add reportToo) := by
  obtain ⟨⟨name, node, matched, reader⟩, earlier, occurs⟩ := abreast
  exact ⟨⟨name, node, matched, reader⟩, earlier, occurs⟩

theorem push (abreast : TrailsAbreast root trail other) (latest : HopsAbreast hop twin)
    (occurs : root.Occurs hop.node) : TrailsAbreast root (trail.push hop) (other.push twin) :=
  ⟨latest, .cons abreast.latest abreast.earlier, occurs⟩

theorem isTerminal (abreast : TrailsAbreast root trail other) :
    other.isTerminal = trail.isTerminal := by
  rw [Trail.isTerminal, Trail.isTerminal, abreast.atEnd, abreast.node]

theorem isIncomplete (abreast : TrailsAbreast root trail other) :
    other.isIncomplete = trail.isIncomplete := by
  rw [Trail.isIncomplete, Trail.isIncomplete, abreast.atEnd, abreast.node]

theorem path (abreast : TrailsAbreast root trail other) :
    other.path.map PathEntry.choice = trail.path.map PathEntry.choice := by
  have hops : List.Forall₂ HopsAbreast (trail.hops.drop 1) (other.hops.drop 1) :=
    List.forall₂_drop 1 (List.rel_reverse (.cons abreast.latest abreast.earlier))
  rw [Trail.path, Trail.path, List.map_map, List.map_map]
  refine (map_eq_of_forall₂ hops fun hop twin abreast => ?_).symm
  simp [PathEntry.choice, Hop.entry, abreast.name, abreast.node, abreast.matched]

end TrailsAbreast

end Trails

/-! ## Attempts -/

section Attempts

variable {context : Context} {node : CommandNode} {word twin : Slice} {r other : TokenReader}

/-- Attempts at a node that calls for a kind of the tree match or fail together. -/
theorem attemptNode_abreast (unspaced : context.IsUnspaced) (below : context.root.Below node)
    (abreast : r.Abreast other) (same : twin.text = word.text) (name : String) :
    HopsAbreast (attemptNode context.restrict name node word r)
      (attemptNode context name node twin other) := by
  unfold attemptNode
  split
  · have sameWord : twin.is name = word.is name := by rw [Slice.is, Slice.is, same]
    unfold attemptLiteral
    rw [sameWord]
    split
    · exact ⟨rfl, rfl, rfl, abreast.advance⟩
    · exact ⟨rfl, rfl, rfl, abreast⟩
  · rename_i notLiteral
    have called := Context.mem_kindNames below (eq_false_of_ne_true notLiteral)
    unfold attemptArgument
    dsimp only
    rw [KindRegistry.create?, KindRegistry.create?, Context.restrict_get?,
      if_pos (List.contains_iff_mem.2 called)]
    cases known : context.kinds.get? (node.parser.getD "") with
    | none => exact ⟨rfl, rfl, rfl, abreast⟩
    | some kind =>
      obtain ⟨k, single, build⟩ := unspaced _ called kind known
      have reader := (k.argument node.properties).read_wordReader context.registries
        (BuiltinKind.argument_unspaced single node.properties)
      obtain ⟨readers, success⟩ := reader.abreast abreast
      dsimp only [Option.map]
      rw [build]
      exact ⟨rfl, rfl, success, readers⟩

end Attempts

/-! ## Steps that may break off -/

/-- Both break off, or what they come to is related. -/
inductive EndTogether {α β : Type} (R : α → β → Prop) :
    Except WalkError α → Except WalkError β → Prop where
  | broken (error errorToo : WalkError) : EndTogether R (.error error) (.error errorToo)
  | done {a : α} {b : β} (related : R a b) : EndTogether R (.ok a) (.ok b)

section EndTogether

variable {α β γ δ : Type} {R : α → β → Prop} {S : γ → δ → Prop}

theorem EndTogether.bind {x : Except WalkError α} {y : Except WalkError β}
    {f : α → Except WalkError γ} {g : β → Except WalkError δ} (first : EndTogether R x y)
    (next : ∀ a b, R a b → EndTogether S (f a) (g b)) : EndTogether S (x >>= f) (y >>= g) := by
  cases first with
  | broken error errorToo => exact .broken error errorToo
  | done related => exact next _ _ related

theorem EndTogether.map {x : Except WalkError α} {y : Except WalkError β} {f : α → γ} {g : β → δ}
    (first : EndTogether R x y) (related : ∀ a b, R a b → S (f a) (g b)) :
    EndTogether S (x.map f) (y.map g) := by
  cases first with
  | broken error errorToo => exact .broken error errorToo
  | done first => exact .done (related _ _ first)

/-- What is made of related elements one by one is related. -/
theorem endTogether_mapM {f : α → Except WalkError γ} {g : β → Except WalkError δ} {as : List α}
    {bs : List β} (related : List.Forall₂ R as bs)
    (each : ∀ a b, R a b → EndTogether S (f a) (g b)) :
    EndTogether (List.Forall₂ S) (as.mapM f) (bs.mapM g) := by
  induction related with
  | nil => exact .done .nil
  | cons first _ ih =>
    rw [List.mapM_cons, List.mapM_cons]
    exact (each _ _ first).bind fun _ _ head => ih.bind fun _ _ tail => .done (.cons head tail)

end EndTogether

/-! ## Extensions -/

/-- Two extensions: both are attempts or neither is, and their trails are abreast. -/
structure ExtensionsAbreast (root : CommandNode) (extension other : Bool × Trail) : Prop where
  isNew : other.1 = extension.1
  trail : TrailsAbreast root extension.2 other.2

section Extensions

variable {context : Context} {trail other : Trail}

theorem attempt_abreast (unspaced : context.IsUnspaced)
    (abreast : TrailsAbreast context.root trail other) (name : String) {node : CommandNode}
    (below : context.root.Below node) :
    EndTogether (TrailsAbreast context.root) (attempt context.restrict trail name node)
      (attempt context other name node) := by
  have words := abreast.reader.currentWord?
  unfold attempt
  generalize trail.reader.currentWord? = word, other.reader.currentWord? = twin at words
  cases words with
  | none => exact .broken _ _
  | some same =>
    have hops := attemptNode_abreast unspaced below abreast.reader same name
    refine .done (abreast.push hops ?_)
    rw [(attemptNode_tries ..).2]
    exact below.occurs

theorem extend_abreast (unspaced : context.IsUnspaced)
    (abreast : TrailsAbreast context.root trail other) :
    EndTogether (List.Forall₂ (ExtensionsAbreast context.root)) (extend context.restrict trail)
      (extend context other) := by
  have below : ∀ child ∈ trail.node.effectiveChildren context.root,
      context.root.Below child.2 := fun _ => abreast.occurs.effectiveChild_below
  unfold extend
  rw [abreast.node, show context.restrict.root = context.root from rfl]
  generalize trail.node.effectiveChildren context.root = children at below
  have same : List.Forall₂ (fun child twin => twin = child ∧ context.root.Below child.2)
      children children := List.forall₂_same.2 fun child mem => ⟨rfl, below child mem⟩
  cases children with
  | nil => exact .done (.cons ⟨rfl, abreast.add _ _⟩ .nil)
  | cons first rest =>
    refine endTogether_mapM same ?_
    rintro ⟨name, node⟩ _ ⟨rfl, below⟩
    exact (attempt_abreast unspaced abreast name below).map fun _ _ trails => ⟨rfl, trails⟩

/-- Whether there is a separator does not depend on its length. -/
theorem passSeparator_abreast {root : CommandNode} (abreast : TrailsAbreast root trail other) :
    EndTogether (TrailsAbreast root) (passSeparator trail) (passSeparator other) := by
  have tokens := abreast.reader.current?
  unfold passSeparator
  generalize trail.reader.current? = token, other.reader.current? = twin at tokens
  cases tokens with
  | none => exact .done abreast
  | @some token twin alike =>
    dsimp only
    rw [alike.isSpace]
    split
    · obtain ⟨⟨name, node, matched, reader⟩, earlier, occurs⟩ := abreast
      exact .done ⟨⟨name, node, matched, reader.advance⟩, earlier, occurs⟩
    · exact .broken _ _

/-- The attempts that matched are abreast. -/
theorem survivors_abreast {root : CommandNode} {extensions others : List (Bool × Trail)}
    (abreast : List.Forall₂ (ExtensionsAbreast root) extensions others) :
    List.Forall₂ (TrailsAbreast root) ((extensions.filter survives).map Prod.snd)
      ((others.filter survives).map Prod.snd) := by
  have survived : List.Forall₂ (ExtensionsAbreast root) (extensions.filter survives)
      (others.filter survives) := forall₂_filter abreast fun _ _ related => by
    rw [survives, survives, related.isNew, related.trail.latest.matched]
  exact List.rel_map (fun _ _ related => related.trail) survived

end Extensions

/-! ## Reports -/

section Reports

variable {root : CommandNode} {trail other : Trail} {trails others : List Trail}

theorem report_sameWay (kind : AmbiguityKind) (first : TrailsAbreast root trail other)
    (rest : List.Forall₂ (TrailsAbreast root) trails others) :
    (report kind trail trails).SameWay (report kind other others) := by
  refine ⟨rfl, first.path, ?_⟩
  have paths := map_eq_of_forall₂ rest fun _ _ abreast => abreast.path.symm
  unfold report
  dsimp only
  rw [isEmpty_eq_of_forall₂ rest]
  split
  · rfl
  · simp only [Option.map_some, Ambiguity.choices, List.map_map]
    exact congrArg (fun paths => some (kind, paths)) paths.symm

theorem reportFirst_sameWay (kind : AmbiguityKind) (fallback : TrailsAbreast root trail other)
    (abreast : List.Forall₂ (TrailsAbreast root) trails others) :
    (reportFirst kind trail trails).SameWay (reportFirst kind other others) := by
  cases abreast with
  | nil => exact report_sameWay kind fallback .nil
  | cons first rest => exact report_sameWay kind first rest

theorem finish_sameWay {otherwise otherwiseToo : LineReport}
    (abreast : List.Forall₂ (TrailsAbreast root) trails others)
    (sameWay : otherwise.SameWay otherwiseToo) :
    (finish trails otherwise).SameWay (finish others otherwiseToo) := by
  cases abreast with
  | nil => exact sameWay
  | cons first rest => exact report_sameWay .terminals first rest

/-- Lines end at different offsets, but in front of the same trails. -/
theorem incomplete_abreast (line lineToo : List Char)
    (abreast : List.Forall₂ (TrailsAbreast root) trails others) :
    List.Forall₂ (TrailsAbreast root) (incomplete line trails) (incomplete lineToo others) := by
  have unfinished : List.Forall₂ (TrailsAbreast root) (trails.filter Trail.isIncomplete)
      (others.filter Trail.isIncomplete) :=
    forall₂_filter abreast fun _ _ related => related.isIncomplete
  exact List.rel_map (fun _ _ related => related.add _ _) unfinished

/-- The trails that read furthest are abreast, and so are the others. -/
theorem furthest_abreast (first : TrailsAbreast root trail other)
    (rest : List.Forall₂ (TrailsAbreast root) trails others) :
    TrailsAbreast root (furthest trail trails).1 (furthest other others).1 ∧
      List.Forall₂ (TrailsAbreast root) (furthest trail trails).2 (furthest other others).2 := by
  induction rest generalizing trail other with
  | nil => exact ⟨first, .nil⟩
  | @cons next nextToo trails others second rest ih =>
    obtain ⟨best, left⟩ := ih second
    unfold furthest
    dsimp only
    rw [first.reader.index, best.reader.index]
    split
    · exact ⟨best, .cons first left⟩
    · exact ⟨first, .cons second rest⟩

/-- An explanation is something more to report, if anything. -/
theorem explain_eq_add (context : Context) (trail : Trail) :
    ∃ report, explain context trail = trail.add report := by
  have unchanged : trail = trail.add ∅ := by simp [Trail.add, Hop.add]
  unfold explain
  split
  · split
    · exact ⟨_, rfl⟩
    · exact ⟨∅, unchanged⟩
  · exact ⟨∅, unchanged⟩

theorem reportFailure_sameWay (context contextToo : Context)
    (first : TrailsAbreast root trail other)
    (rest : List.Forall₂ (TrailsAbreast root) trails others) :
    (reportFailure context trail trails).SameWay (reportFailure contextToo other others) := by
  obtain ⟨best, left⟩ := furthest_abreast first rest
  obtain ⟨said, explained⟩ := explain_eq_add context (furthest trail trails).1
  obtain ⟨saidToo, explainedToo⟩ := explain_eq_add contextToo (furthest other others).1
  unfold reportFailure
  dsimp only
  rw [explained, explainedToo]
  exact report_sameWay .failures (best.add said saidToo) left

theorem failure_sameWay {context : Context} (starts : TrailsAbreast root trail other)
    (abreast : List.Forall₂ (TrailsAbreast root) trails others) :
    (failure context.restrict trail trails).SameWay (failure context other others) := by
  cases abreast with
  | nil => exact report_sameWay .failures starts .nil
  | cons first rest => exact reportFailure_sameWay context.restrict context first rest

end Reports

/-! ## Generations -/

/-- The trails of two states are abreast, in the same order. -/
structure StatesAbreast (root : CommandNode) (state other : State) : Prop where
  frontier : List.Forall₂ (TrailsAbreast root) state.frontier other.frontier
  terminals : List.Forall₂ (TrailsAbreast root) state.terminals other.terminals

/-- Both walks are over, having taken the same way, or both go on from states abreast. -/
inductive ProgressAbreast (root : CommandNode) : Progress → Progress → Prop where
  | done {report other : LineReport} (sameWay : report.SameWay other) :
    ProgressAbreast root (.done report) (.done other)
  | next {state other : State} (states : StatesAbreast root state other) :
    ProgressAbreast root (.next state) (.next other)

section Generations

variable {context : Context} {start startToo : Trail} {state other : State}
  (line lineToo : List Char)

theorem generation_abreast (unspaced : context.IsUnspaced)
    (starts : TrailsAbreast context.root start startToo)
    (states : StatesAbreast context.root state other) :
    EndTogether (ProgressAbreast context.root) (generation context.restrict line start state)
      (generation context lineToo startToo other) := by
  have live : List.Forall₂ (TrailsAbreast context.root)
      (state.frontier.filter fun trail => !trail.atEnd)
      (other.frontier.filter fun trail => !trail.atEnd) :=
    forall₂_filter states.frontier fun _ _ related => congrArg not related.atEnd
  have terminals : List.Forall₂ (TrailsAbreast context.root)
      (state.terminals ++ state.frontier.filter Trail.isTerminal)
      (other.terminals ++ other.frontier.filter Trail.isTerminal) :=
    List.rel_append states.terminals
      (forall₂_filter states.frontier fun _ _ related => related.isTerminal)
  unfold generation
  dsimp only
  rw [isEmpty_eq_of_forall₂ live]
  split
  · have unfinished := incomplete_abreast line lineToo states.frontier
    exact .done (.done (finish_sameWay terminals
      (reportFirst_sameWay .incomplete starts unfinished)))
  · refine (endTogether_mapM live fun _ _ => extend_abreast unspaced).bind
      fun extensions extensionsToo nested => ?_
    have attempts := List.rel_flatten nested
    generalize extensions.flatten = tried, extensionsToo.flatten = triedToo at attempts
    have survivors := survivors_abreast attempts
    show EndTogether _ (if ((tried.filter survives).map Prod.snd).isEmpty then _ else _)
      (if ((triedToo.filter survives).map Prod.snd).isEmpty then _ else _)
    rw [isEmpty_eq_of_forall₂ survivors]
    split
    · have failed : List.Forall₂ (TrailsAbreast context.root) (tried.map Prod.snd)
          (triedToo.map Prod.snd) := List.rel_map (fun _ _ related => related.trail) attempts
      exact .done (.done (finish_sameWay terminals (failure_sameWay starts failed)))
    · exact (endTogether_mapM survivors fun _ _ => passSeparator_abreast).bind
        fun _ _ next => .done (.next ⟨next, terminals⟩)

theorem run_abreast (unspaced : context.IsUnspaced)
    (starts : TrailsAbreast context.root start startToo) (fuel : Nat)
    (states : StatesAbreast context.root state other) :
    Option.Rel (EndTogether LineReport.SameWay) (run context.restrict line start fuel state)
      (run context lineToo startToo fuel other) := by
  induction fuel generalizing state other with
  | zero => exact .none
  | succ fuel ih =>
    have step := generation_abreast line lineToo unspaced starts states
    rw [run, run]
    generalize generation context.restrict line start state = outcome,
      generation context lineToo startToo other = outcomeToo at step
    cases step with
    | broken error errorToo => exact .some (.broken error errorToo)
    | done progress =>
      cases progress with
      | done sameWay => exact .some (.done sameWay)
      | next states => exact ih states

end Generations

/-! ## Whole walks -/

section Walks

variable {context : Context} {line other : List Char}

theorem startTrail_abreast (context : Context)
    (alike : List.Forall₂ Token.Alike (Token.ofLine line) (Token.ofLine other)) :
    TrailsAbreast context.root (startTrail context.restrict line) (startTrail context other) := by
  have reader : (startTrail context.restrict line).reader.Abreast
      (startTrail context other).reader := by
    rw [startTrail_reader, startTrail_reader]
    unfold firstReader TokenReader.ofLine
    generalize Token.ofLine line = tokens, Token.ofLine other = others at alike
    cases alike with
    | nil => exact ⟨.nil, rfl⟩
    | cons first rest =>
      dsimp only
      rw [first.isSpace]
      split
      · exact ⟨rest, rfl⟩
      · exact ⟨.cons first rest, rfl⟩
  exact ⟨⟨rfl, rfl, rfl, reader⟩, .nil, CommandNode.occurs_root _⟩

theorem walk_abreast (unspaced : context.IsUnspaced)
    (alike : List.Forall₂ Token.Alike (Token.ofLine line) (Token.ofLine other)) :
    EndTogether LineReport.SameWay (walk context.restrict line) (walk context other) := by
  have starts := startTrail_abreast context alike
  have states : StatesAbreast context.root ⟨[startTrail context.restrict line], []⟩
      ⟨[startTrail context other], []⟩ := ⟨.cons starts .nil, .nil⟩
  have ran := run_abreast line other unspaced starts
    ((startTrail context.restrict line).reader.tokens.length + 1) states
  unfold walk
  dsimp only
  rw [← starts.reader.tokens.length_eq]
  generalize run context.restrict line _ _ _ = outcome, run context other _ _ _ = outcomeToo at ran
  cases ran with
  | none => exact .broken _ _
  | some ends => exact ends

end Walks

end Walk

/-- Separators may be as long as one likes. Two lines whose tokens are alike, read against a tree
that calls for no argument of several words, take the same way: both are a success or neither
is, with the same path, the same kind of ambiguity and the same alternatives. -/
theorem walk_respaced (context : Context) (unspaced : context.IsUnspaced) (line other : List Char)
    (alike : List.Forall₂ Token.Alike (Token.ofLine line) (Token.ofLine other)) :
    ∃ report reportToo, walk context line = .ok report ∧ walk context other = .ok reportToo ∧
      report.SameWay reportToo := by
  obtain ⟨-, -, middle, -, -, walked⟩ := Walk.walk_ends (Context.restrict_isBuiltin unspaced) line
  have same : List.Forall₂ Token.Alike (Token.ofLine line) (Token.ofLine line) :=
    List.forall₂_same.2 fun _ _ => ⟨rfl, fun _ => rfl⟩
  have ends := Walk.walk_abreast unspaced same
  have endsToo := Walk.walk_abreast unspaced alike
  rw [walked] at ends endsToo
  generalize walk context line = outcome, walk context other = outcomeToo at ends endsToo
  cases ends with
  | done first =>
    cases endsToo with
    | done second => exact ⟨_, _, rfl, rfl, first.symm.trans second⟩

/-- A number behind a literal, with one space between them or with three. -/
theorem walk_respaced_number :
    let number : CommandNode := ⟨.argument, [], true, none, some "brigadier:integer", []⟩
    let give : CommandNode := ⟨.literal, [("count", number)], false, none, none, []⟩
    let context : Context := ⟨⟨.root, [("give", give)], false, none, none, []⟩, .empty, .builtin⟩
    context.IsUnspaced ∧ ∃ report reportToo, walk context "give 3".toList = .ok report ∧
      walk context "give   3".toList = .ok reportToo ∧ report.success = true ∧
        report.SameWay reportToo := by
  intro number give context
  have unspaced : context.IsUnspaced := by
    intro name mem kind found
    have names : context.kindNames = ["brigadier:integer"] := rfl
    rw [names, List.mem_singleton] at mem
    subst mem
    have known : context.kinds.get? "brigadier:integer" = some BuiltinKind.integer.kind := rfl
    obtain rfl := Option.some.inj (known.symm.trans found)
    exact ⟨.integer, by decide, rfl⟩
  have alike : List.Forall₂ Token.Alike (Token.ofLine "give 3".toList)
      (Token.ofLine "give   3".toList) :=
    .cons ⟨rfl, fun _ => rfl⟩ (.cons ⟨rfl, nofun⟩ (.cons ⟨rfl, fun _ => rfl⟩ .nil))
  obtain ⟨report, reportToo, walked, walkedToo, sameWay⟩ :=
    walk_respaced context unspaced "give 3".toList "give   3".toList alike
  obtain ⟨_, again, success⟩ : ∃ report, walk context "give 3".toList = .ok report ∧
      report.success = true := ⟨_, rfl, rfl⟩
  obtain rfl := Except.ok.inj (walked.symm.trans again)
  exact ⟨unspaced, report, reportToo, walked, walkedToo, success, sameWay⟩

end CommandScript

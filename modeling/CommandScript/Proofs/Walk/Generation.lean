import CommandScript.Proofs.Walk.Trail
import Mathlib.Data.List.Basic

/-!
One generation of a walk.

While every trail of the frontier stands at a word or at the end of the line, no
step of a generation breaks off (`Walk.generation_generated`): the walk is over, or
the next frontier is made of what goes on from each trail (`Walk.offspring`), and its
trails stand at a word or at the end again. With kinds that only read forward a generation
may break off, but whatever goes on does so further down the line (`Walk.GoesOn.sound`).
-/

namespace CommandScript

open TokenReader

namespace Walk

/-- What is done to each element of a list without an error is done to all of them. -/
theorem mapM_eq_map {α β ε : Type} {f : α → Except ε β} {g : α → β} {as : List α}
    (each : ∀ a ∈ as, f a = .ok (g a)) : as.mapM f = .ok (as.map g) := by
  induction as with
  | nil => rfl
  | cons a as ih =>
    rw [List.mapM_cons, each a (List.mem_cons_self ..),
      ih fun b mem => each b (List.mem_cons_of_mem _ mem)]
    rfl

/-- What ends without an error went on from something without one. -/
theorem bind_eq_ok {α β ε : Type} {x : Except ε α} {f : α → Except ε β} {b : β}
    (done : x >>= f = .ok b) : ∃ a, x = .ok a ∧ f a = .ok b := by
  cases x with
  | error e => cases done
  | ok a => exact ⟨a, rfl, done⟩

/-- What is made of a list without an error is made of its elements one by one. -/
theorem mapM_eq_ok {α β ε : Type} {f : α → Except ε β} {as : List α} {bs : List β}
    (done : as.mapM f = .ok bs) :
    bs.length = as.length ∧ ∀ b ∈ bs, ∃ a ∈ as, f a = .ok b := by
  induction as generalizing bs with
  | nil =>
    obtain rfl := Except.ok.inj done
    exact ⟨rfl, nofun⟩
  | cons a as ih =>
    rw [List.mapM_cons] at done
    obtain ⟨b, first, done⟩ := bind_eq_ok done
    obtain ⟨later, rest, done⟩ := bind_eq_ok done
    obtain rfl := Except.ok.inj done
    obtain ⟨length, each⟩ := ih rest
    refine ⟨congrArg Nat.succ length, List.forall_mem_cons.2 ⟨?_, fun c mem => ?_⟩⟩
    · exact ⟨a, List.mem_cons_self .., first⟩
    · obtain ⟨d, memD, made⟩ := each c mem
      exact ⟨d, List.mem_cons_of_mem _ memD, made⟩

/-! ## Extensions -/

/-- What `extend` makes of a trail that stands on a word; nothing of any other. -/
def extensions (context : Context) (trail : Trail) : List (Bool × Trail) :=
  match trail.reader.currentWord? with
  | none => []
  | some word =>
    match trail.node.effectiveChildren context.root with
    | [] => [(false, trail.add (.error trail.reader.remaining.span Fault.expectedEnd.message))]
    | children => children.map fun (name, node) =>
        (true, trail.push (attemptNode context name node word trail.reader))

/-- What an extension of a trail is: the trail itself with an error at a dead end, or
the trail with one more hop that was tried at the word under its reader. -/
inductive Extended (context : Context) (trail : Trail) : Bool × Trail → Prop where
  | deadEnd : Extended context trail
      (false, trail.add (.error trail.reader.remaining.span Fault.expectedEnd.message))
  | tried {name : String} {node : CommandNode} {word : Slice}
    (found : trail.reader.current? = some ⟨word, false⟩)
    (child : (name, node) ∈ trail.node.effectiveChildren context.root) :
    Extended context trail (true, trail.push (attemptNode context name node word trail.reader))

/-- An extension is a hop that matched. -/
def survives (extension : Bool × Trail) : Bool :=
  extension.1 && extension.2.latest.matched

/-- The trails that go on from one: its extensions that survive, past the separator. -/
def offspring (context : Context) (trail : Trail) : List Trail :=
  ((extensions context trail).filter survives).map fun extension => extension.2.passed

section Extensions

variable {context : Context} {line : List Char} {trail : Trail}

theorem extend_eq (sound : trail.Sound line) (live : trail.atEnd = false) :
    extend context trail = .ok (extensions context trail) := by
  obtain ⟨word, found⟩ := sound.atWord.currentWord?_eq_some live
  unfold extend extensions
  rw [found]
  cases trail.node.effectiveChildren context.root with
  | nil => rfl
  | cons child children =>
    apply mapM_eq_map
    intro child _
    unfold attempt
    rw [found]
    rfl

theorem extended_of_mem {extension : Bool × Trail}
    (mem : extension ∈ extensions context trail) : Extended context trail extension := by
  unfold extensions at mem
  split at mem
  · cases mem
  · rename_i word found
    split at mem
    · obtain rfl := List.mem_singleton.1 mem
      exact .deadEnd
    · rcases List.mem_map.1 mem with ⟨⟨name, node⟩, child, rfl⟩
      exact .tried (currentWord?_eq_some found) child

/-- Whatever `extend` makes of a trail is an extension of it. -/
theorem extended_of_extend {extended : List (Bool × Trail)}
    (done : extend context trail = .ok extended) :
    ∀ extension ∈ extended, Extended context trail extension := by
  unfold extend at done
  split at done
  · obtain rfl := Except.ok.inj done
    exact List.forall_mem_singleton.2 .deadEnd
  · intro extension mem
    obtain ⟨⟨name, node⟩, child, tried⟩ := (mapM_eq_ok done).2 extension mem
    unfold attempt at tried
    cases found : trail.reader.currentWord? with
    | none => rw [found] at tried; cases tried
    | some word =>
      rw [found] at tried
      obtain rfl := Except.ok.inj tried
      exact .tried (currentWord?_eq_some found) child

/-- A trail goes on as another: one of its extensions survives and passes the separator. -/
inductive GoesOn (context : Context) (trail next : Trail) : Prop where
  | passed {extension : Bool × Trail} (extended : Extended context trail extension)
    (survived : survives extension = true) (passed : passSeparator extension.2 = .ok next) :
    GoesOn context trail next

/-- What goes on from a trail has one hop more and stands at a word or at the end, further on. -/
theorem GoesOn.sound (forward : context.kinds.IsForward) (sound : trail.Sound line) {next : Trail}
    (goesOn : GoesOn context trail next) :
    next.Sound line ∧ trail.reader.index < next.reader.index ∧
      next.reader.tokens = trail.reader.tokens ∧ next.earlier = trail.latest :: trail.earlier := by
  cases goesOn with
  | passed extended survived passed =>
    cases extended with
    | deadEnd => cases survived
    | @tried name node word found child =>
      have ahead := attemptNode_ahead forward name node sound.valid found
      generalize attemptNode context name node word trail.reader = hop at ahead passed
      obtain ⟨separated, earlier⟩ := Trail.atSeparator_of_passSeparator passed
      obtain ⟨same, reader, -, -⟩ := Trail.passSeparator_eq separated
      obtain rfl := Except.ok.inj (passed.symm.trans same)
      have valid : (trail.push hop).reader.Valid := ahead.valid sound.valid
      have past := valid.passSpaces_ahead
      rw [← reader] at past
      have forth := past.trans ahead
      refine ⟨⟨past.valid valid, forth.line.trans sound.sameLine, ?_⟩, ?_, forth.tokens, earlier⟩
      · rw [reader]
        exact valid.passSpaces_atWord
      · exact Nat.lt_of_lt_of_le (ahead.index_lt_of_atSeparator found separated) past.le

/-- At the end of a line nothing is tried. -/
theorem extensions_of_atEnd (ends : trail.atEnd = true) : extensions context trail = [] := by
  have none : trail.reader.currentWord? = none := currentWord?_of_atEnd ends
  rw [extensions, none]

theorem offspring_of_atEnd (ends : trail.atEnd = true) : offspring context trail = [] := by
  rw [offspring, extensions_of_atEnd ends]
  rfl

/-- An extension that survives is a hop behind the reader of its trail. -/
theorem behind_of_survives (builtin : context.kinds.IsBuiltin) (sound : trail.Sound line)
    {extension : Bool × Trail} (mem : extension ∈ extensions context trail)
    (survived : survives extension = true) :
    ∃ hop : Hop, extension.2 = trail.push hop ∧ Hop.Behind line trail.reader hop ∧
      hop.matched = true := by
  cases extended_of_mem mem with
  | deadEnd => cases survived
  | @tried name node word found child =>
    have behind := attemptNode_behind builtin name node sound.valid found
    rw [sound.sameLine] at behind
    exact ⟨_, rfl, behind, survived⟩

theorem passSeparator_of_survives (builtin : context.kinds.IsBuiltin) (sound : trail.Sound line)
    {extension : Bool × Trail} (mem : extension ∈ extensions context trail)
    (survived : survives extension = true) :
    passSeparator extension.2 = .ok extension.2.passed := by
  obtain ⟨hop, push, behind, matched⟩ := behind_of_survives builtin sound mem survived
  have separated : (trail.push hop).reader.AtSeparator := behind.separated matched
  rw [push]
  exact (Trail.passSeparator_eq separated).1

end Extensions

/-! ## Outcomes -/

/-- Every trail of the frontier stands at a word of the line or at its end. -/
def State.Sound (line : List Char) (state : State) : Prop :=
  ∀ trail ∈ state.frontier, trail.Sound line

/-- The terminals once those of the frontier are added. -/
def State.allTerminals (state : State) : List Trail :=
  state.terminals ++ state.frontier.filter Trail.isTerminal

/-- The report on a walk without a terminal whose last attempts are given. -/
def failure (context : Context) (start : Trail) : List Trail → LineReport
  | [] => report .failures start []
  | first :: others => reportFailure context first others

/-- What a generation that does not break off leads to. -/
inductive Generated (context : Context) (line : List Char) (start : Trail) (state : State) :
    Except WalkError Progress → Prop where
  | exhausted (ends : ∀ trail ∈ state.frontier, trail.atEnd = true) :
    Generated context line start state (.ok (.done (finish state.allTerminals
      (reportFirst .incomplete start (incomplete line state.frontier)))))
  | stuck (barren : state.frontier.flatMap (offspring context) = [])
    (live : ∃ trail ∈ state.frontier, trail.atEnd = false) :
    Generated context line start state (.ok (.done (finish state.allTerminals
      (failure context start ((state.frontier.flatMap (extensions context)).map Prod.snd)))))
  | next (fertile : state.frontier.flatMap (offspring context) ≠ []) :
    Generated context line start state
      (.ok (.next ⟨state.frontier.flatMap (offspring context), state.allTerminals⟩))

/-- A walk ends where nothing goes on from the frontier, with the first terminal or without
success. -/
theorem Generated.ended {context : Context} {line : List Char} {start : Trail} {state : State}
    {report : LineReport} (generated : Generated context line start state (.ok (.done report))) :
    state.frontier.flatMap (offspring context) = [] ∧
      ∃ otherwise, otherwise.success = false ∧ report = finish state.allTerminals otherwise := by
  cases generated with
  | exhausted ends =>
    refine ⟨List.flatMap_eq_nil_iff.2 fun trail mem => offspring_of_atEnd (ends trail mem), _, ?_,
      rfl⟩
    cases incomplete line state.frontier <;> rfl
  | stuck barren =>
    refine ⟨barren, _, ?_, rfl⟩
    cases (state.frontier.flatMap (extensions context)).map Prod.snd <;> rfl

theorem flatMap_live {β : Type} (f : Trail → List β)
    (none : ∀ trail : Trail, trail.atEnd = true → f trail = []) (frontier : List Trail) :
    (frontier.filter fun trail => !trail.atEnd).flatMap f = frontier.flatMap f := by
  induction frontier with
  | nil => rfl
  | cons trail frontier ih =>
    rw [List.filter_cons]
    cases ends : trail.atEnd with
    | true => simp [ih, none trail ends]
    | false => simp [ih]

/-- Survivors of all extensions, past the separator, are what goes on from the trails. -/
theorem map_passed_survivors (context : Context) (trails : List Trail) :
    (((trails.flatMap (extensions context)).filter survives).map Prod.snd).map Trail.passed =
      trails.flatMap (offspring context) := by
  rw [List.map_map, List.filter_flatMap, List.map_flatMap]
  rfl

/-- No extension of some trails survives if and only if nothing goes on from them. -/
theorem isEmpty_survivors (context : Context) (trails : List Trail) :
    (((trails.flatMap (extensions context)).filter survives).map Prod.snd).isEmpty =
      (trails.flatMap (offspring context)).isEmpty := by
  rw [← map_passed_survivors, List.isEmpty_map, List.isEmpty_map, List.isEmpty_map]

section Generations

variable {context : Context} {line : List Char} {state : State}

/-- All trails of a frontier that are not at the end can be extended. -/
theorem mapM_extend (sound : state.Sound line) :
    (state.frontier.filter fun trail => !trail.atEnd).mapM (extend context) =
      .ok ((state.frontier.filter fun trail => !trail.atEnd).map (extensions context)) := by
  apply mapM_eq_map
  intro trail mem
  rcases List.mem_filter.1 mem with ⟨inFrontier, live⟩
  exact extend_eq (sound trail inFrontier) (by simpa using live)

/-- Every extension that survives can pass the separator. -/
theorem mapM_passSeparator (builtin : context.kinds.IsBuiltin) (sound : state.Sound line) :
    (((state.frontier.flatMap (extensions context)).filter survives).map Prod.snd).mapM
      passSeparator = .ok (state.frontier.flatMap (offspring context)) := by
  rw [← map_passed_survivors]
  apply mapM_eq_map
  intro trail mem
  rcases List.mem_map.1 mem with ⟨extension, found, rfl⟩
  rcases List.mem_filter.1 found with ⟨memFlat, survived⟩
  rcases List.mem_flatMap.1 memFlat with ⟨parent, inFrontier, memExtension⟩
  exact passSeparator_of_survives builtin (sound parent inFrontier) memExtension survived

/-- From a sound state no step of a generation breaks off. -/
theorem generation_generated (builtin : context.kinds.IsBuiltin) (start : Trail)
    (sound : state.Sound line) :
    Generated context line start state (generation context line start state) := by
  have flat : (List.map (extensions context)
      (state.frontier.filter fun trail => !trail.atEnd)).flatten =
        state.frontier.flatMap (extensions context) :=
    flatMap_live _ (fun _ => extensions_of_atEnd) _
  unfold generation
  dsimp only
  split
  · rename_i none
    apply Generated.exhausted
    intro trail mem
    have ends := List.filter_eq_nil_iff.1 (List.isEmpty_iff.1 none) trail mem
    simpa using ends
  · rename_i some
    rw [mapM_extend sound]
    show Generated context line start state (if (((List.map (extensions context)
      (state.frontier.filter fun trail => !trail.atEnd)).flatten.filter survives).map
        Prod.snd).isEmpty then _ else _)
    rw [flat, isEmpty_survivors]
    split
    · rename_i barren
      obtain ⟨trail, mem⟩ := List.exists_mem_of_ne_nil _ fun none => some (List.isEmpty_iff.2 none)
      obtain ⟨inFrontier, live⟩ := List.mem_filter.1 mem
      exact .stuck (List.isEmpty_iff.1 barren) ⟨trail, inFrontier, by simpa using live⟩
    · rename_i fertile
      show Generated context line start state (do
        let frontier ← (((state.frontier.flatMap (extensions context)).filter survives).map
          Prod.snd).mapM passSeparator
        return .next ⟨frontier, state.allTerminals⟩)
      rw [mapM_passSeparator builtin sound]
      exact .next fun barren => fertile (List.isEmpty_iff.2 barren)

/-- The next frontier is made of trails that go on from this one, and there are some. -/
theorem goesOn_of_next {start : Trail} {after : State}
    (step : generation context line start state = .ok (.next after)) :
    after.frontier ≠ [] ∧
      ∀ next ∈ after.frontier, ∃ trail ∈ state.frontier, GoesOn context trail next := by
  unfold generation at step
  dsimp only at step
  split at step
  · cases step
  · obtain ⟨attempts, extended, step⟩ := bind_eq_ok step
    split at step
    · cases step
    · rename_i fertile
      obtain ⟨frontier, passed, step⟩ := bind_eq_ok step
      obtain rfl := Progress.next.inj (Except.ok.inj step)
      obtain ⟨length, each⟩ := mapM_eq_ok passed
      refine ⟨fun none => fertile ?_, fun next mem => ?_⟩
      · exact List.isEmpty_iff_length_eq_zero.2 (length.symm.trans (congrArg List.length none))
      · obtain ⟨_, survivor, passed⟩ := each next mem
        obtain ⟨extension, found, rfl⟩ := List.mem_map.1 survivor
        obtain ⟨memFlat, survived⟩ := List.mem_filter.1 found
        obtain ⟨list, memList, memExtension⟩ := List.mem_flatten.1 memFlat
        obtain ⟨trail, live, extended⟩ := (mapM_eq_ok extended).2 list memList
        refine ⟨trail, (List.mem_filter.1 live).1, ?_⟩
        exact .passed (extended_of_extend extended extension memExtension) survived passed

end Generations

end Walk

end CommandScript

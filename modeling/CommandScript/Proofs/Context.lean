import CommandScript.Context
import CommandScript.Proofs.Grammar.Preorder

/-!
The trees that a context is built from.

A node can be used if its redirect leads somewhere and, being an argument, it names a kind
(`Context.Usable`). A node that cannot be used has one fault only: a redirect that leads nowhere
hides that no kind is named (`Context.Offends`). A context is built exactly if the top of the
tree is a root and every node below it can be used; otherwise the fault of the first node that
cannot be used is what is reported (`Context.build_decides`). Neither the tables nor the kinds
that are known have a part in it.
-/

namespace CommandScript.Context

/-- A redirect of the node, if it has one, leads somewhere. -/
def Leads (root node : CommandNode) : Prop :=
  ∀ target, node.redirect = some target → ∃ there, root.resolve? target = some there

/-- The node can be used in a tree: its redirect leads somewhere, and as an argument it names a
kind. -/
structure Usable (root node : CommandNode) : Prop where
  leads : Leads root node
  names : node.kind = .argument → ∃ name, node.parser = some name

/-- What is wrong with a node at a path, and the wording of it. -/
inductive Offends (root : CommandNode) (path : List String) (node : CommandNode) :
    LoadError → String → Prop where
  | astray (target : List String) (redirects : node.redirect = some target)
      (nowhere : root.resolve? target = none) :
      Offends root path node (.unresolvedRedirect path target)
        ("node '" ++ " ".intercalate path ++ "' redirects to unknown node '" ++
          " ".intercalate target ++ "'")
  | unnamed (leads : Leads root node) (argument : node.kind = .argument)
      (unnamed : node.parser = none) :
      Offends root path node (.missingParser path)
        ("argument node '" ++ " ".intercalate path ++ "' has no parser")

/-- A node below the root stands at a position, and has a path. -/
def StandsAt (root : CommandNode) (place : List Nat) (path : List String) (node : CommandNode) :
    Prop :=
  place ≠ [] ∧ root.entryAt? place = some (path, node)

section Node

variable {root node : CommandNode} {path : List String} {error : LoadError}

theorem missing_eq_none :
    offence?.missing path node = none ↔
      (node.kind = .argument → ∃ name, node.parser = some name) := by
  rw [offence?.missing, CommandNode.isArgument]
  cases node.parser <;> simp

theorem missing_eq_some :
    offence?.missing path node = some error ↔
      node.kind = .argument ∧ node.parser = none ∧ error = .missingParser path := by
  rw [offence?.missing, CommandNode.isArgument]
  cases node.parser <;> simp [eq_comm]

/-- A redirect that leads somewhere is no offence. -/
theorem offence?_of_leads (leads : Leads root node) :
    offence? root path node = offence?.missing path node := by
  rw [offence?]
  split
  · rename_i target redirects
    obtain ⟨there, found⟩ := leads target redirects
    rw [found]
    rfl
  · rfl

theorem offence?_of_astray {target : List String} (redirects : node.redirect = some target)
    (nowhere : root.resolve? target = none) :
    offence? root path node = some (.unresolvedRedirect path target) := by
  simp only [offence?, redirects, nowhere, Option.isNone_none, if_true]

theorem leads_or_astray (root node : CommandNode) :
    Leads root node ∨
      ∃ target, node.redirect = some target ∧ root.resolve? target = none := by
  by_cases astray : ∃ target, node.redirect = some target ∧ root.resolve? target = none
  · exact Or.inr astray
  · refine Or.inl fun target redirects => Option.ne_none_iff_exists'.1 fun nowhere => ?_
    exact astray ⟨target, redirects, nowhere⟩

/-- Nothing is wrong with the nodes that can be used, and with no other. -/
theorem offence?_eq_none : offence? root path node = none ↔ Usable root node := by
  rcases leads_or_astray root node with leads | ⟨target, redirects, nowhere⟩
  · rw [offence?_of_leads leads, missing_eq_none]
    exact ⟨fun names => ⟨leads, names⟩, fun usable => usable.names⟩
  · rw [offence?_of_astray redirects nowhere]
    refine iff_of_false nofun fun usable => ?_
    obtain ⟨there, found⟩ := usable.leads target redirects
    rw [nowhere] at found
    cases found

/-- What is wrong with a node is its offence, with its wording. -/
theorem offence?_eq_some :
    offence? root path node = some error ↔ Offends root path node error error.message := by
  rcases leads_or_astray root node with leads | ⟨target, redirects, nowhere⟩
  · rw [offence?_of_leads leads, missing_eq_some]
    constructor
    · rintro ⟨argument, unnamed, rfl⟩
      exact .unnamed leads argument unnamed
    · intro offends
      cases offends with
      | astray target redirects nowhere =>
        obtain ⟨there, found⟩ := leads target redirects
        rw [nowhere] at found
        cases found
      | unnamed _ argument unnamed => exact ⟨argument, unnamed, rfl⟩
  · rw [offence?_of_astray redirects nowhere, Option.some_inj]
    constructor
    · rintro rfl
      exact .astray target redirects nowhere
    · intro offends
      cases offends with
      | astray other same _ =>
        obtain rfl := Option.some.inj (redirects.symm.trans same)
        rfl
      | unnamed leads =>
        obtain ⟨there, found⟩ := leads target redirects
        rw [nowhere] at found
        cases found

end Node

section Tree

variable (root : CommandNode)

/-- No fault is found exactly in a tree that can be used. -/
theorem fault?_eq_none :
    fault? root = none ↔
      root.kind = .root ∧
        ∀ place path node, StandsAt root place path node → Usable root node := by
  rw [fault?]
  split
  · rename_i isRoot
    rw [CommandNode.descendants_findSome?_eq_none]
    simp only [offence?_eq_none, StandsAt, Prod.forall]
    constructor
    · intro usable
      exact ⟨isRoot, fun place path node stands => usable place stands.1 path node stands.2⟩
    · rintro ⟨-, usable⟩ place nonempty path node there
      exact usable place path node ⟨nonempty, there⟩
  · rename_i other
    exact iff_of_false nofun fun good => other good.1

/-- The fault that is found is that the top is no root, or the one of the first node that cannot
be used. -/
theorem fault?_eq_some (error : LoadError) :
    fault? root = some error ↔
      (root.kind ≠ .root ∧ error = .notRoot) ∨
        (root.kind = .root ∧ ∃ place path node, StandsAt root place path node ∧
          Offends root path node error error.message ∧
          ∀ earlier < place, ∀ pathThere nodeThere,
            StandsAt root earlier pathThere nodeThere → Usable root nodeThere) := by
  rw [fault?]
  split
  · rename_i isRoot
    rw [CommandNode.descendants_findSome?]
    simp only [offence?_eq_none, offence?_eq_some, Prod.exists, Prod.forall]
    constructor
    · rintro ⟨place, path, node, nonempty, there, offends, before⟩
      refine Or.inr ⟨isRoot, place, path, node, ⟨nonempty, there⟩, offends, ?_⟩
      rintro earlier less pathThere nodeThere ⟨nonemptyToo, thereToo⟩
      exact before earlier less nonemptyToo pathThere nodeThere thereToo
    · rintro (⟨other, -⟩ | ⟨-, place, path, node, ⟨nonempty, there⟩, offends, before⟩)
      · exact absurd isRoot other
      · refine ⟨place, path, node, nonempty, there, offends, ?_⟩
        intro earlier less nonemptyToo pathThere nodeThere thereToo
        exact before earlier less pathThere nodeThere ⟨nonemptyToo, thereToo⟩
  · rename_i other
    constructor
    · intro found
      exact Or.inl ⟨other, (Option.some.inj found).symm⟩
    · rintro (⟨-, rfl⟩ | ⟨isRoot, -⟩)
      · rfl
      · exact absurd isRoot other

theorem build_eq_ok {registries : Registries} {kinds : KindRegistry} {context : Context} :
    build root registries kinds = .ok context ↔
      fault? root = none ∧ context = ⟨root, registries, kinds⟩ := by
  rw [build]
  cases fault? root <;> simp [eq_comm]

theorem build_eq_error {registries : Registries} {kinds : KindRegistry} {error : LoadError} :
    build root registries kinds = .error error ↔ fault? root = some error := by
  rw [build]
  cases fault? root <;> simp

/-- Every node below the root of a context that was built can be used. -/
theorem usable_of_below {registries : Registries} {kinds : KindRegistry} {context : Context}
    (built : build root registries kinds = .ok context) {node : CommandNode}
    (below : context.root.Below node) : Usable context.root node := by
  obtain ⟨sound, rfl⟩ := (build_eq_ok root).1 built
  obtain ⟨path, listed⟩ := below
  unfold fault? at sound
  split at sound
  · have none := List.findSome?_eq_none_iff.1 sound (path, node) listed
    exact offence?_eq_none.1 none
  · cases sound

/-- A context is built, of the tree as it is, exactly if its top is a root and every node below it
can be used. Otherwise what is reported is that the top is no root; and if it is one, the offence
of the node at which the tree is left unusable first: a node is reached before those below it,
and its children are reached one after the other in their order, each with all that stands below
it. -/
theorem build_decides (registries : Registries) (kinds : KindRegistry) :
    (∀ context, build root registries kinds = .ok context ↔
      context = ⟨root, registries, kinds⟩ ∧ root.kind = .root ∧
        ∀ place path node, StandsAt root place path node → Usable root node) ∧
    ∀ error, build root registries kinds = .error error ↔
      (root.kind ≠ .root ∧ error = .notRoot) ∨
        (root.kind = .root ∧ ∃ place path node, StandsAt root place path node ∧
          Offends root path node error error.message ∧
          ∀ earlier < place, ∀ pathThere nodeThere,
            StandsAt root earlier pathThere nodeThere → Usable root nodeThere) := by
  constructor
  · intro context
    rw [build_eq_ok, fault?_eq_none, and_comm]
  · intro error
    rw [build_eq_error, fault?_eq_some]

end Tree

end CommandScript.Context

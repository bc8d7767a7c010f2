import CommandScript.Grammar
import Mathlib.Data.List.Basic

/-!
Erasing a child of the command tree.

The child of some name is erased below the node at some path, with all that stands
below it (`CommandNode.eraseAt`). No other node moves: a node above the erased one
loses it, and any other stays as it is (`CommandNode.erasedAt`). What may follow a node
is then what could follow it before, less the erased child, provided that its redirect
still leads somewhere (`CommandNode.followersAt_erasedAt`).
-/

namespace CommandScript

/-- A node that may follow another one, with the path of the node below which it
stands. -/
structure Follower where
  parent : List String
  name : String
  node : CommandNode

/-- The path at which the node stands. -/
def Follower.place (follower : Follower) : List String :=
  follower.parent ++ [follower.name]

namespace CommandNode

/-! ## Places -/

/-- The children of the node at a path. -/
def childrenAt (place : List String) (node : CommandNode) : List Follower :=
  node.children.map fun child => ⟨place, child.1, child.2⟩

/-- The children of the node that this one redirects to. -/
def redirectedAt (node root : CommandNode) : List Follower :=
  match node.redirect with
  | some target => ((root.resolve? target).map (childrenAt target)).getD []
  | none => []

/-- What may follow the node at a path, with the places where it stands. -/
def followersAt (node root : CommandNode) (place : List String) : List Follower :=
  node.childrenAt place ++ node.redirectedAt root

/-- Without their places the followers are the effective children. -/
theorem effectiveChildren_eq (node root : CommandNode) (place : List String) :
    node.effectiveChildren root =
      (node.followersAt root place).map fun follower => (follower.name, follower.node) := by
  have children : ∀ (place : List String) (node : CommandNode),
      (node.childrenAt place).map (fun follower => (follower.name, follower.node)) =
        node.children := by
    intro place node
    rw [childrenAt, List.map_map]
    exact List.map_id _
  rw [effectiveChildren, followersAt, List.map_append, children, redirected, redirectedAt]
  cases node.redirect with
  | none => rfl
  | some target =>
    dsimp only [Option.bind_some]
    cases root.resolve? target with
    | none => rfl
    | some there => exact congrArg _ (children target there).symm

/-! ## Redirects -/

/-- The nodes of the tree with their paths, the root included. -/
def nodes (root : CommandNode) : List (List String × CommandNode) :=
  ([], root) :: root.descendants

/-- Every redirect of the tree leads somewhere, that of the root included. -/
def RedirectsResolve (root : CommandNode) : Prop :=
  ∀ entry ∈ root.nodes, ∀ target, entry.2.redirect = some target →
    (root.resolve? target).isSome = true

/-- The node stands somewhere in the tree. -/
def Occurs (root node : CommandNode) : Prop :=
  ∃ path, (path, node) ∈ root.nodes

/-- The node stands somewhere below the root. -/
def Below (root node : CommandNode) : Prop :=
  ∃ path, (path, node) ∈ root.descendants

theorem mem_nodesAmong (path : List String) {children : List (String × CommandNode)}
    {child : String × CommandNode} (mem : child ∈ children) :
    (path ++ [child.1], child.2) ∈ nodesAmong path children := by
  induction children with
  | nil => cases mem
  | cons first rest ih =>
    rw [nodesAmong]
    rcases List.mem_cons.1 mem with rfl | mem
    · exact List.mem_cons_self ..
    · exact List.mem_cons_of_mem _ (List.mem_append_right _ (ih mem))

theorem nodesBelow_eq (path : List String) (node : CommandNode) :
    node.nodesBelow path = nodesAmong path node.children := by
  cases node
  rfl

mutual

theorem nodesBelow_closed : ∀ (node : CommandNode) (path : List String),
    ∀ entry ∈ node.nodesBelow path, ∀ child ∈ entry.2.children,
      (entry.1 ++ [child.1], child.2) ∈ node.nodesBelow path
  | ⟨_, children, _, _, _, _⟩, path => nodesAmong_closed children path

/-- With a node its children are listed. -/
theorem nodesAmong_closed : ∀ (children : List (String × CommandNode)) (path : List String),
    ∀ entry ∈ nodesAmong path children, ∀ child ∈ entry.2.children,
      (entry.1 ++ [child.1], child.2) ∈ nodesAmong path children
  | [], _ => nofun
  | (name, node) :: rest, path => by
    intro entry mem child below
    rw [nodesAmong] at mem ⊢
    rcases List.mem_cons.1 mem with rfl | mem
    · refine List.mem_cons_of_mem _ (List.mem_append_left _ ?_)
      rw [nodesBelow_eq]
      exact mem_nodesAmong _ below
    · rcases List.mem_append.1 mem with mem | mem
      · exact List.mem_cons_of_mem _ (List.mem_append_left _
          (nodesBelow_closed node _ entry mem child below))
      · exact List.mem_cons_of_mem _ (List.mem_append_right _
          (nodesAmong_closed rest path entry mem child below))

end

section Redirects

variable {root node : CommandNode}

theorem occurs_root (root : CommandNode) : root.Occurs root :=
  ⟨[], List.mem_cons_self ..⟩

theorem Below.occurs (below : root.Below node) : root.Occurs node :=
  below.imp fun _ => List.mem_cons_of_mem _

theorem Occurs.child_below (occurs : root.Occurs node) {child : String × CommandNode}
    (mem : child ∈ node.children) : root.Below child.2 := by
  rcases occurs with ⟨path, found⟩
  rcases List.mem_cons.1 found with top | below
  · obtain ⟨-, rfl⟩ := Prod.mk.inj top
    refine ⟨[] ++ [child.1], ?_⟩
    rw [descendants, nodesBelow_eq]
    exact mem_nodesAmong [] mem
  · exact ⟨_, nodesBelow_closed root [] _ below child mem⟩

theorem Occurs.child (occurs : root.Occurs node) {child : String × CommandNode}
    (mem : child ∈ node.children) : root.Occurs child.2 :=
  (occurs.child_below mem).occurs

theorem mem_of_lookup {α β : Type} [BEq α] [LawfulBEq α] {key : α} {value : β}
    {entries : List (α × β)} (found : entries.lookup key = some value) :
    (key, value) ∈ entries := by
  induction entries with
  | nil => cases found
  | cons entry entries ih =>
    rw [List.lookup_cons] at found
    split at found
    · rename_i same
      obtain rfl := Option.some.inj found
      obtain rfl := eq_of_beq same
      exact List.mem_cons_self ..
    · exact List.mem_cons_of_mem _ (ih found)

theorem Occurs.resolve {path : List String} {there : CommandNode} (occurs : root.Occurs node)
    (found : node.resolve? path = some there) : root.Occurs there := by
  induction path generalizing node with
  | nil =>
    obtain rfl := Option.some.inj found
    exact occurs
  | cons name path ih =>
    rcases Option.bind_eq_some_iff.1 found with ⟨child, isChild, found⟩
    exact ih (occurs.child (mem_of_lookup isChild)) found

/-- What may follow a node of the tree is a node of the tree, and not its root. -/
theorem Occurs.effectiveChild_below (occurs : root.Occurs node) {child : String × CommandNode}
    (mem : child ∈ node.effectiveChildren root) : root.Below child.2 := by
  rcases List.mem_append.1 mem with own | redirects
  · exact occurs.child_below own
  · unfold redirected at redirects
    split at redirects
    · rename_i target found
      obtain ⟨path, -, leads⟩ := Option.bind_eq_some_iff.1 found
      exact ((occurs_root root).resolve leads).child_below redirects
    · cases redirects

theorem Occurs.follower (occurs : root.Occurs node) {place : List String} {follower : Follower}
    (follows : follower ∈ node.followersAt root place) : root.Occurs follower.node := by
  have child : (follower.name, follower.node) ∈ node.effectiveChildren root := by
    rw [node.effectiveChildren_eq root place]
    exact List.mem_map_of_mem follows
  exact (occurs.effectiveChild_below child).occurs

end Redirects

/-! ## Erasing -/

/-- The tree without the children of a name below the node at a path. -/
def eraseAt (name : String) : List String → CommandNode → CommandNode
  | [], node => { node with children := node.children.filter fun child => child.1 != name }
  | step :: path, node =>
    { node with
      children := node.children.map fun child =>
        if child.1 = step then (child.1, child.2.eraseAt name path) else child }

/-- What the node at a place becomes when a child below a path is erased. -/
def erasedAt (name : String) : List String → List String → CommandNode → CommandNode
  | parent, [], node => node.eraseAt name parent
  | [], _ :: _, node => node
  | step :: parent, first :: place, node =>
    if first = step then node.erasedAt name parent place else node

end CommandNode

/-- What a follower becomes when a child below a path is erased; nothing if it is that
child. -/
def Follower.erased? (name : String) (parent : List String) (follower : Follower) :
    Option Follower :=
  if follower.parent = parent ∧ follower.name = name then none
  else some { follower with node := follower.node.erasedAt name parent follower.place }

namespace CommandNode

section Erasing

variable {name : String} {parent : List String}

/-- At the root stands the tree itself. -/
theorem erasedAt_nil (name : String) (parent : List String) (root : CommandNode) :
    root.erasedAt name parent [] = root.eraseAt name parent := by
  cases parent <;> rfl

/-- Erasing a child changes nothing of a node but its children. -/
theorem erasedAt_fields (name : String) (parent place : List String) (node : CommandNode) :
    let left := node.erasedAt name parent place
    left.kind = node.kind ∧ left.executable = node.executable ∧ left.redirect = node.redirect ∧
      left.parser = node.parser ∧ left.properties = node.properties := by
  induction place generalizing parent with
  | nil => cases parent <;> exact ⟨rfl, rfl, rfl, rfl, rfl⟩
  | cons first place ih =>
    cases parent with
    | nil => exact ⟨rfl, rfl, rfl, rfl, rfl⟩
    | cons step parent =>
      rw [erasedAt]
      split
      · exact ih parent
      · exact ⟨rfl, rfl, rfl, rfl, rfl⟩

/-- The children that are left, each of them as it becomes. -/
theorem erasedAt_children (name : String) (parent place : List String) (node : CommandNode) :
    (node.erasedAt name parent place).children =
      node.children.filterMap fun child =>
        if place = parent ∧ child.1 = name then none
        else some (child.1, child.2.erasedAt name parent (place ++ [child.1])) := by
  induction place generalizing parent with
  | nil =>
    cases parent with
    | nil =>
      rw [erasedAt, eraseAt, ← List.filterMap_eq_filter]
      refine List.filterMap_congr fun child _ => ?_
      by_cases same : child.1 = name <;> simp [erasedAt, Option.guard, same]
    | cons step parent =>
      rw [erasedAt, eraseAt, ← List.filterMap_eq_map]
      refine List.filterMap_congr fun child _ => ?_
      by_cases same : child.1 = step <;> simp [erasedAt, same]
  | cons first place ih =>
    cases parent with
    | nil => simp [erasedAt]
    | cons step parent =>
      rw [erasedAt]
      split
      · rename_i same
        simp [erasedAt, same, ih]
      · rename_i other
        simp [erasedAt, other]

theorem childrenAt_erasedAt (name : String) (parent place : List String) (node : CommandNode) :
    (node.erasedAt name parent place).childrenAt place =
      (node.childrenAt place).filterMap (Follower.erased? name parent) := by
  rw [childrenAt, childrenAt, erasedAt_children, List.map_filterMap, List.filterMap_map]
  refine List.filterMap_congr fun child _ => ?_
  dsimp only [Function.comp, Follower.erased?, Follower.place]
  split <;> rfl

/-- What is found among entries of which some were dropped by their keys and the others
changed was there before. -/
theorem lookup_of_lookup_filterMap (drops : String → Prop) [DecidablePred drops]
    (change : String → CommandNode → CommandNode) {step : String} {left : CommandNode}
    {children : List (String × CommandNode)}
    (found : (children.filterMap fun child =>
      if drops child.1 then none else some (child.1, change child.1 child.2)).lookup step =
        some left) :
    ∃ child, children.lookup step = some child ∧ left = change step child := by
  have kept : ¬drops step := by
    rcases List.mem_filterMap.1 (mem_of_lookup found) with ⟨child, -, eq⟩
    split at eq
    · cases eq
    · rename_i kept
      obtain ⟨rfl, -⟩ := Prod.mk.inj (Option.some.inj eq)
      exact kept
  induction children with
  | nil => cases found
  | cons child children ih =>
    rw [List.filterMap_cons] at found
    rw [List.lookup_cons]
    by_cases same : step = child.1
    · subst same
      rw [if_neg kept] at found
      simp only [List.lookup_cons, beq_self_eq_true] at found ⊢
      exact ⟨child.2, rfl, (Option.some.inj found).symm⟩
    · have differs : (step == child.1) = false := beq_eq_false_iff_ne.2 same
      rw [differs]
      apply ih
      split at found
      · exact found
      · rename_i entry eq
        split at eq
        · cases eq
        · obtain rfl := Option.some.inj eq
          rwa [List.lookup_cons, differs] at found

/-- A path that still leads somewhere led to the same place before. -/
theorem resolve?_erasedAt (place : List String) {path : List String} {node left : CommandNode}
    (found : (node.erasedAt name parent place).resolve? path = some left) :
    ∃ there, node.resolve? path = some there ∧
      left = there.erasedAt name parent (place ++ path) := by
  induction path generalizing place node with
  | nil =>
    obtain rfl := Option.some.inj found
    exact ⟨node, rfl, by rw [List.append_nil]⟩
  | cons step path ih =>
    rcases Option.bind_eq_some_iff.1 found with ⟨kept, isChild, found⟩
    rw [erasedAt_children] at isChild
    obtain ⟨child, wasChild, rfl⟩ := lookup_of_lookup_filterMap
      (fun key => place = parent ∧ key = name)
      (fun key child => child.erasedAt name parent (place ++ [key])) isChild
    obtain ⟨there, led, rfl⟩ := ih _ found
    refine ⟨there, ?_, by rw [List.append_assoc, List.singleton_append]⟩
    rw [resolve?, wasChild]
    exact led

/-- What may follow a node is what could follow it before, less the erased child, if its
redirect still leads somewhere. -/
theorem followersAt_erasedAt {root node : CommandNode} {place : List String}
    (resolves : ∀ target, node.redirect = some target →
      ((root.eraseAt name parent).resolve? target).isSome = true) :
    (node.erasedAt name parent place).followersAt (root.eraseAt name parent) place =
      (node.followersAt root place).filterMap (Follower.erased? name parent) := by
  obtain ⟨-, -, redirect, -, -⟩ := erasedAt_fields name parent place node
  rw [followersAt, followersAt, List.filterMap_append, childrenAt_erasedAt, redirectedAt,
    redirectedAt, redirect]
  congr 1
  cases redirects : node.redirect with
  | none => rfl
  | some target =>
    rcases Option.isSome_iff_exists.1 (resolves target redirects) with ⟨left, leads⟩
    rw [← erasedAt_nil] at leads
    obtain ⟨there, led, rfl⟩ := resolve?_erasedAt [] leads
    dsimp only
    rw [← erasedAt_nil, leads, led]
    exact childrenAt_erasedAt name parent target there

end Erasing

end CommandNode

end CommandScript

import CommandScript.Proofs.Grammar.Names
import CommandScript.Proofs.Grammar.Preorder

/-!
The positions and the paths of a tree.

A position counts children and a path names them. In a tree with distinct names each determines
the other: the path of a position leads to the node that stands there
(`CommandNode.resolve?_of_entryAt?`), a path that leads somewhere has a position
(`CommandNode.exists_entryAt?`), and it has no other (`CommandNode.place_unique`). So the order of
the positions is one of the paths as well (`CommandNode.lt_iff_precedes`): a path comes before
those that go on from it, and where two paths part, the one that takes the earlier child comes
first.
-/

namespace CommandScript.CommandNode

section Paths

variable {root node there : CommandNode} {path rest : List String} {place other : List Nat}

theorem resolve?_append (node : CommandNode) (path rest : List String) :
    node.resolve? (path ++ rest) = (node.resolve? path).bind fun there => there.resolve? rest := by
  induction path generalizing node with
  | nil => rfl
  | cons name path ih =>
    rw [List.cons_append, resolve?, resolve?, Option.bind_assoc]
    exact congrArg _ (funext fun child => ih child)

theorem HasDistinctNames.resolve (distinct : root.HasDistinctNames)
    (leads : root.resolve? path = some node) : node.HasDistinctNames := by
  induction path generalizing root with
  | nil => exact Option.some.inj leads ▸ distinct
  | cons name path ih =>
    obtain ⟨child, isChild, leads⟩ := Option.bind_eq_some_iff.1 leads
    exact ih (distinct.child (mem_of_lookup isChild)) leads

theorem entryAt?_nil : root.entryAt? [] = some (path, node) ↔ path = [] ∧ node = root := by
  simp only [entryAt?, Option.some_inj, Prod.mk.injEq, eq_comm]

theorem entryAt?_cons {i : Nat} :
    root.entryAt? (i :: place) = some (path, node) ↔
      ∃ name child below, root.children[i]? = some (name, child) ∧
        child.entryAt? place = some (below, node) ∧ path = name :: below := by
  simp only [entryAt?, Option.bind_eq_some_iff, Option.map_eq_some_iff, Prod.exists,
    Prod.mk.injEq]
  constructor
  · rintro ⟨name, child, isChild, below, there, stands, rfl, rfl⟩
    exact ⟨name, child, below, isChild, stands, rfl⟩
  · rintro ⟨name, child, below, isChild, stands, rfl⟩
    exact ⟨name, child, isChild, below, node, stands, rfl, rfl⟩

theorem entryAt?_append {below : List Nat} (stem : root.entryAt? place = some (path, node))
    (stands : node.entryAt? below = some (rest, there)) :
    root.entryAt? (place ++ below) = some (path ++ rest, there) := by
  induction place generalizing root path with
  | nil =>
    obtain ⟨rfl, rfl⟩ := entryAt?_nil.1 stem
    exact stands
  | cons i place ih =>
    obtain ⟨name, child, path, isChild, stemBelow, rfl⟩ := entryAt?_cons.1 stem
    exact entryAt?_cons.2 ⟨name, child, _, isChild, ih stemBelow, rfl⟩

/-- A path that leads somewhere belongs to a position. -/
theorem exists_entryAt? (leads : root.resolve? path = some node) :
    ∃ place, root.entryAt? place = some (path, node) := by
  induction path generalizing root with
  | nil =>
    obtain rfl := Option.some.inj leads
    exact ⟨[], rfl⟩
  | cons name path ih =>
    obtain ⟨child, isChild, leads⟩ := Option.bind_eq_some_iff.1 leads
    obtain ⟨place, stands⟩ := ih leads
    obtain ⟨i, here⟩ := List.mem_iff_getElem?.1 (mem_of_lookup isChild)
    exact ⟨i :: place, entryAt?_cons.2 ⟨name, child, path, here, stands, rfl⟩⟩

/-- With distinct names the path of a position leads to the node that stands there. -/
theorem resolve?_of_entryAt? (distinct : root.HasDistinctNames)
    (stands : root.entryAt? place = some (path, node)) : root.resolve? path = some node := by
  induction place generalizing root path with
  | nil =>
    obtain ⟨rfl, rfl⟩ := entryAt?_nil.1 stands
    rfl
  | cons i place ih =>
    obtain ⟨name, child, path, isChild, below, rfl⟩ := entryAt?_cons.1 stands
    rw [resolve?, distinct.lookup isChild]
    exact ih (distinct.child (List.mem_of_getElem? isChild)) below

/-- With distinct names a path has one position. -/
theorem place_unique (distinct : root.HasDistinctNames)
    (stands : root.entryAt? place = some (path, node))
    (standsToo : root.entryAt? other = some (path, there)) : place = other := by
  induction place generalizing root path other with
  | nil =>
    obtain ⟨rfl, rfl⟩ := entryAt?_nil.1 stands
    cases other with
    | nil => rfl
    | cons j other =>
      obtain ⟨name, child, below, -, -, eq⟩ := entryAt?_cons.1 standsToo
      cases eq
  | cons i place ih =>
    obtain ⟨name, child, path, isChild, below, rfl⟩ := entryAt?_cons.1 stands
    cases other with
    | nil => cases (entryAt?_nil.1 standsToo).1
    | cons j other =>
      obtain ⟨_, childToo, _, isChildToo, belowToo, same⟩ := entryAt?_cons.1 standsToo
      obtain ⟨rfl, rfl⟩ := List.cons.inj same
      have named := getElem?_childNames isChild
      have namedToo := getElem?_childNames isChildToo
      obtain rfl : i = j := distinct.index_unique named namedToo
      obtain rfl := (Prod.mk.inj (Option.some.inj (isChild.symm.trans isChildToo))).2
      rw [ih (distinct.child (List.mem_of_getElem? isChild)) below belowToo]

end Paths

/-! ## The order of paths -/

/-- One path comes before another in a tree: it is a way to a node above, or the two part at a
node of which it follows an earlier child. -/
inductive Precedes (root : CommandNode) : List String → List String → Prop where
  | above {path : List String} {step : String} {rest : List String} :
      Precedes root path (path ++ step :: rest)
  | beside (parent : List String) {node : CommandNode} {k l : Nat} {first second : String}
      {path rest : List String} (leads : root.resolve? parent = some node) (earlier : k < l)
      (isFirst : node.childNames[k]? = some first) (isSecond : node.childNames[l]? = some second) :
      Precedes root (parent ++ first :: path) (parent ++ second :: rest)

section Order

variable {root node there : CommandNode} {path later : List String} {place other : List Nat}

/-- What comes first below a child comes first below its parent. -/
theorem Precedes.below {child : CommandNode} {name : String}
    (isChild : root.children.lookup name = some child) (precedes : child.Precedes path later) :
    root.Precedes (name :: path) (name :: later) := by
  cases precedes with
  | above => exact .above
  | beside parent leads earlier isFirst isSecond =>
    refine .beside (name :: parent) ?_ earlier isFirst isSecond
    rw [resolve?, isChild]
    exact leads

/-- The path of an earlier position comes first. -/
theorem precedes_of_lt (distinct : root.HasDistinctNames) (less : place < other)
    (here : root.entryAt? place = some (path, node))
    (further : root.entryAt? other = some (later, there)) : root.Precedes path later := by
  induction place generalizing root path later other with
  | nil =>
    obtain ⟨rfl, rfl⟩ := entryAt?_nil.1 here
    cases other with
    | nil => exact absurd less (List.lt_irrefl _)
    | cons j other =>
      obtain ⟨name, child, rest, -, -, rfl⟩ := entryAt?_cons.1 further
      exact .above
  | cons i place ih =>
    obtain ⟨name, child, path, isChild, below, rfl⟩ := entryAt?_cons.1 here
    cases other with
    | nil => cases less
    | cons j other =>
      obtain ⟨nameToo, childToo, rest, isChildToo, belowToo, rfl⟩ := entryAt?_cons.1 further
      have named := getElem?_childNames isChild
      have namedToo := getElem?_childNames isChildToo
      rcases List.cons_lt_cons_iff.1 less with earlier | ⟨rfl, lessBelow⟩
      · exact .beside [] rfl earlier named namedToo
      · obtain ⟨rfl, rfl⟩ := Prod.mk.inj (Option.some.inj (isChild.symm.trans isChildToo))
        exact .below (distinct.lookup isChild)
          (ih (distinct.child (List.mem_of_getElem? isChild)) lessBelow below belowToo)

/-- A path that goes on with the name of a child has a position below that child. -/
theorem exists_entryAt?_child (distinct : root.HasDistinctNames) {k : Nat} {name : String}
    (isName : root.childNames[k]? = some name) (leads : root.resolve? (name :: path) = some node) :
    ∃ below, root.entryAt? (k :: below) = some (name :: path, node) := by
  obtain ⟨⟨_, child⟩, isChild, rfl⟩ := Option.map_eq_some_iff.1 (List.getElem?_map ▸ isName)
  rw [resolve?, distinct.lookup isChild] at leads
  obtain ⟨below, stands⟩ := exists_entryAt? leads
  exact ⟨below, entryAt?_cons.2 ⟨_, child, path, isChild, stands, rfl⟩⟩

/-- A path that comes first has the earlier position. -/
theorem lt_of_precedes (distinct : root.HasDistinctNames) (precedes : root.Precedes path later)
    (here : root.entryAt? place = some (path, node))
    (further : root.entryAt? other = some (later, there)) : place < other := by
  have leads := resolve?_of_entryAt? distinct here
  have leadsToo := resolve?_of_entryAt? distinct further
  cases precedes with
  | above =>
    -- The later path goes on from the node of the first, and its position does as well.
    rw [resolve?_append, leads] at leadsToo
    obtain ⟨below, stands⟩ := exists_entryAt? leadsToo
    obtain rfl := place_unique distinct further (entryAt?_append here stands)
    cases below with
    | nil => cases (entryAt?_nil.1 stands).1
    | cons j below =>
      have longer : place ++ [] < place ++ j :: below :=
        List.append_left_lt (List.nil_lt_cons j below)
      rwa [List.append_nil] at longer
  | beside _ leadsParent earlier isFirst isSecond =>
    -- Both positions go on from that of the parent, with the numbers of the two children.
    rw [resolve?_append, leadsParent] at leads leadsToo
    have distinctThere := distinct.resolve leadsParent
    obtain ⟨stem, parent⟩ := exists_entryAt? leadsParent
    obtain ⟨below, stands⟩ := exists_entryAt?_child distinctThere isFirst leads
    obtain ⟨belowToo, standsToo⟩ := exists_entryAt?_child distinctThere isSecond leadsToo
    obtain rfl := place_unique distinct here (entryAt?_append parent stands)
    obtain rfl := place_unique distinct further (entryAt?_append parent standsToo)
    exact List.append_left_lt (List.Lex.rel earlier)

/-- The order of the positions is that of their paths. -/
theorem lt_iff_precedes (distinct : root.HasDistinctNames)
    (here : root.entryAt? place = some (path, node))
    (further : root.entryAt? other = some (later, there)) :
    place < other ↔ root.Precedes path later :=
  ⟨fun less => precedes_of_lt distinct less here further,
    fun precedes => lt_of_precedes distinct precedes here further⟩

end Order

end CommandScript.CommandNode

import CommandScript.Proofs.Grammar.Paths
import Mathlib.Data.List.Nodup

/-!
Going through a tree.

One way to go through a tree keeps the names on the way to the present node on one stack: the
name of a child is put there before the child is visited, and taken off when all below it has
been visited (`CommandNode.traverse`). Whatever a visit does, this visits the nodes of the listing
one by one, and leaves the stack as it was (`CommandNode.traverse_eq`).

In a tree with distinct names the nodes of the listing are those that paths lead to
(`CommandNode.mem_descendants`), in the order of the paths (`CommandNode.descendants_ordered`).
That makes the listing a tour of the tree (`CommandNode.IsTour`), and there is no other tour
(`CommandNode.descendants_tour`).
-/

namespace CommandScript.CommandNode

/-! ## One stack of names -/

/-- A traversal under way: the names on the way to where it stands, and what the visits have
made so far. -/
structure Traversal (σ : Type) where
  path : List String
  state : σ

namespace Traversal

variable {σ : Type}

/-- Goes down to a child. -/
def enter (name : String) (here : Traversal σ) : Traversal σ :=
  { here with path := here.path ++ [name] }

/-- Visits the node where it stands. -/
def visit (f : List String → CommandNode → σ → σ) (node : CommandNode) (here : Traversal σ) :
    Traversal σ :=
  { here with state := f here.path node here.state }

/-- Goes back up to the parent. -/
def leave (here : Traversal σ) : Traversal σ :=
  { here with path := here.path.dropLast }

end Traversal

section Traverse

variable {σ : Type} (f : List String → CommandNode → σ → σ)

mutual

/-- Visits the nodes below one. -/
def traverse : CommandNode → Traversal σ → Traversal σ
  | ⟨_, children, _, _, _, _⟩, here => traverseAmong children here

/-- Visits the given nodes and those below them. -/
def traverseAmong : List (String × CommandNode) → Traversal σ → Traversal σ
  | [], here => here
  | (name, child) :: rest, here =>
    traverseAmong rest (child.traverse ((here.enter name).visit f child)).leave

end

mutual

theorem traverse_eq : ∀ (node : CommandNode) (here : Traversal σ),
    node.traverse f here =
      { here with state := (node.nodesBelow here.path).foldl (fun s e => f e.1 e.2 s) here.state }
  | ⟨_, children, _, _, _, _⟩, here => traverseAmong_eq children here

/-- A traversal visits the listed nodes one by one, and ends where it started. -/
theorem traverseAmong_eq : ∀ (children : List (String × CommandNode)) (here : Traversal σ),
    traverseAmong f children here =
      { here with
        state := (nodesAmong here.path children).foldl (fun s e => f e.1 e.2 s) here.state }
  | [], _ => rfl
  | (name, child) :: rest, here => by
    -- Below the child the stack is used and left as it was, so what is taken off is its name.
    have back : (child.traverse f ((here.enter name).visit f child)).leave.path = here.path := by
      rw [traverse_eq child]
      exact List.dropLast_concat
    rw [traverseAmong, traverseAmong_eq rest, back, traverse_eq child, nodesAmong, List.foldl_cons,
      List.foldl_append]
    simp [Traversal.enter, Traversal.visit, Traversal.leave]

end

end Traverse

/-! ## Tours -/

/-- Nodes with their paths, in an order in which the tree below a root may be gone through: each
path that leads somewhere has its turn once, with the node there, but for the empty path, which
leads to the root. A node has its turn after all nodes above it. Of two siblings the one that is
declared first has its turn first, with all below it, and these turns follow one another. -/
structure IsTour (root : CommandNode) (visits : List (List String × CommandNode)) : Prop where
  reached : ∀ path node, (path, node) ∈ visits ↔ path ≠ [] ∧ root.resolve? path = some node
  once : (visits.map Prod.fst).Nodup
  parentsFirst : ∀ (j : Nat) path node, visits[j]? = some (path, node) →
    ∀ above, above ≠ [] → above <+: path → above ≠ path →
      ∃ i < j, ∃ there, visits[i]? = some (above, there)
  siblingsInOrder : ∀ parent node, root.resolve? parent = some node →
    ∀ (k l : Nat) first second, k < l → node.childNames[k]? = some first →
      node.childNames[l]? = some second →
        ∀ (i j : Nat) earlier later, visits[i]? = some earlier → visits[j]? = some later →
          parent ++ [first] <+: earlier.1 → parent ++ [second] <+: later.1 → i < j
  together : ∀ path (i j k : Nat) first between last, i < j → j < k → visits[i]? = some first →
    visits[j]? = some between → visits[k]? = some last → path <+: first.1 → path <+: last.1 →
      path <+: between.1

section Tours

variable {root : CommandNode} {visits : List (List String × CommandNode)}

/-- In a list with increasing positions, what stands earlier has the smaller position. -/
theorem lt_iff_of_increasing {α : Type} {numbered : List (List Nat × α)} {i j : Nat}
    {a b : List Nat × α} (increasing : numbered.Pairwise fun first later => first.1 < later.1)
    (here : numbered[i]? = some a) (there : numbered[j]? = some b) : i < j ↔ a.1 < b.1 := by
  have ascending : ∀ {i j : Nat} {a b : List Nat × α}, numbered[i]? = some a →
      numbered[j]? = some b → i < j → a.1 < b.1 := by
    intro i j a b here there less
    obtain ⟨bound, rfl⟩ := List.getElem?_eq_some_iff.1 here
    obtain ⟨boundToo, rfl⟩ := List.getElem?_eq_some_iff.1 there
    exact List.pairwise_iff_getElem.1 increasing i j bound boundToo less
  refine ⟨ascending here there, fun less => ?_⟩
  rcases Nat.lt_trichotomy i j with before | rfl | behind
  · exact before
  · obtain rfl := Option.some.inj (here.symm.trans there)
    exact absurd less (List.lt_irrefl _)
  · exact absurd less (List.lt_asymm (ascending there here behind))

/-- The listed nodes are those that paths lead to. -/
theorem mem_descendants (distinct : root.HasDistinctNames) (path : List String)
    (node : CommandNode) :
    (path, node) ∈ root.descendants ↔ path ≠ [] ∧ root.resolve? path = some node := by
  obtain ⟨numbered, listing, -, stands⟩ := root.descendants_numbered
  rw [listing, List.mem_map]
  constructor
  · rintro ⟨⟨place, entry⟩, mem, rfl⟩
    obtain ⟨nonempty, here⟩ := (stands place (path, node)).1 mem
    refine ⟨?_, resolve?_of_entryAt? distinct here⟩
    rintro rfl
    exact nonempty (place_unique distinct here (entryAt?_nil.2 ⟨rfl, rfl⟩))
  · rintro ⟨nonempty, leads⟩
    obtain ⟨place, here⟩ := exists_entryAt? leads
    refine ⟨(place, path, node), (stands place _).2 ⟨?_, here⟩, rfl⟩
    rintro rfl
    exact nonempty (entryAt?_nil.1 here).1

/-- The nodes are listed in the order of their paths. -/
theorem descendants_ordered (distinct : root.HasDistinctNames) {i j : Nat}
    {first later : List String × CommandNode} (here : root.descendants[i]? = some first)
    (there : root.descendants[j]? = some later) : i < j ↔ root.Precedes first.1 later.1 := by
  obtain ⟨numbered, listing, increasing, stands⟩ := root.descendants_numbered
  rw [listing, List.getElem?_map, Option.map_eq_some_iff] at here there
  obtain ⟨⟨place, first⟩, here, rfl⟩ := here
  obtain ⟨⟨other, later⟩, there, rfl⟩ := there
  have entry := ((stands place first).1 (List.mem_of_getElem? here)).2
  have entryToo := ((stands other later).1 (List.mem_of_getElem? there)).2
  rw [lt_iff_of_increasing increasing here there]
  exact lt_iff_precedes distinct entry entryToo

/-- If one path comes before another and goes through a node, the other one goes through it as
well, or comes behind all paths that do. -/
theorem Precedes.through {path later : List String} (precedes : root.Precedes path later)
    {stem : List String} (goes : stem <+: path) :
    stem <+: later ∨ ∀ other, stem <+: other → root.Precedes other later := by
  cases precedes with
  | above => exact Or.inl (goes.trans (List.prefix_append ..))
  | @beside parent _ _ _ first _ rest _ leads earlier isFirst isSecond =>
    have child : parent ++ [first] <+: parent ++ first :: rest := ⟨rest, by simp⟩
    by_cases inside : parent ++ [first] <+: stem
    · refine Or.inr fun other goesToo => ?_
      obtain ⟨further, rfl⟩ := inside.trans goesToo
      rw [List.append_assoc]
      exact .beside parent leads earlier isFirst isSecond
    · have outside := (List.prefix_or_prefix_of_prefix goes child).resolve_right inside
      rcases List.prefix_concat_iff.1 outside with rfl | outside
      · exact absurd (List.prefix_refl _) inside
      · exact Or.inl (outside.trans (List.prefix_append ..))

/-- A list that has what paths lead to, in the order of the paths, is a tour. -/
theorem isTour_of_ordered
    (reached : ∀ path node, (path, node) ∈ visits ↔ path ≠ [] ∧ root.resolve? path = some node)
    (ordered : ∀ {i j : Nat} {first later : List String × CommandNode}, visits[i]? = some first →
      visits[j]? = some later → (i < j ↔ root.Precedes first.1 later.1)) :
    root.IsTour visits where
  reached := reached
  once := by
    rw [List.Nodup, List.pairwise_map, List.pairwise_iff_getElem]
    intro i j bound boundToo less same
    have here := List.getElem?_eq_getElem bound
    have there := List.getElem?_eq_getElem boundToo
    -- Otherwise the path would come before itself, and be visited before it is visited.
    have precedes := (ordered here there).1 less
    rw [same] at precedes
    exact absurd ((ordered there there).2 precedes) (Nat.lt_irrefl j)
  parentsFirst := by
    rintro j _ node visited above nonempty ⟨rest, rfl⟩ proper
    cases rest with
    | nil => exact absurd (List.append_nil above).symm proper
    | cons step rest =>
      have leads := ((reached _ node).1 (List.mem_of_getElem? visited)).2
      rw [resolve?_append] at leads
      obtain ⟨there, leads, -⟩ := Option.bind_eq_some_iff.1 leads
      obtain ⟨i, earlier⟩ := List.mem_iff_getElem?.1 ((reached above there).2 ⟨nonempty, leads⟩)
      exact ⟨i, (ordered earlier visited).2 .above, there, earlier⟩
  siblingsInOrder := by
    rintro parent node leads k l first second less isFirst isSecond i j ⟨_, _⟩ ⟨_, _⟩ here there
      ⟨path, rfl⟩ ⟨rest, rfl⟩
    refine (ordered here there).2 ?_
    rw [List.append_assoc, List.append_assoc]
    exact .beside parent leads less isFirst isSecond
  together := by
    intro path i j k first between last less lessToo here inside there goes goesToo
    rcases ((ordered here inside).1 less).through goes with through | behind
    · exact through
    · -- Then the last of the three would have its turn before the one between.
      have back := (ordered there inside).2 (behind last.1 goesToo)
      exact absurd (Nat.lt_trans lessToo back) (Nat.lt_irrefl j)

/-- The listing of the nodes below a root is a tour of them. -/
theorem isTour_descendants (distinct : root.HasDistinctNames) : root.IsTour root.descendants :=
  isTour_of_ordered (mem_descendants distinct) (descendants_ordered distinct)

namespace IsTour

variable {i j : Nat} {first later : List String × CommandNode}

/-- A path has one turn. -/
theorem index_unique (tour : root.IsTour visits) (here : visits[i]? = some first)
    (there : visits[j]? = some later) (same : first.1 = later.1) : i = j := by
  have turn : (visits.map Prod.fst)[i]? = (visits.map Prod.fst)[j]? := by
    rw [List.getElem?_map, List.getElem?_map, here, there, Option.map_some, Option.map_some, same]
  refine (List.getElem?_inj ?_ tour.once).1 turn
  rw [List.length_map]
  exact (List.getElem?_eq_some_iff.1 here).1

/-- A path that comes before another has its turn before it. -/
theorem lt_of_precedes (tour : root.IsTour visits) (here : visits[i]? = some first)
    (there : visits[j]? = some later) (precedes : root.Precedes first.1 later.1) : i < j := by
  obtain ⟨path, node⟩ := first
  obtain ⟨pathToo, nodeToo⟩ := later
  cases precedes with
  | above =>
    have nonempty := ((tour.reached path node).1 (List.mem_of_getElem? here)).1
    obtain ⟨k, less, _, earlier⟩ := tour.parentsFirst j _ nodeToo there path nonempty
      (List.prefix_append ..) (by simp)
    exact tour.index_unique here earlier rfl ▸ less
  | beside parent leads less isFirst isSecond =>
    exact tour.siblingsInOrder parent _ leads _ _ _ _ less isFirst isSecond i j _ _ here there
      ⟨_, List.append_assoc ..⟩ ⟨_, List.append_assoc ..⟩

/-- Of two paths, the one that has its turn first comes first. -/
theorem precedes_of_lt (distinct : root.HasDistinctNames) (tour : root.IsTour visits)
    (here : visits[i]? = some first) (there : visits[j]? = some later) (less : i < j) :
    root.Precedes first.1 later.1 := by
  have listed : ∀ {k : Nat} {entry : List String × CommandNode}, visits[k]? = some entry →
      ∃ l : Nat, root.descendants[l]? = some entry := by
    intro k entry visited
    have reached := (tour.reached entry.1 entry.2).1 (List.mem_of_getElem? visited)
    exact List.mem_iff_getElem?.1 ((mem_descendants distinct entry.1 entry.2).2 reached)
  obtain ⟨k, isFirst⟩ := listed here
  obtain ⟨l, isLater⟩ := listed there
  rcases Nat.lt_trichotomy k l with before | rfl | behind
  · exact (descendants_ordered distinct isFirst isLater).1 before
  · obtain rfl := Option.some.inj (isFirst.symm.trans isLater)
    exact absurd (tour.index_unique here there rfl) (Nat.ne_of_lt less)
  · have back := tour.lt_of_precedes there here
      ((descendants_ordered distinct isLater isFirst).1 behind)
    exact absurd (Nat.lt_trans less back) (Nat.lt_irrefl i)

/-- The turns of a tour are in the order of the paths. -/
theorem pairwise_precedes (distinct : root.HasDistinctNames) (tour : root.IsTour visits) :
    visits.Pairwise fun first later => root.Precedes first.1 later.1 :=
  List.pairwise_iff_getElem.2 fun _ _ bound boundToo less => tour.precedes_of_lt distinct
    (List.getElem?_eq_getElem bound) (List.getElem?_eq_getElem boundToo) less

/-- There is one tour only. -/
theorem eq_descendants (distinct : root.HasDistinctNames) (tour : root.IsTour visits) :
    visits = root.descendants := by
  have listing := isTour_descendants distinct
  have same : ∀ entry, entry ∈ visits ↔ entry ∈ root.descendants := by
    rintro ⟨path, node⟩
    rw [tour.reached, listing.reached]
  refine List.Perm.eq_of_pairwise ?_ (tour.pairwise_precedes distinct)
    (listing.pairwise_precedes distinct)
    ((List.perm_ext_iff_of_nodup (.of_map _ tour.once) (.of_map _ listing.once)).2 same)
  intro first later mem memToo precedes back
  obtain ⟨i, here⟩ := List.mem_iff_getElem?.1 mem
  obtain ⟨j, there⟩ := List.mem_iff_getElem?.1 ((same later).2 memToo)
  have around := Nat.lt_trans (tour.lt_of_precedes here there precedes)
    (tour.lt_of_precedes there here back)
  exact absurd around (Nat.lt_irrefl i)

end IsTour

end Tours

/-- Going through a tree with the names on the way on one stack visits the listed nodes one by
one, whatever a visit does, and leaves the stack empty. In a tree with distinct names the listing
is a tour: what is visited are the paths that lead somewhere with the nodes they lead to, each of
them once, parents first, and siblings in their order, each with all below it. No other list is
such a tour. -/
theorem descendants_tour (root : CommandNode) (distinct : root.HasDistinctNames) :
    (∀ (σ : Type) (visit : List String → CommandNode → σ → σ) (state : σ),
      root.traverse visit ⟨[], state⟩ =
        ⟨[], root.descendants.foldl (fun state entry => visit entry.1 entry.2 state) state⟩) ∧
    root.IsTour root.descendants ∧ ∀ visits, root.IsTour visits → visits = root.descendants :=
  ⟨fun _ visit state => traverse_eq visit root ⟨[], state⟩, isTour_descendants distinct,
    fun _ tour => tour.eq_descendants distinct⟩

/-- A tree that is read from an object with a repeated member: the names of a node and its child
are the same, and those of its siblings differ. -/
theorem descendants_tour_repeated :
    let leaf : CommandNode := ⟨.literal, [], false, none, none, []⟩
    let as : CommandNode := ⟨.literal, [("as", leaf), ("at", leaf)], false, none, none, []⟩
    let root : CommandNode := ⟨.root, [("as", as), ("run", leaf)], false, none, none, []⟩
    let literal (children : List (Option String × Json)) : Json :=
      .object [(some "type", .string (some "literal")), (some "children", .object children)]
    let json : Json := .object [(some "type", .string (some "root")),
      (some "children", .object [(some "as", literal []), (some "run", literal []),
        (some "as", literal [(some "as", literal []), (some "at", literal [])])])]
    ofJson? maxNesting json = some root ∧ root.HasDistinctNames ∧
      root.IsTour [(["as"], as), (["as", "as"], leaf), (["as", "at"], leaf), (["run"], leaf)] ∧
        root.traverse (fun path _ lengths => lengths ++ [path.length]) ⟨[], []⟩ =
          ⟨[], [1, 2, 2, 1]⟩ := by
  intro leaf as root literal json
  have read : ofJson? maxNesting json = some root := rfl
  have distinct := ofJson?_distinct maxNesting json root read
  obtain ⟨visits, tour, -⟩ := descendants_tour root distinct
  exact ⟨read, distinct, tour, visits _ _ _⟩

end CommandScript.CommandNode

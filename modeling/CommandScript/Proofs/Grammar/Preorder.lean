import CommandScript.Proofs.Grammar

/-!
The order in which the nodes of a tree are listed.

A position in the tree is the list of the numbers of the children on the way down from the
root, and `CommandNode.entryAt?` is what stands there: the names on that way and the node.
Positions are ordered like words: a node comes before all that stand below it, and of two
siblings the earlier one comes, with all that stand below it, before the other. The nodes
below a root are listed in this order, each of them once (`CommandNode.descendants_numbered`),
so the first of them of which something holds is the one with the least position
(`CommandNode.descendants_findSome?`).
-/

namespace CommandScript.CommandNode

/-- What stands at a position below a node: the names on the way to it, and the node there. -/
def entryAt? (node : CommandNode) : List Nat → Option (List String × CommandNode)
  | [] => some ([], node)
  | i :: place =>
    (node.children[i]?).bind fun child =>
      (child.2.entryAt? place).map fun entry => (child.1 :: entry.1, entry.2)

/-! ## Listing with positions -/

mutual

/-- The nodes below one that stands at a position and a path, each with its own position and
path. -/
def numberedBelow (place : List Nat) (path : List String) :
    CommandNode → List (List Nat × List String × CommandNode)
  | ⟨_, children, _, _, _, _⟩ => numberedAmong place path 0 children

/-- The given nodes, which are numbered from `i` on, and those below them; position and path
are those of their parent. -/
def numberedAmong (place : List Nat) (path : List String) (i : Nat) :
    List (String × CommandNode) → List (List Nat × List String × CommandNode)
  | [] => []
  | (name, child) :: rest =>
    (place ++ [i], path ++ [name], child) ::
      (numberedBelow (place ++ [i]) (path ++ [name]) child ++ numberedAmong place path (i + 1) rest)

end

/-- An entry stands at a position below some nodes that are numbered from `i` on. -/
def StandsAmong (place : List Nat) (path : List String) (i : Nat)
    (children : List (String × CommandNode)) (numbered : List Nat × List String × CommandNode) :
    Prop :=
  ∃ k child below entry, children[k]? = some child ∧ child.2.entryAt? below = some entry ∧
    numbered = (place ++ (i + k) :: below, path ++ child.1 :: entry.1, entry.2)

section Numbered

variable {place : List Nat} {path : List String} {i : Nat}

mutual

theorem numberedBelow_entries : ∀ (node : CommandNode) (place : List Nat) (path : List String),
    (node.numberedBelow place path).map Prod.snd = node.nodesBelow path
  | ⟨_, children, _, _, _, _⟩, place, path => numberedAmong_entries children place path 0

/-- Without the positions it is the listing of the tree. -/
theorem numberedAmong_entries : ∀ (children : List (String × CommandNode)) (place : List Nat)
    (path : List String) (i : Nat),
    (numberedAmong place path i children).map Prod.snd = nodesAmong path children
  | [], _, _, _ => rfl
  | (name, child) :: rest, place, path, i => by
    rw [numberedAmong, nodesAmong, List.map_cons, List.map_append, numberedBelow_entries child,
      numberedAmong_entries rest]

end

/-- Nothing stands among no nodes. -/
theorem not_standsAmong_nil {numbered : List Nat × List String × CommandNode} :
    ¬StandsAmong place path i [] numbered := by
  rintro ⟨k, child, below, entry, isChild, -⟩
  rw [List.getElem?_nil] at isChild
  cases isChild

/-- What stands among some nodes is the first of them, stands below that one, or stands among
the others. -/
theorem standsAmong_cons {child : String × CommandNode} {rest : List (String × CommandNode)}
    {numbered : List Nat × List String × CommandNode} :
    StandsAmong place path i (child :: rest) numbered ↔
      numbered = (place ++ [i], path ++ [child.1], child.2) ∨
        StandsAmong (place ++ [i]) (path ++ [child.1]) 0 child.2.children numbered ∨
        StandsAmong place path (i + 1) rest numbered := by
  constructor
  · rintro ⟨k, other, below, entry, isChild, stands, rfl⟩
    cases k with
    | zero =>
      obtain rfl := Option.some.inj isChild
      cases below with
      | nil =>
        obtain rfl := Option.some.inj stands
        exact Or.inl rfl
      | cons j below =>
        obtain ⟨next, isNext, found⟩ := Option.bind_eq_some_iff.1 stands
        obtain ⟨last, standsBelow, rfl⟩ := Option.map_eq_some_iff.1 found
        refine Or.inr (Or.inl ⟨j, next, below, last, isNext, standsBelow, ?_⟩)
        simp
    | succ k =>
      refine Or.inr (Or.inr ⟨k, other, below, entry, isChild, stands, ?_⟩)
      rw [Nat.add_right_comm, Nat.add_assoc]
  · rintro (rfl | ⟨j, next, below, entry, isNext, stands, rfl⟩ |
      ⟨k, other, below, entry, isChild, stands, rfl⟩)
    · exact ⟨0, child, [], ([], child.2), rfl, rfl, rfl⟩
    · refine ⟨0, child, j :: below, (next.1 :: entry.1, entry.2), rfl, ?_, by simp⟩
      rw [entryAt?, isNext, Option.bind_some, stands]
      rfl
    · refine ⟨k + 1, other, below, entry, isChild, stands, ?_⟩
      rw [Nat.add_right_comm, Nat.add_assoc]

mutual

theorem mem_numberedBelow : ∀ (node : CommandNode) (place : List Nat) (path : List String)
    (numbered : List Nat × List String × CommandNode),
    numbered ∈ node.numberedBelow place path ↔ StandsAmong place path 0 node.children numbered
  | ⟨_, children, _, _, _, _⟩, place, path, numbered =>
    mem_numberedAmong children place path 0 numbered

/-- What stands among some nodes is listed, and nothing else is. -/
theorem mem_numberedAmong : ∀ (children : List (String × CommandNode)) (place : List Nat)
    (path : List String) (i : Nat) (numbered : List Nat × List String × CommandNode),
    numbered ∈ numberedAmong place path i children ↔ StandsAmong place path i children numbered
  | [], _, _, _, _ => iff_of_false List.not_mem_nil not_standsAmong_nil
  | (name, child) :: rest, place, path, i, numbered => by
    rw [numberedAmong, List.mem_cons, List.mem_append, mem_numberedBelow child,
      mem_numberedAmong rest, standsAmong_cons]

end

mutual

theorem numberedBelow_increasing : ∀ (node : CommandNode) (place : List Nat)
    (path : List String),
    (node.numberedBelow place path).Pairwise fun first later => first.1 < later.1
  | ⟨_, children, _, _, _, _⟩, place, path => numberedAmong_increasing children place path 0

/-- The positions increase. -/
theorem numberedAmong_increasing : ∀ (children : List (String × CommandNode)) (place : List Nat)
    (path : List String) (i : Nat),
    (numberedAmong place path i children).Pairwise fun first later => first.1 < later.1
  | [], _, _, _ => .nil
  | (name, child) :: rest, place, path, i => by
    rw [numberedAmong]
    have below := mem_numberedBelow child (place ++ [i]) (path ++ [name])
    have behind := mem_numberedAmong rest place path (i + 1)
    refine List.pairwise_cons.2 ⟨fun later mem => ?_, List.pairwise_append.2
      ⟨numberedBelow_increasing child _ _, numberedAmong_increasing rest _ _ _, ?_⟩⟩
    · rcases List.mem_append.1 mem with mem | mem
      · obtain ⟨j, next, under, entry, -, -, rfl⟩ := (below later).1 mem
        rw [List.append_assoc]
        exact List.append_left_lt (List.Lex.cons List.Lex.nil)
      · obtain ⟨k, other, under, entry, -, -, rfl⟩ := (behind later).1 mem
        exact List.append_left_lt (List.Lex.rel (by omega))
    · intro first mem later memBehind
      obtain ⟨j, next, under, entry, -, -, rfl⟩ := (below first).1 mem
      obtain ⟨k, other, underToo, entryToo, -, -, rfl⟩ := (behind later).1 memBehind
      rw [List.append_assoc]
      exact List.append_left_lt (List.Lex.rel (by omega))

end

end Numbered

/-! ## The first node -/

/-- The nodes below a root, listed with their positions: these increase, and every position
with a node is listed, but for that of the root. -/
theorem descendants_numbered (root : CommandNode) :
    ∃ numbered : List (List Nat × List String × CommandNode),
      root.descendants = numbered.map Prod.snd ∧
      (numbered.Pairwise fun first later => first.1 < later.1) ∧
      ∀ place entry, (place, entry) ∈ numbered ↔ place ≠ [] ∧ root.entryAt? place = some entry := by
  refine ⟨root.numberedBelow [] [], (numberedBelow_entries root [] []).symm,
    numberedBelow_increasing root [] [], fun place entry => ?_⟩
  rw [mem_numberedBelow root [] []]
  constructor
  · rintro ⟨k, child, below, last, isChild, stands, eq⟩
    obtain ⟨rfl, rfl⟩ := Prod.mk.inj eq
    refine ⟨List.cons_ne_nil _ _, ?_⟩
    rw [List.nil_append, Nat.zero_add, entryAt?, isChild, Option.bind_some, stands]
    rfl
  · rintro ⟨nonempty, found⟩
    cases place with
    | nil => exact absurd rfl nonempty
    | cons k below =>
      obtain ⟨child, isChild, found⟩ := Option.bind_eq_some_iff.1 found
      obtain ⟨last, stands, rfl⟩ := Option.map_eq_some_iff.1 found
      exact ⟨k, child, below, last, isChild, stands, by simp⟩

/-- Of a list in increasing order of positions, what is found first stands at the least of the
positions at which something is found. -/
theorem findSome?_of_increasing {α β : Type} {numbered : List (List Nat × α)}
    (increasing : numbered.Pairwise fun first later => first.1 < later.1) (f : α → Option β)
    (b : β) : (numbered.map Prod.snd).findSome? f = some b ↔
      ∃ place a, (place, a) ∈ numbered ∧ f a = some b ∧
        ∀ earlier ∈ numbered, earlier.1 < place → f earlier.2 = none := by
  rw [List.findSome?_map, List.findSome?_eq_some_iff]
  constructor
  · rintro ⟨before, ⟨place, a⟩, after, rfl, found, none⟩
    refine ⟨place, a, List.mem_append_right _ (List.mem_cons_self ..), found, ?_⟩
    intro earlier mem less
    obtain ⟨-, behind, -⟩ := List.pairwise_append.1 increasing
    rcases List.mem_append.1 mem with mem | mem
    · exact none earlier mem
    · rcases List.mem_cons.1 mem with rfl | mem
      · exact absurd less (List.lt_irrefl _)
      · exact absurd less (List.lt_asymm ((List.pairwise_cons.1 behind).1 earlier mem))
  · rintro ⟨place, a, mem, found, none⟩
    obtain ⟨before, after, rfl⟩ := List.append_of_mem mem
    obtain ⟨-, -, across⟩ := List.pairwise_append.1 increasing
    refine ⟨before, (place, a), after, rfl, found, fun earlier memBefore => ?_⟩
    exact none earlier (List.mem_append_left _ memBefore)
      (across earlier memBefore _ (List.mem_cons_self ..))

/-- What is found first among the nodes below a root is found at the least position. -/
theorem descendants_findSome? {β : Type} (root : CommandNode)
    (f : List String × CommandNode → Option β) (b : β) :
    root.descendants.findSome? f = some b ↔
      ∃ place entry, place ≠ [] ∧ root.entryAt? place = some entry ∧ f entry = some b ∧
        ∀ earlier < place, earlier ≠ [] →
          ∀ other, root.entryAt? earlier = some other → f other = none := by
  obtain ⟨numbered, listing, increasing, stands⟩ := root.descendants_numbered
  rw [listing, findSome?_of_increasing increasing]
  constructor
  · rintro ⟨place, entry, mem, found, none⟩
    obtain ⟨nonempty, there⟩ := (stands place entry).1 mem
    refine ⟨place, entry, nonempty, there, found, ?_⟩
    intro earlier less nonemptyToo other thereToo
    exact none (earlier, other) ((stands earlier other).2 ⟨nonemptyToo, thereToo⟩) less
  · rintro ⟨place, entry, nonempty, there, found, none⟩
    refine ⟨place, entry, (stands place entry).2 ⟨nonempty, there⟩, found, ?_⟩
    rintro ⟨earlier, other⟩ mem less
    obtain ⟨nonemptyToo, thereToo⟩ := (stands earlier other).1 mem
    exact none earlier less nonemptyToo other thereToo

/-- Nothing is found below a root if nothing is found at any position. -/
theorem descendants_findSome?_eq_none {β : Type} (root : CommandNode)
    (f : List String × CommandNode → Option β) :
    root.descendants.findSome? f = none ↔
      ∀ place, place ≠ [] → ∀ entry, root.entryAt? place = some entry → f entry = none := by
  obtain ⟨numbered, listing, -, stands⟩ := root.descendants_numbered
  rw [List.findSome?_eq_none_iff, listing, List.forall_mem_map]
  constructor
  · intro none place nonempty entry there
    exact none (place, entry) ((stands place entry).2 ⟨nonempty, there⟩)
  · rintro none ⟨place, entry⟩ mem
    obtain ⟨nonempty, there⟩ := (stands place entry).1 mem
    exact none place nonempty entry there

end CommandScript.CommandNode

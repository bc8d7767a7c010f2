import CommandScript.Proofs.Context
import Mathlib.Data.List.Nodup

/-!
Names that tell children apart.

In a tree in which no node has two children of one name, a name at a node belongs to one child
only (`CommandNode.HasDistinctNames.lookup`). Every tree that is read from data is such a tree
(`CommandNode.ofJson?_distinct`), that of a context which is built of the texts of the data files
in particular (`Context.ofTexts_distinct`): of two members of one name the later one takes the
place of the earlier one.
-/

namespace CommandScript

/-! ## Maps -/

section Entries

variable {α : Type} {entries : List (String × α)}

/-- A key that is not there yet comes last, and any other has its place already. -/
theorem keys_setEntry (key : String) (value : α) (entries : List (String × α)) :
    (setEntry key value entries).map Prod.fst =
      if key ∈ entries.map Prod.fst then entries.map Prod.fst
      else entries.map Prod.fst ++ [key] := by
  induction entries with
  | nil => rfl
  | cons entry entries ih =>
    rw [setEntry]
    by_cases same : entry.1 = key
    · simp [same]
    · have other : ¬key = entry.1 := fun eq => same eq.symm
      simp only [if_neg same, List.map_cons, List.mem_cons, other, false_or, ih]
      split <;> rfl

theorem mem_setEntry {key : String} {value : α} {entry : String × α}
    (mem : entry ∈ setEntry key value entries) : entry = (key, value) ∨ entry ∈ entries := by
  induction entries with
  | nil => exact Or.inl (List.mem_singleton.1 mem)
  | cons first entries ih =>
    rw [setEntry] at mem
    split at mem
    · rename_i same
      subst same
      exact (List.mem_cons.1 mem).imp_right (List.mem_cons_of_mem _)
    · rcases List.mem_cons.1 mem with rfl | mem
      · exact Or.inr (List.mem_cons_self ..)
      · exact (ih mem).imp_right (List.mem_cons_of_mem _)

theorem nodup_setEntry (key : String) (value : α) (distinct : (entries.map Prod.fst).Nodup) :
    ((setEntry key value entries).map Prod.fst).Nodup := by
  rw [keys_setEntry]
  split
  · exact distinct
  · rename_i fresh
    rw [← List.concat_eq_append]
    exact distinct.concat fresh

/-- Members that are set one after another keep the keys different, and bring nothing but
themselves. -/
theorem foldl_setEntry (members entries : List (String × α))
    (distinct : (entries.map Prod.fst).Nodup) :
    let map := members.foldl (fun entries member => setEntry member.1 member.2 entries) entries
    (map.map Prod.fst).Nodup ∧ ∀ entry ∈ map, entry ∈ entries ∨ entry ∈ members := by
  induction members generalizing entries with
  | nil => exact ⟨distinct, fun entry mem => Or.inl mem⟩
  | cons member members ih =>
    obtain ⟨nodup, known⟩ := ih _ (nodup_setEntry member.1 member.2 distinct)
    refine ⟨nodup, fun entry mem => ?_⟩
    rcases known entry mem with inMap | later
    · rcases mem_setEntry inMap with rfl | earlier
      · exact Or.inr (List.mem_cons_self ..)
      · exact Or.inl earlier
    · exact Or.inr (List.mem_cons_of_mem _ later)

/-- The keys of a map are different, and its entries are among the members it is made of. -/
theorem entriesOf_spec (members : List (String × α)) :
    ((entriesOf members).map Prod.fst).Nodup ∧ ∀ entry ∈ entriesOf members, entry ∈ members := by
  obtain ⟨nodup, known⟩ := foldl_setEntry members [] List.nodup_nil
  exact ⟨nodup, fun entry mem => (known entry mem).resolve_left List.not_mem_nil⟩

/-- Where the keys are different, every entry is found by its key. -/
theorem lookup_of_mem {key : String} {value : α} (distinct : (entries.map Prod.fst).Nodup)
    (mem : (key, value) ∈ entries) : entries.lookup key = some value := by
  induction entries with
  | nil => cases mem
  | cons entry entries ih =>
    obtain ⟨fresh, distinct⟩ := List.nodup_cons.1 distinct
    rw [List.lookup_cons]
    rcases List.mem_cons.1 mem with rfl | mem
    · simp
    · have differs : (key == entry.1) = false :=
        beq_eq_false_iff_ne.2 fun same => fresh (same ▸ List.mem_map_of_mem mem)
      rw [differs]
      exact ih distinct mem

end Entries

namespace CommandNode

/-! ## Trees -/

section Trees

variable {node : CommandNode} {children : List (String × CommandNode)}

theorem haveDistinctNames_iff :
    HaveDistinctNames children ↔ ∀ child ∈ children, child.2.HasDistinctNames := by
  induction children with
  | nil => simp [HaveDistinctNames]
  | cons child children ih => rw [HaveDistinctNames, List.forall_mem_cons, ih]

theorem hasDistinctNames_iff :
    node.HasDistinctNames ↔
      node.childNames.Nodup ∧ ∀ child ∈ node.children, child.2.HasDistinctNames := by
  cases node
  rw [HasDistinctNames, haveDistinctNames_iff]
  rfl

/-- Under its own name a child is found. -/
theorem HasDistinctNames.lookup (distinct : node.HasDistinctNames) {i : Nat} {name : String}
    {child : CommandNode} (isChild : node.children[i]? = some (name, child)) :
    node.children.lookup name = some child :=
  lookup_of_mem (hasDistinctNames_iff.1 distinct).1 (List.mem_of_getElem? isChild)

theorem getElem?_childNames {i : Nat} {child : String × CommandNode}
    (isChild : node.children[i]? = some child) : node.childNames[i]? = some child.1 := by
  rw [childNames, List.getElem?_map, isChild, Option.map_some]

/-- A name belongs to one child only. -/
theorem HasDistinctNames.index_unique (distinct : node.HasDistinctNames) {i j : Nat}
    {name : String} (here : node.childNames[i]? = some name)
    (there : node.childNames[j]? = some name) : i = j := by
  obtain ⟨bound, -⟩ := List.getElem?_eq_some_iff.1 here
  exact (List.getElem?_inj bound (hasDistinctNames_iff.1 distinct).1).1 (here.trans there.symm)

theorem HasDistinctNames.child (distinct : node.HasDistinctNames) {child : String × CommandNode}
    (mem : child ∈ node.children) : child.2.HasDistinctNames :=
  (hasDistinctNames_iff.1 distinct).2 child mem

end Trees

/-! ## Trees from data -/

/-- The children read so far have different names, and so have those of every node below. -/
def Draft.HasDistinctNames (draft : Draft) : Prop :=
  (draft.children.map Prod.fst).Nodup ∧
    ∀ child ∈ draft.children, child.2.HasDistinctNames

theorem Draft.HasDistinctNames.node {draft : Draft} {node : CommandNode}
    (distinct : draft.HasDistinctNames) (done : draft.node? = some node) :
    node.HasDistinctNames := by
  obtain ⟨kind, -, rfl⟩ := Option.map_eq_some_iff.1 done
  exact hasDistinctNames_iff.2 distinct

theorem Draft.HasDistinctNames.congr {draft later : Draft} (distinct : draft.HasDistinctNames)
    (same : later.children = draft.children) : later.HasDistinctNames := by
  rw [HasDistinctNames, same]
  exact distinct

/-- The keys of a map are different. -/
theorem Draft.HasDistinctNames.of_entriesOf {draft : Draft}
    {children : List (String × CommandNode)} (eq : draft.children = entriesOf children)
    (distinct : ∀ child ∈ children, child.2.HasDistinctNames) : draft.HasDistinctNames := by
  obtain ⟨nodup, known⟩ := entriesOf_spec children
  rw [HasDistinctNames, eq]
  exact ⟨nodup, fun child mem => distinct child (known child mem)⟩

theorem Draft.empty_distinct : Draft.empty.HasDistinctNames :=
  ⟨List.nodup_nil, fun _ mem => absurd mem List.not_mem_nil⟩

/-- A field leaves the children as they are, or sets them to those that are read from an object. -/
theorem setField?_children {room : Nat} {draft later : Draft} {field : Field} {value : Json}
    (set : setField? room draft field value = some later) :
    later.children = draft.children ∨
      ∃ inner members children, value = .object members ∧
        childrenOf? inner members = some children ∧ later.children = entriesOf children := by
  cases field
  case children =>
    cases value with
    | object members =>
      cases room with
      | zero => cases set
      | succ inner =>
        obtain ⟨children, read, rfl⟩ := Option.map_eq_some_iff.1 set
        exact Or.inr ⟨inner, members, children, rfl, read, rfl⟩
    | _ => cases set
  all_goals
    simp only [setField?, Option.map_eq_some_iff] at set
    obtain ⟨_, -, rfl⟩ := set
    exact Or.inl rfl

mutual

/-- A node that is read has distinct names. -/
theorem ofJson?_distinct : ∀ (room : Nat) (json : Json) (node : CommandNode),
    ofJson? room json = some node → node.HasDistinctNames
  | room + 1, .object members, node, found => by
    rw [ofJson?] at found
    obtain ⟨draft, read, done⟩ := Option.bind_eq_some_iff.1 found
    exact (ofMembers?_distinct room members _ _ Draft.empty_distinct read).node done
  | room + 1, .array elements, node, found => by
    rw [ofJson?] at found
    obtain ⟨draft, read, done⟩ := Option.bind_eq_some_iff.1 found
    exact (ofElements?_distinct room elements _ _ _ Draft.empty_distinct read).node done
  | 0, .object _, _, found
  | 0, .array _, _, found
  | _, .null, _, found
  | _, .bool _, _, found
  | _, .number _, _, found
  | _, .string _, _, found => by simp [ofJson?] at found

theorem ofMembers?_distinct : ∀ (room : Nat) (members : List (Option String × Json))
    (draft later : Draft), draft.HasDistinctNames → ofMembers? room draft members = some later →
      later.HasDistinctNames
  | _, [], draft, later, distinct, read => by
    rw [ofMembers?] at read
    exact Option.some.inj read ▸ distinct
  | _, (none, _) :: _, _, _, _, read => by simp [ofMembers?] at read
  | room, (some name, value) :: members, draft, later, distinct, read => by
    rw [ofMembers?] at read
    split at read
    · exact ofMembers?_distinct room members draft later distinct read
    · split at read
      · cases read
      · split at read
        · cases read
        · rename_i set
          exact ofMembers?_distinct room members _ later
            (setField?_distinct room value _ _ _ distinct set) read

theorem ofElements?_distinct : ∀ (room : Nat) (elements : List Json) (fields : List Field)
    (draft later : Draft), draft.HasDistinctNames →
      ofElements? room draft fields elements = some later → later.HasDistinctNames
  | _, [], _, draft, later, distinct, read => by
    rw [ofElements?] at read
    exact Option.some.inj read ▸ distinct
  | _, _ :: _, [], _, _, _, read => by simp [ofElements?] at read
  | room, value :: elements, field :: fields, draft, later, distinct, read => by
    rw [ofElements?] at read
    split at read
    · cases read
    · rename_i set
      exact ofElements?_distinct room elements fields _ later
        (setField?_distinct room value _ _ _ distinct set) read

/-- A field that is read keeps the names distinct: those of the children are the keys of a map. -/
theorem setField?_distinct : ∀ (room : Nat) (value : Json) (field : Field) (draft later : Draft),
    draft.HasDistinctNames → setField? room draft field value = some later →
      later.HasDistinctNames
  | room, .object members, field, draft, later, distinct, set => by
    rcases setField?_children set with same | ⟨inner, _, children, isObject, read, eq⟩
    · exact distinct.congr same
    · obtain rfl := Json.object.inj isObject
      exact Draft.HasDistinctNames.of_entriesOf eq
        (childrenOf?_distinct inner members children read)
  | _, .null, _, _, _, distinct, set
  | _, .bool _, _, _, _, distinct, set
  | _, .number _, _, _, _, distinct, set
  | _, .string _, _, _, _, distinct, set
  | _, .array _, _, _, _, distinct, set => by
    rcases setField?_children set with same | ⟨_, _, _, isObject, -, -⟩
    · exact distinct.congr same
    · cases isObject

theorem childrenOf?_distinct : ∀ (room : Nat) (members : List (Option String × Json))
    (children : List (String × CommandNode)), childrenOf? room members = some children →
      ∀ child ∈ children, child.2.HasDistinctNames
  | _, [], children, found => by
    rw [childrenOf?] at found
    exact Option.some.inj found ▸ fun child mem => absurd mem List.not_mem_nil
  | _, (none, _) :: _, _, found => by simp [childrenOf?] at found
  | room, (some name, value) :: members, children, found => by
    rw [childrenOf?] at found
    split at found
    · cases found
    · rename_i node isNode
      obtain ⟨rest, others, rfl⟩ := Option.map_eq_some_iff.1 found
      exact List.forall_mem_cons.2 ⟨ofJson?_distinct room value node isNode,
        childrenOf?_distinct room members rest others⟩

end

end CommandNode

namespace Context

theorem decode_eq_ok {α : Type} {file : DataFile} {value? : Json → Option α} {text : String}
    {a : α} : decode file value? text = .ok a ↔ (Json.read? text.toList).bind value? = some a := by
  rw [decode]
  cases (Json.read? text.toList).bind value? <;> simp

/-- The tree of a context that is built of texts is the one that is read from the first of them. -/
theorem root_of_ofTexts {commands blockStates registries : String} {context : Context}
    (built : ofTexts commands blockStates registries = .ok context) :
    decode .commands (CommandNode.ofJson? maxNesting) commands = .ok context.root := by
  unfold ofTexts at built
  cases tree : decode .commands (CommandNode.ofJson? maxNesting) commands with
  | error => rw [tree] at built; cases built
  | ok root =>
    cases blocks : decode .blockStates blocksOf? blockStates with
    | error => rw [tree, blocks] at built; cases built
    | ok properties =>
      cases tables : decode .registries tablesOf? registries with
      | error => rw [tree, blocks, tables] at built; cases built
      | ok ids =>
        rw [tree, blocks, tables] at built
        obtain ⟨-, rfl⟩ := (build_eq_ok root).1 built
        rfl

/-- The tree of a context that is built of texts has distinct names. -/
theorem ofTexts_distinct {commands blockStates registries : String} {context : Context}
    (built : ofTexts commands blockStates registries = .ok context) :
    context.root.HasDistinctNames := by
  obtain ⟨json, -, read⟩ := Option.bind_eq_some_iff.1 (decode_eq_ok.1 (root_of_ofTexts built))
  exact CommandNode.ofJson?_distinct maxNesting json context.root read

end Context

end CommandScript

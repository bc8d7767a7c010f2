import CommandScript.Proofs.Walk.Run

/-!
Derivations of a line.

A derivation is a sequence of hops through the command tree, each from a node to one
of those that may follow it, that takes the words of a line one after the other
(`Derivation`). It says what a line means without saying how that is found out: no
frontier, no generations, no report.

The derivations of `n` hops can be listed (`Derivation.level`), without repetition and
in the order of the positions of their hops (`Derivation.level_ordered`,
`Derivation.mem_level`).
-/

namespace CommandScript

open TokenReader

/-! ## Hops -/

/-- A node takes the text between two positions of a reader. A literal takes the word
that is its name; an argument takes what the parser of its kind reads without an
error. -/
inductive Takes (context : Context) (node : CommandNode) (name : String) (before : TokenReader) :
    TokenReader → Prop where
  | literal {word : Slice} (isLiteral : node.isLiteral = true)
    (found : before.current? = some ⟨word, false⟩) (same : word.text = name.toList) :
    Takes context node name before before.advance
  | argument {parser : ArgumentParser} (isArgument : node.isLiteral = false)
    (registered : context.kinds.create? (node.parser.getD "") node.properties = some parser)
    (success : (parser.read context.registries before).report.success = true) :
    Takes context node name before (parser.read context.registries before).value

/-- One hop of a derivation: a node, its name and its position among those that may
follow the node before, and the reader in front of and behind the text that it
takes. -/
structure Choice where
  position : Nat
  name : String
  node : CommandNode
  before : TokenReader
  after : TokenReader

/-- The hop as an entry of a path. -/
def Choice.entry (choice : Choice) : PathEntry :=
  ⟨choice.name, ⟨choice.before.offset, choice.after.offset⟩, choice.node, true⟩

/-- The hops lead from the root, in front of the first word of the line, to a node and
a reader. After every hop the spaces behind its text are passed. -/
inductive Derivation (context : Context) (line : List Char) :
    List Choice → CommandNode → TokenReader → Prop where
  | root : Derivation context line [] context.root (Walk.firstReader line)
  | hop {choices : List Choice} {node next : CommandNode} {name : String} {position : Nat}
    {reader after : TokenReader} (derived : Derivation context line choices node reader)
    (child : (node.effectiveChildren context.root)[position]? = some (name, next))
    (takes : Takes context next name reader after) :
    Derivation context line (choices ++ [⟨position, name, next, reader, after⟩]) next
      after.passSpaces

namespace Derivation

/-- The hops take all of the line and end at a node that ends a command. -/
def Accepting (context : Context) (line : List Char) (choices : List Choice) : Prop :=
  ∃ node reader, Derivation context line choices node reader ∧ reader.atEnd = true ∧
    node.executable = true

/-- The positions of some hops. -/
def positions (choices : List Choice) : List Nat :=
  choices.map Choice.position

/-- Fewer hops come first, and of as many those with the smaller positions. -/
def Precedes (a b : List Choice) : Prop :=
  a.length < b.length ∨
    a.length = b.length ∧ List.Lex (· < ·) (positions a) (positions b)

/-! ## Levels -/

/-- What a node takes from a reader on, if it takes anything. -/
def take? (context : Context) (node : CommandNode) (name : String) (reader : TokenReader) :
    Option TokenReader :=
  if node.isLiteral then
    match reader.currentWord? with
    | some word => if word.is name then some reader.advance else none
    | none => none
  else
    (context.kinds.create? (node.parser.getD "") node.properties).bind fun parser =>
      let outcome := parser.read context.registries reader
      if outcome.report.success then some outcome.value else none

/-- A derivation with the node and the reader that it leads to. -/
structure Branch where
  choices : List Choice
  node : CommandNode
  reader : TokenReader

namespace Branch

/-- The branch in front of the first word of a line. -/
def root (context : Context) (line : List Char) : Branch :=
  ⟨[], context.root, Walk.firstReader line⟩

/-- The branch with one more hop to the child at a position, if that takes anything. -/
def push? (context : Context) (branch : Branch) (child : (String × CommandNode) × Nat) :
    Option Branch :=
  (take? context child.1.2 child.1.1 branch.reader).map fun after =>
    ⟨branch.choices ++ [⟨child.2, child.1.1, child.1.2, branch.reader, after⟩], child.1.2,
      after.passSpaces⟩

/-- The branches with one more hop. -/
def next (context : Context) (branch : Branch) : List Branch :=
  (branch.node.effectiveChildren context.root).zipIdx.filterMap (branch.push? context)

/-- The branch takes all of the line and ends a command. -/
def accepts (branch : Branch) : Bool :=
  branch.reader.atEnd && branch.node.executable

end Branch

/-- The branches of `n` hops. -/
def level (context : Context) (line : List Char) : Nat → List Branch
  | 0 => [.root context line]
  | n + 1 => (level context line n).flatMap (Branch.next context)

section Levels

variable {context : Context} {line : List Char} {node : CommandNode} {name : String}
  {reader after : TokenReader} {branch : Branch} {n : Nat}

theorem take?_eq_some : take? context node name reader = some after ↔
    Takes context node name reader after := by
  constructor
  · intro found
    unfold take? at found
    split at found
    · rename_i isLiteral
      split at found
      · rename_i word current
        split at found
        · rename_i same
          obtain rfl := Option.some.inj found
          exact .literal isLiteral (currentWord?_eq_some current) (beq_iff_eq.1 same)
        · cases found
      · cases found
    · rename_i isArgument
      rcases Option.bind_eq_some_iff.1 found with ⟨parser, registered, took⟩
      dsimp only at took
      split at took
      · rename_i success
        obtain rfl := Option.some.inj took
        exact .argument (by simpa using isArgument) registered success
      · cases took
  · intro takes
    unfold take?
    cases takes with
    | @literal word isLiteral current same =>
      rw [if_pos isLiteral, currentWord?_of_current? current]
      exact if_pos (beq_iff_eq.2 same)
    | argument isArgument registered success =>
      simp [isArgument, registered, success]

/-- The branches with one more hop are those to a child that takes something. -/
theorem mem_next {branch next : Branch} : next ∈ branch.next context ↔
    ∃ position name after,
      (branch.node.effectiveChildren context.root)[position]? = some (name, next.node) ∧
        Takes context next.node name branch.reader after ∧
          next.choices = branch.choices ++ [⟨position, name, next.node, branch.reader, after⟩] ∧
            next.reader = after.passSpaces := by
  constructor
  · intro mem
    rcases List.mem_filterMap.1 mem with ⟨⟨⟨name, node⟩, position⟩, found, pushed⟩
    rcases Option.map_eq_some_iff.1 pushed with ⟨after, took, rfl⟩
    exact ⟨position, name, after, List.mem_zipIdx_iff_getElem?.1 found, take?_eq_some.1 took, rfl,
      rfl⟩
  · rintro ⟨position, name, after, child, takes, choices, reader⟩
    refine List.mem_filterMap.2 ⟨((name, next.node), position), ?_, ?_⟩
    · exact List.mem_zipIdx_iff_getElem?.2 child
    · refine Option.map_eq_some_iff.2 ⟨after, take?_eq_some.2 takes, ?_⟩
      rw [← choices, ← reader]

theorem mem_level_length {choices : List Choice}
    (derived : Derivation context line choices node reader) :
    ⟨choices, node, reader⟩ ∈ level context line choices.length := by
  induction derived with
  | root => exact List.mem_singleton_self _
  | @hop choices node next name position reader after derived child takes ih =>
    rw [List.length_append, List.length_singleton]
    exact List.mem_flatMap.2 ⟨⟨choices, node, reader⟩, ih,
      mem_next.2 ⟨position, name, after, child, takes, rfl, rfl⟩⟩

/-- A level lists the derivations of as many hops. -/
theorem mem_level : branch ∈ level context line n ↔
    Derivation context line branch.choices branch.node branch.reader ∧
      branch.choices.length = n := by
  constructor
  · intro mem
    induction n generalizing branch with
    | zero =>
      obtain rfl := List.mem_singleton.1 mem
      exact ⟨.root, rfl⟩
    | succ n ih =>
      rcases List.mem_flatMap.1 mem with ⟨parent, inLevel, memNext⟩
      obtain ⟨derived, length⟩ := ih inLevel
      obtain ⟨position, name, after, child, takes, choices, reader⟩ := mem_next.1 memNext
      rw [choices, reader]
      exact ⟨.hop derived child takes, by rw [List.length_append, length]; rfl⟩
  · rintro ⟨derived, rfl⟩
    exact mem_level_length derived

/-! ## Order -/

/-- Of two texts of the same length, the order is decided within them. -/
theorem lex_append {as bs : List Nat} (lex : List.Lex (· < ·) as bs)
    (length : as.length = bs.length) (cs ds : List Nat) :
    List.Lex (· < ·) (as ++ cs) (bs ++ ds) := by
  induction lex with
  | nil => cases length
  | rel less => exact .rel less
  | cons _ ih => exact .cons (ih (Nat.succ.inj length))

/-- One more hop keeps the order of two branches. -/
theorem lex_of_mem_next {a b c d : Branch}
    (lex : List.Lex (· < ·) (positions a.choices) (positions b.choices))
    (length : a.choices.length = b.choices.length) (memC : c ∈ a.next context)
    (memD : d ∈ b.next context) :
    List.Lex (· < ·) (positions c.choices) (positions d.choices) := by
  obtain ⟨_, _, _, _, _, choicesC, _⟩ := mem_next.1 memC
  obtain ⟨_, _, _, _, _, choicesD, _⟩ := mem_next.1 memD
  rw [choicesC, choicesD, positions, positions, List.map_append, List.map_append]
  exact lex_append lex (by simpa [positions] using length) _ _

theorem next_ordered (context : Context) (branch : Branch) :
    (branch.next context).Pairwise fun a b =>
      List.Lex (· < ·) (positions a.choices) (positions b.choices) := by
  have ordered : (branch.node.effectiveChildren context.root).zipIdx.Pairwise
      fun a b => a.2 < b.2 := by
    have numbers := List.pairwise_lt_range' (s := 0)
      (n := (branch.node.effectiveChildren context.root).length)
    rw [← List.zipIdx_map_snd 0] at numbers
    exact List.pairwise_map.1 numbers
  apply List.pairwise_filterMap.2 (ordered.imp _)
  intro first second less a pushedA b pushedB
  rcases Option.map_eq_some_iff.1 pushedA with ⟨-, -, rfl⟩
  rcases Option.map_eq_some_iff.1 pushedB with ⟨-, -, rfl⟩
  simp only [positions, List.map_append, List.map_cons, List.map_nil]
  exact List.Lex.append_left _ (.rel less) _

/-- A level lists its derivations in the order of the positions of their hops. -/
theorem level_ordered (context : Context) (line : List Char) (n : Nat) :
    (level context line n).Pairwise fun a b =>
      List.Lex (· < ·) (positions a.choices) (positions b.choices) := by
  induction n with
  | zero => exact List.pairwise_singleton ..
  | succ n ih =>
    refine List.pairwise_flatMap.2 ⟨fun branch _ => next_ordered context branch, ?_⟩
    apply ih.imp_of_mem
    intro a b memA memB lex c memC d memD
    exact lex_of_mem_next lex ((mem_level.1 memA).2.trans (mem_level.1 memB).2.symm) memC memD

end Levels

end Derivation

end CommandScript

import CommandScript.Kind

/-!
The command tree.

A node is a literal word or an argument, and its children are what may follow it,
in the order in which they are tried. A node may redirect to another one, named by
its path from the root: the children of that node then follow as well, after its
own. Redirects are followed once only, so a cycle of them does no harm.
-/

namespace CommandScript

/-- What a node of the command tree is. -/
inductive NodeKind where
  | root
  | literal
  | argument
deriving DecidableEq, Repr

namespace NodeKind

/-- The name of a kind of node. -/
def name : NodeKind → String
  | root => "root"
  | literal => "literal"
  | argument => "argument"

/-- The kind with a given name. -/
def ofName? (name : String) : Option NodeKind :=
  [root, literal, argument].find? (·.name == name)

end NodeKind

/-- A node of the command tree. A command may end at an executable node. -/
structure CommandNode where
  kind : NodeKind
  children : List (String × CommandNode)
  executable : Bool
  redirect : Option (List String)
  parser : Option String
  properties : Properties

namespace CommandNode

/-- A root without commands. -/
def emptyRoot : CommandNode :=
  ⟨.root, [], false, none, none, []⟩

/-- The node is a literal word. -/
def isLiteral (node : CommandNode) : Bool :=
  node.kind = .literal

/-- The node is an argument. -/
def isArgument (node : CommandNode) : Bool :=
  node.kind = .argument

/-- The names of the children, in order. -/
def childNames (node : CommandNode) : List String :=
  node.children.map Prod.fst

/-- The node at the end of a path from this one. -/
def resolve? (node : CommandNode) : List String → Option CommandNode
  | [] => some node
  | name :: path => (node.children.lookup name).bind fun child => child.resolve? path

/-- The children of the node that this one redirects to. A redirect that leads
nowhere adds nothing. -/
def redirected (node root : CommandNode) : List (String × CommandNode) :=
  match node.redirect.bind root.resolve? with
  | some target => target.children
  | none => []

/-- What may follow a node: its own children, then those it redirects to. -/
def effectiveChildren (node root : CommandNode) : List (String × CommandNode) :=
  node.children ++ node.redirected root

mutual

/-- The nodes below one that stands at a path, each with its path, parents before
their children. -/
def nodesBelow (path : List String) : CommandNode → List (List String × CommandNode)
  | ⟨_, children, _, _, _, _⟩ => nodesAmong path children

/-- The given nodes and those below them; the path is that of their parent. -/
def nodesAmong (path : List String) :
    List (String × CommandNode) → List (List String × CommandNode)
  | [] => []
  | (name, child) :: rest =>
    let here := path ++ [name]
    (here, child) :: (nodesBelow here child ++ nodesAmong path rest)

end

/-- Every node below this one with its path, parents before their children and
siblings in order. -/
def descendants (node : CommandNode) : List (List String × CommandNode) :=
  node.nodesBelow []

mutual

/-- The children of every node have different names. -/
def HasDistinctNames : CommandNode → Prop
  | ⟨_, children, _, _, _, _⟩ => (children.map Prod.fst).Nodup ∧ HaveDistinctNames children

/-- The children of the given nodes and of every node below them have different
names. -/
def HaveDistinctNames : List (String × CommandNode) → Prop
  | [] => True
  | (_, child) :: rest => HasDistinctNames child ∧ HaveDistinctNames rest

end

end CommandNode

end CommandScript

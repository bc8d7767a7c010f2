import CommandScript.Grammar.Decode
import CommandScript.Kind.Builtin

/-!
What a line is read against: a command tree, the tables and the kinds of arguments.

A context is only built from a tree that can be used: its top is a root, every
redirect below leads somewhere and every argument names its kind. Whether that kind
is known is left to the reading of a line. The first offending node, parents before
their children, is the one that is reported.
-/

namespace CommandScript

/-- The data files that a context is loaded from. -/
inductive DataFile where
  | commands
  | blockStates
  | registries
deriving DecidableEq, Repr

namespace DataFile

/-- The name of a file. -/
def fileName : DataFile → String
  | commands => "command_registration.json"
  | blockStates => "blockstate.json"
  | registries => "registries.json"

/-- What a file holds, in messages. -/
def content : DataFile → String
  | commands => "command tree"
  | blockStates => "block state registry"
  | registries => "registries"

end DataFile

/-- Why a context cannot be loaded. -/
inductive LoadError where
  | unreadable (file : DataFile)
  | invalid (file : DataFile)
  | notRoot
  | missingParser (path : List String)
  | unresolvedRedirect (path target : List String)
deriving DecidableEq, Repr

namespace LoadError

/-- A path as it is shown. -/
def showPath (path : List String) : String :=
  String.intercalate " " path

/-- The wording of an error. -/
def message : LoadError → String
  | unreadable file => s!"failed to read {file.fileName}"
  | invalid file => s!"invalid {file.content}"
  | notRoot => "command tree must start with a root node"
  | missingParser path => s!"argument node '{showPath path}' has no parser"
  | unresolvedRedirect path target =>
    s!"node '{showPath path}' redirects to unknown node '{showPath target}'"

end LoadError

/-- A command tree, the tables and the kinds of arguments. -/
structure Context where
  root : CommandNode
  registries : Registries
  kinds : KindRegistry

namespace Context

/-- No commands, and the kinds of the library. -/
def empty : Context :=
  ⟨.emptyRoot, .empty, .builtin⟩

/-- What is wrong with a node below the root, if anything is: its redirect, or else
its lack of a kind. -/
def offence? (root : CommandNode) (path : List String) (node : CommandNode) : Option LoadError :=
  match node.redirect with
  | some target =>
    if (root.resolve? target).isNone then some (.unresolvedRedirect path target)
    else missing
  | none => missing
where
  /-- An argument without a parser. -/
  missing : Option LoadError :=
    if node.isArgument && node.parser.isNone then some (.missingParser path) else none

/-- What is wrong with a tree, if anything is. -/
def fault? (root : CommandNode) : Option LoadError :=
  if root.kind = .root then
    root.descendants.findSome? fun (path, node) => offence? root path node
  else
    some .notRoot

/-- A context with a tree that can be used. -/
def build (root : CommandNode) (registries : Registries) (kinds : KindRegistry) :
    Except LoadError Context :=
  match fault? root with
  | some error => .error error
  | none => .ok ⟨root, registries, kinds⟩

/-- The value of the JSON text of a file. -/
def decode {α : Type} (file : DataFile) (value? : Json → Option α) (text : String) :
    Except LoadError α :=
  match (Json.read? text.toList).bind value? with
  | some a => .ok a
  | none => .error (.invalid file)

/-- Builds a context from the texts of the data files. All of them are read before
the tree is looked at. -/
def ofTexts (commands blockStates registries : String) : Except LoadError Context := do
  let root ← decode .commands (CommandNode.ofJson? maxNesting) commands
  let blocks ← decode .blockStates blocksOf? blockStates
  let tables ← decode .registries tablesOf? registries
  build root ⟨blocks, tables⟩ .builtin

/-- The same tree and tables with other kinds of arguments. -/
def withKinds (kinds : KindRegistry) (context : Context) : Except LoadError Context :=
  build context.root context.registries kinds

/-! ## Directories -/

/-- What stands in a directory under a name. -/
inductive DirectoryEntry where
  | file (text : String)
  | directory
deriving DecidableEq, Repr

/-- The entries of a directory by name. -/
abbrev Directory : Type :=
  List (String × DirectoryEntry)

/-- The text of a data file; `none` if there is no such entry. -/
def readFile (directory : Directory) (file : DataFile) : Except LoadError (Option String) :=
  match directory.lookup file.fileName with
  | none => .ok none
  | some (.file text) => .ok (some text)
  | some .directory => .error (.unreadable file)

/-- Loads a context from a directory. The command tree has to be there, the tables
are empty if their files are not. -/
def load (directory : Directory) : Except LoadError Context := do
  match ← readFile directory .commands with
  | none => .error (.unreadable .commands)
  | some commands =>
    let blockStates ← readFile directory .blockStates
    let registries ← readFile directory .registries
    ofTexts commands (blockStates.getD "\x7b\x7d") (registries.getD "\x7b\x7d")

end Context

end CommandScript

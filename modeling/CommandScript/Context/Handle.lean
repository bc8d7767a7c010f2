import CommandScript.Context

/-!
The context in use.

A handle holds the context that new lines are read against. Whoever reads takes a
snapshot and keeps it, so replacing the context changes nothing for readings that
have begun. Every context that is put in gets a number of its own, by which two
snapshots of one context are told from snapshots of two equal ones.
-/

namespace CommandScript

/-- A context and its number in a handle. -/
structure Snapshot where
  context : Context
  number : Nat

/-- Two snapshots are of one and the same context. -/
def Snapshot.same (a b : Snapshot) : Bool :=
  a.number = b.number

/-- The context in use. -/
structure ContextHandle where
  current : Snapshot

namespace ContextHandle

/-- A handle on a context. -/
def ofContext (context : Context) : ContextHandle :=
  ⟨⟨context, 0⟩⟩

/-- A handle on a context without commands. -/
def empty : ContextHandle :=
  ofContext .empty

/-- The context in use, to keep. -/
def snapshot (handle : ContextHandle) : Snapshot :=
  handle.current

/-- Puts a context in and yields the one that it replaces. -/
def replace (context : Context) (handle : ContextHandle) : Context × ContextHandle :=
  (handle.current.context, ⟨⟨context, handle.current.number + 1⟩⟩)

/-- Loads a context from a directory and puts it in. On an error the context in use
stays. -/
def reload (directory : Context.Directory) (handle : ContextHandle) :
    Except LoadError ContextHandle := do
  let context ← Context.load directory
  return (handle.replace context).2

end ContextHandle

end CommandScript

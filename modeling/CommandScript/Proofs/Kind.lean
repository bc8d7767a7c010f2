import CommandScript.Kind.Builtin
import CommandScript.Proofs.Argument.Reads

/-!
Kinds of the library, under whatever names, stay in step with the tokens of a line. Kinds
from elsewhere are only asked to read forward (`KindRegistry.IsForward`).
-/

namespace CommandScript.KindRegistry

/-- Every kind of the registry reads forward: from a word of a line on, or at its end, the
reader is not moved back and not past the last token. It may stay where it is, and it may
be left anywhere. -/
def IsForward (registry : KindRegistry) : Prop :=
  ∀ name properties parser, registry.create? name properties = some parser →
    ∀ (registries : Registries) (r : TokenReader), r.Valid → r.AtWord →
      (parser.read registries r).value.Ahead r

/-- The library registers kinds of its own only. -/
theorem builtin_isBuiltin : builtin.IsBuiltin := by
  intro name kind found
  unfold get? builtin at found
  generalize BuiltinKind.all = kinds at found
  induction kinds with
  | nil => cases found
  | cons k kinds ih =>
    rw [List.map_cons, List.lookup_cons] at found
    split at found
    · obtain rfl := Option.some.inj found
      exact ⟨k, rfl⟩
    · exact ih found

variable {kinds : KindRegistry} {name : String} {properties : Properties}
  {parser : ArgumentParser}

/-- Such a registry makes parsers of kinds of the library. -/
theorem IsBuiltin.create?_eq_some (builtin : kinds.IsBuiltin)
    (found : kinds.create? name properties = some parser) :
    ∃ k : BuiltinKind, parser = k.kind.build properties := by
  rcases Option.map_eq_some_iff.1 found with ⟨kind, known, rfl⟩
  obtain ⟨k, build⟩ := builtin name kind known
  exact ⟨k, congrFun build properties⟩

theorem IsBuiltin.create?_reads (builtin : kinds.IsBuiltin)
    (found : kinds.create? name properties = some parser) (registries : Registries)
    {r : TokenReader} (valid : r.Valid) (atWord : r.AtWord) :
    Argument.Reads r (parser.read registries r) := by
  obtain ⟨k, rfl⟩ := builtin.create?_eq_some found
  exact (k.argument properties).read_reads registries valid atWord

theorem IsBuiltin.isForward (builtin : kinds.IsBuiltin) : kinds.IsForward :=
  fun _ _ _ found registries _ valid atWord =>
    (builtin.create?_reads found registries valid atWord).ahead

end CommandScript.KindRegistry

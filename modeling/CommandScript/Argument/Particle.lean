import CommandScript.Argument.Block
import CommandScript.Argument.Vector

/-!
Particles: an id, and further arguments for the particles that take them.
-/

namespace CommandScript.Argument

namespace Particle

/-- The table that holds the ids of all particles. -/
def table : String :=
  "minecraft:particle_type"

/-- The name of particles in messages. -/
def name : String :=
  "ParticleArgument"

/-- What is wrong with a particle, apart from its id and its further arguments. -/
inductive Fault where
  | missing
  | unknown
  | missingExtra
deriving DecidableEq, Repr

/-- The wording of a fault. -/
def Fault.message (fault : Fault) : String :=
  name ++ ": " ++ match fault with
    | .missing => "expected a particle"
    | .unknown => "unknown particle type"
    | .missingExtra => "expected additional arguments in particle"

/-- Further arguments of a particle: a block, or a colour and a size. -/
inductive Extra where
  | block
  | dust
deriving DecidableEq, Repr

/-- The further arguments of the particle with a given id. -/
def extra? (id : String) : Option Extra :=
  if ["minecraft:block", "minecraft:block_marker", "minecraft:falling_dust"].contains id then
    some .block
  else if id = "minecraft:dust" then some .dust
  else none

/-- Reads further arguments. -/
def Extra.read (registries : Registries) : Extra → TokenReader → Reported TokenReader
  | .block => readBlock ⟨name, false⟩ registries
  | .dust => readVector ⟨name, 4, [], false⟩

/-- Reads what follows the particle `word` with the given id. -/
def readExtra (registries : Registries) (id : String) (word : Slice) (r : TokenReader) :
    Reported TokenReader :=
  match extra? id with
  | none => pure r
  | some extra => do
    let (separated, r) ← skipSeparator r
    if separated then
      extra.read registries r
    else
      Reported.error word.span Fault.missingExtra.message
      return r

/-- Reads a particle in the word that was just read. If the table of particles is
known, a particle that it lacks is only a warning, and nothing is read after it. -/
def readAfter (registries : Registries) (word : Slice) (r : TokenReader) :
    Reported TokenReader := do
  match ← Reported.labelled (name ++ ": ") (Resource.read false .resource word) with
  | none => return r
  | some resource =>
    let id := resource.normalized
    if (registries.table? table).any fun ids => !ids.contains id then
      Reported.warning word.span Fault.unknown.message
      return r
    else
      readExtra registries id word r

/-- Examples of particles. -/
def examples : List String :=
  ["flame", "minecraft:dust 1 0 0 1", "block stone"]

end Particle

/-- Reads a particle. -/
def readParticle (registries : Registries) (r : TokenReader) : Reported TokenReader :=
  match r.currentWord? with
  | some word => Particle.readAfter registries word r.advance
  | none => do
    Reported.error r.remaining.span Particle.Fault.missing.message
    return r

end CommandScript.Argument

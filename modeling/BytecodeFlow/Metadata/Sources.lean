/-
This file defines what the work on a program starts from, its `Sources`.
-/

import BytecodeFlow.Metadata.Assembly

namespace BytecodeFlow

/-- The assemblies to work on. Reference assemblies only contribute types. -/
structure Sources where
  inputs : List Assembly
  references : List Assembly
deriving DecidableEq, Repr

/-- The number of types in all assemblies. -/
def Sources.typeCount (sources : Sources) : Nat :=
  ((sources.inputs ++ sources.references).flatMap Assembly.types).length

end BytecodeFlow

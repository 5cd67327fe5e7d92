/-
This file collects the procedures of a `Program` under their names. Procedures
and nodes are numbered through the whole program; a procedure that is begun
(`Program.begin`) takes the next free numbers, and only `commit` uses them up.
-/

import Std.Data.ExtTreeMap
import BytecodeFlow.Graph.Procedure

namespace BytecodeFlow

structure Program where
  procedures : Std.ExtTreeMap String Procedure
  nextNodeId : Nat
  nextProcedureId : Nat

namespace Program

def empty : Program := ⟨∅, 0, 0⟩

/-- Begin a procedure with the next free numbers. -/
def begin (program : Program) (signature : Signature) : Procedure :=
  .begin program.nextProcedureId signature program.nextNodeId

/-- Take a procedure in under its name, and go on numbering after it. -/
def commit (program : Program) (procedure : Procedure) : Program :=
  { procedures := program.procedures.insert procedure.name procedure
    nextNodeId := procedure.nextNodeId
    nextProcedureId := procedure.id + 1 }

/-- The procedures in the order of their names. -/
def toList (program : Program) : List (String × Procedure) := program.procedures.toList

def procedureCount (program : Program) : Nat := program.procedures.size

def nodeCount (program : Program) : Nat :=
  (program.toList.flatMap fun (_, procedure) => procedure.nodes.toList).length

end Program

end BytecodeFlow

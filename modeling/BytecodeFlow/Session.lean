/-
This file arranges the work on a program in stages, as a `Session`. First
assemblies are loaded (`load`); then the type table and the program are built
(`buildTypes`, `buildProgram`), in either order and as often as wanted; then
the results are taken (`finish`). Loading anew discards what was built before,
so the results always belong to what was loaded last.
-/

import BytecodeFlow.Hierarchy.Resolver
import BytecodeFlow.Lowering.Build
import BytecodeFlow.Metadata.Sources

namespace BytecodeFlow

inductive Stage where
  | load
  | types
  | program
  | finish
deriving DecidableEq, Repr

def Stage.text : Stage → String
  | .load => "load"
  | .types => "type-environment"
  | .program => "cfg"
  | .finish => "finish"

/-- A stage was asked for before one that it needs. -/
structure StageError where
  stage : Stage
  needed : Stage
deriving DecidableEq, Repr

def StageError.message (error : StageError) : String :=
  "pipeline stage `" ++ error.stage.text ++ "` requires `" ++ error.needed.text ++
    "` to run first"

/-- Everything a complete session produces. -/
structure Results where
  types : TypeTable
  program : Program
  ledger : Ledger

structure Session where
  limits : Limits
  sources : Option Sources
  types : Option TypeTable
  program : Option (Program × Ledger)

namespace Session

def start (limits : Limits) : Session := ⟨limits, none, none, none⟩

/-- What is said at the start: the families of instructions that can be lowered. -/
def openingMessages : List Message := [
  .debug ("rule STACK (Stack operations): Argument and local access, constants, arithmetic and " ++
    "comparisons"),
  .debug "rule BRANCH (Branches): br, brtrue, brfalse, compare-and-branch and switch",
  .debug "rule CALL (Calls): call, callvirt and newobj",
  .debug "rule FIELD (Field access): ldfld, stfld, ldsfld and stsfld",
  .debug "rule CONTROL (Control transfers): ret, throw, leave and endfinally"]

def load (session : Session) (sources : Sources) : Session × List Message :=
  ({ session with sources := some sources, types := none, program := none },
    [.info ("loaded " ++ toString sources.inputs.length ++ " input and " ++
      toString sources.references.length ++ " reference assembly(ies)")])

/-- The stages that work on what was loaded need it. -/
def loaded (session : Session) (stage : Stage) : Except StageError Sources :=
  match session.sources with
  | some sources => .ok sources
  | none => .error ⟨stage, .load⟩

/-- Build the type table. The session is given back in any case. -/
def buildTypes (session : Session) : Session × Except StageError (TypeTable × List Message) :=
  match session.loaded .types with
  | .error error => (session, .error error)
  | .ok sources =>
    let resolver := Resolver.resolveAll (sources.inputs ++ sources.references)
    let table := resolver.table
    let summary := "type environment: " ++ toString table.size ++ " type(s), " ++
      toString table.resolutions ++ " resolution(s)"
    ({ session with types := some table },
      .ok (table, resolver.messages.toList ++ [.info summary]))

/-- Build the program. The session is given back in any case. -/
def buildProgram (session : Session) : Session × Except StageError (Program × List Message) :=
  match session.loaded .program with
  | .error error => (session, .error error)
  | .ok sources =>
    let build := Build.ofAssemblies sources.inputs session.limits
    let summary := "cfg: " ++ toString build.program.procedureCount ++ " procedure(s), " ++
      toString build.program.nodeCount ++ " node(s)"
    ({ session with program := some (build.program, build.ledger) },
      .ok (build.program, build.messages ++ [.info summary]))

/-- Take the results, for which both have to be built. -/
def finish (session : Session) : Except StageError Results :=
  match session.types, session.program with
  | some types, some (program, ledger) => .ok ⟨types, program, ledger⟩
  | none, _ => .error ⟨.finish, .types⟩
  | some _, none => .error ⟨.finish, .program⟩

/-- Go through all stages with the given sources. -/
def complete (limits : Limits) (sources : Sources) :
    Except StageError (Results × List Message) := do
  let (session, loadMessages) := (start limits).load sources
  let (session, types) := session.buildTypes
  let (_, typeMessages) ← types
  let (session, program) := session.buildProgram
  let (_, programMessages) ← program
  let results ← session.finish
  return (results, openingMessages ++ loadMessages ++ typeMessages ++ programMessages ++
    results.ledger.report)

end Session

end BytecodeFlow

/-
This file reads a program back from its JSON form as a `SavedProgram`, as far
as the text rendering needs it, and renders the procedures that were asked for
(`SavedProgram.select`).
-/

import BytecodeFlow.Graph.Render

namespace BytecodeFlow

structure SavedNode where
  id : Nat
  label : String
  commands : List String
  successors : List Nat
  predecessors : List Nat
  exceptions : List Nat
deriving DecidableEq, Repr

structure SavedProcedure where
  id : Nat
  name : String
  nodes : List SavedNode
deriving DecidableEq, Repr

/-- The procedures of a saved program under the names it gives them. -/
structure SavedProgram where
  procedures : Std.ExtTreeMap String SavedProcedure

/-! ### Reading -/

def SavedNode.decodeCommand (json : Json) : Option String := do
  let record ← json.record? ["text"]
  record.required "text" Json.text?

def SavedNode.decode (json : Json) : Option SavedNode := do
  let record ← json.record?
    ["nd_id", "nd_kind", "nd_instrs", "nd_succ_ids", "nd_pred_ids", "nd_exn_ids"]
  let ids (name : String) : Option (List Nat) :=
    record.withDefault name [] (Json.listOf Json.word64?)
  return {
    id := ← record.required "nd_id" Json.word64?
    label := ← record.required "nd_kind" Json.text?
    commands := ← record.withDefault "nd_instrs" [] (Json.listOf decodeCommand)
    successors := ← ids "nd_succ_ids"
    predecessors := ← ids "nd_pred_ids"
    exceptions := ← ids "nd_exn_ids" }

def SavedProcedure.decodeName (json : Json) : Option String := do
  let record ← json.record? ["name"]
  record.required "name" Json.text?

def SavedProcedure.decode (json : Json) : Option SavedProcedure := do
  let record ← json.record? ["pd_id", "pd_attributes", "pd_nodes"]
  return {
    id := ← record.required "pd_id" Json.word64?
    name := ← record.required "pd_attributes" decodeName
    nodes := ← record.required "pd_nodes" (Json.listOf SavedNode.decode) }

/-- Read the procedures of a program; of two under one name the later is kept. -/
def SavedProgram.decodeProcedures (json : Json) :
    Option (Std.ExtTreeMap String SavedProcedure) :=
  match json with
  | .object members =>
    members.foldlM
      (fun procedures (name, value) => do
        return procedures.insert name (← SavedProcedure.decode value))
      ∅
  | _ => none

def SavedProgram.decode (json : Json) : Option SavedProgram := do
  let record ← json.record? ["procs"]
  return ⟨← record.required "procs" decodeProcedures⟩

/-! ### Rendering -/

def SavedNode.text (node : SavedNode) : String :=
  nodeText node.id node.predecessors node.successors node.exceptions node.label node.commands

def SavedProcedure.text (procedure : SavedProcedure) : String :=
  procedureHeading procedure.name procedure.id ++
    String.join (procedure.nodes.map SavedNode.text)

/-- The procedures with one of the given names, or all of them if no name is given, in the order
of their names. -/
def SavedProgram.select (program : SavedProgram) (names : List String) : List SavedProcedure :=
  (program.procedures.toList.filter fun (name, _) => names.isEmpty || names.contains name).map
    Prod.snd

end BytecodeFlow

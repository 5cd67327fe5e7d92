/-
This file renders procedures and programs: as text (`Program.text`), as JSON
(`Program.toJson`), and as input for a graph drawing tool (`Program.toDot`).
Outside its procedure a node is always shown by its id. In the JSON form the
members of every object stand in the order of their names.
-/

import BytecodeFlow.Graph.Program
import BytecodeFlow.Json.Value
import BytecodeFlow.Text.Quoted

namespace BytecodeFlow

/-! ### Text -/

/-- Node ids with a blank between them. -/
def idsText (ids : List Nat) : String := " ".intercalate (ids.map toString)

/-- The lines of a node: one with its edges and its label, then one for each command. -/
def nodeText (id : Nat) (predecessors successors exceptions : List Nat) (label : String)
    (commands : List String) : String :=
  "  node" ++ toString id ++ " preds: " ++ idsText predecessors ++ " succs: " ++
    idsText successors ++ " exn: " ++ idsText exceptions ++ " " ++ label ++ "\n" ++
    String.join (commands.map fun command => "    " ++ command ++ "\n")

/-- The first line of a procedure. -/
def procedureHeading (name : String) (id : Nat) : String :=
  "procedure " ++ name ++ " (pd " ++ toString id ++ ")\n"

namespace Procedure

def nodeIds (procedure : Procedure) (indices : List NodeIndex) : List Nat :=
  indices.map procedure.nodeId

def textOfNode (procedure : Procedure) (index : NodeIndex) (node : Node) : String :=
  nodeText (procedure.nodeId index) (procedure.nodeIds node.predecessors)
    (procedure.nodeIds node.successors) (procedure.nodeIds node.exceptions) node.kind.label
    (node.commands.map Command.text)

/-- The text of a procedure. -/
def text (procedure : Procedure) : String :=
  procedureHeading procedure.name procedure.id ++
    String.join (procedure.nodes.toList.mapIdx procedure.textOfNode)

end Procedure

/-- The text of a program: its procedures in the order of their names, each followed by an empty
line. -/
def Program.text (program : Program) : String :=
  String.join (program.toList.map fun (_, procedure) => procedure.text ++ "\n")

/-! ### JSON -/

def Json.ofNat (value : Nat) : Json := .int value

def Json.ofIds (ids : List Nat) : Json := .array (ids.map .ofNat)

/-- A name with its type. -/
def Json.ofVariable (declared : String × Typ) : Json :=
  .object [("name", .string declared.1), ("type", .string declared.2.text)]

def Command.toJson (command : Command) : Json :=
  .object [("kind", .string command.kindText), ("text", .string command.text)]

namespace Procedure

def jsonOfNode (procedure : Procedure) (index : NodeIndex) (node : Node) : Json :=
  .object [
    ("nd_block_end_offset",
      match node.blockEnd with
      | some offset => .ofNat offset.toNat
      | none => .null),
    ("nd_exn_ids", .ofIds (procedure.nodeIds node.exceptions)),
    ("nd_exn_pred_ids", .ofIds (procedure.nodeIds node.exceptionPredecessors)),
    ("nd_id", .ofNat (procedure.nodeId index)),
    ("nd_instrs", .array (node.commands.map Command.toJson)),
    ("nd_kind", .string node.kind.label),
    ("nd_loc", .object [
      ("col", .int (-1)),
      ("file", .string node.location.file),
      ("line", .int node.location.lineNumber)]),
    ("nd_pred_ids", .ofIds (procedure.nodeIds node.predecessors)),
    ("nd_succ_ids", .ofIds (procedure.nodeIds node.successors))]

def toJson (procedure : Procedure) : Json :=
  let signature := procedure.signature
  .object [
    ("pd_attributes", .object [
      ("formals", .array (signature.formals.map .ofVariable)),
      ("loc", .object [
        ("file", .string signature.location.file),
        ("line", .int signature.location.lineNumber)]),
      ("locals", .array (signature.locals.map .ofVariable)),
      ("name", .string signature.name),
      ("ret_type", .string signature.returnType.text)]),
    ("pd_exit_node", .ofNat (procedure.nodeId exit)),
    ("pd_exn_node", .ofNat (procedure.nodeId sink)),
    ("pd_id", .ofNat procedure.id),
    ("pd_nodes", .array (procedure.nodes.toList.mapIdx procedure.jsonOfNode)),
    ("pd_start_node", .ofNat (procedure.nodeId start))]

end Procedure

/-- The JSON form of a program, in which its procedures stand under their names. -/
def Program.toJson (program : Program) : Json :=
  .object [("procs", .object (program.toList.map fun (name, procedure) =>
    (name, procedure.toJson)))]

/-! ### Drawings -/

namespace Procedure

/-- A node of the drawing, labelled with its id and its kind. -/
def dotOfNode (procedure : Procedure) (index : NodeIndex) (node : Node) : String :=
  let id := toString (procedure.nodeId index)
  "    n" ++ id ++ " [label=" ++ quoted (id ++ " " ++ node.kind.label) ++ "];\n"

/-- The edges of a node; those of the exceptional flow are dashed. -/
def dotOfEdges (procedure : Procedure) (index : NodeIndex) (node : Node) : String :=
  let arrow (target : NodeIndex) : String :=
    "    n" ++ toString (procedure.nodeId index) ++ " -> n" ++ toString (procedure.nodeId target)
  String.join (node.successors.map fun target => arrow target ++ ";\n") ++
    String.join (node.exceptions.map fun target => arrow target ++ " [style=dashed];\n")

/-- The drawing of a procedure as the cluster with the given number. -/
def toDot (procedure : Procedure) (number : Nat) : String :=
  "  subgraph cluster_" ++ toString number ++ " \x7b\n" ++
    "    label=" ++ quoted procedure.name ++ ";\n" ++
    String.join (procedure.nodes.toList.mapIdx procedure.dotOfNode) ++
    String.join (procedure.nodes.toList.mapIdx procedure.dotOfEdges) ++
    "  \x7d\n"

end Procedure

/-- The drawing of a program, with one cluster for each procedure. -/
def Program.toDot (program : Program) : String :=
  "digraph cfg \x7b\n" ++
    String.join (program.toList.mapIdx fun number (_, procedure) => procedure.toDot number) ++
    "\x7d\n"

end BytecodeFlow

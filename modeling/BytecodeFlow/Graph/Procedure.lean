/-
This file defines the control-flow graph of a method. A `Procedure` keeps its
nodes in an array, so that a node is known by its `NodeIndex`; the first three
are the `start`, the `exit` and the exception `sink`. Edges of the normal flow
and of the exceptional flow are kept apart. While a graph is being built only
the outgoing edges are known; `finish` completes the exceptional flow and adds
the incoming edges.
-/

import BytecodeFlow.Metadata.Assembly
import BytecodeFlow.Target.Command

namespace BytecodeFlow

/-- The index of a node in its procedure. -/
abbrev NodeIndex := Nat

inductive NodeKind where
  | start
  | exit
  | sink
  | statement
  | prune (branch : Bool) (kind : BranchKind)
  | join
  | handler
deriving DecidableEq, Repr

/-- The label of a node's kind. -/
def NodeKind.label : NodeKind → String
  | .start => "Start"
  | .exit => "Exit"
  | .sink => "exception sink"
  | .statement => "Stmt"
  | .prune branch kind => "Prune (" ++ booleanText branch ++ " branch, " ++ kind.text ++ ")"
  | .join => "Join"
  | .handler => "exception handler"

/-- A block of commands with its edges. -/
structure Node where
  kind : NodeKind
  location : Location
  /-- The end of the innermost protected region at the block's start. -/
  blockEnd : Option Offset
  commands : List Command
  successors : List NodeIndex
  predecessors : List NodeIndex
  /-- Where an exception goes. -/
  exceptions : List NodeIndex
  exceptionPredecessors : List NodeIndex
deriving DecidableEq, Repr

/-- A node without commands and edges. -/
def Node.empty (kind : NodeKind) (location : Location) : Node :=
  ⟨kind, location, none, [], [], [], [], []⟩

/-- What is known of a procedure besides its graph. -/
structure Signature where
  name : String
  formals : List (String × Typ)
  locals : List (String × Typ)
  returnType : Typ
  location : Location
deriving DecidableEq, Repr

structure Procedure where
  id : Nat
  signature : Signature
  /-- The id of the first node; the others follow it in the order of the array. -/
  firstNodeId : Nat
  nodes : Array Node
  /-- An index at which a node was to be changed though there is none, if that ever happened. -/
  stray : Option NodeIndex
deriving DecidableEq, Repr

namespace Procedure

def start : NodeIndex := 0

def exit : NodeIndex := 1

def sink : NodeIndex := 2

/-- A procedure without code: a start, an exit and an exception sink, not connected. -/
def begin (id : Nat) (signature : Signature) (firstNodeId : Nat) : Procedure :=
  { id
    signature
    firstNodeId
    nodes := #[.empty .start signature.location, .empty .exit signature.location,
      .empty .sink signature.location]
    stray := none }

def name (procedure : Procedure) : String := procedure.signature.name

/-- The id of a node, by which it is known outside its procedure. -/
def nodeId (procedure : Procedure) (index : NodeIndex) : Nat := procedure.firstNodeId + index

/-- The first id after those of the procedure's nodes. -/
def nextNodeId (procedure : Procedure) : Nat := procedure.firstNodeId + procedure.nodes.size

/-! ### Building -/

/-- The index that the next node will have. -/
def nextIndex (procedure : Procedure) : NodeIndex := procedure.nodes.size

def addNode (procedure : Procedure) (node : Node) : Procedure :=
  { procedure with nodes := procedure.nodes.push node }

/-- Change the node at an index. Nothing is changed if there is none, but it is kept in mind. -/
def modifyNode (procedure : Procedure) (index : NodeIndex) (change : Node → Node) : Procedure :=
  { procedure with
    nodes := procedure.nodes.modify index change
    stray := if index < procedure.nodes.size then procedure.stray else some index }

/-- Add a normal edge, unless it is there already. -/
def link (procedure : Procedure) (source target : NodeIndex) : Procedure :=
  procedure.modifyNode source fun node =>
    if node.successors.contains target then node
    else { node with successors := node.successors ++ [target] }

/-- Make a node the only one to which exceptions of another go. -/
def setException (procedure : Procedure) (source target : NodeIndex) : Procedure :=
  procedure.modifyNode source fun node => { node with exceptions := [target] }

/-- Add commands to the end of a node. -/
def append (procedure : Procedure) (index : NodeIndex) (commands : List Command) : Procedure :=
  procedure.modifyNode index fun node => { node with commands := node.commands ++ commands }

/-! ### Finishing -/

/-- Where the exceptions of a finished node go: those of the start and the sink to the exit,
those of the exit nowhere, and all others to the sink unless they have a handler. -/
def finishedExceptions (index : NodeIndex) (exceptions : List NodeIndex) : List NodeIndex :=
  if index = start then [exit]
  else if index = exit then []
  else if index = sink then [exit]
  else if exceptions.isEmpty then [sink]
  else exceptions

/-- Complete the exceptional flow, and connect the sink with the exit. -/
def completeExceptions (procedure : Procedure) : Procedure :=
  let nodes := procedure.nodes.mapIdx fun index node =>
    { node with exceptions := finishedExceptions index node.exceptions }
  link { procedure with nodes } sink exit

/-- The targets of all edges of a node, normal ones first. -/
def neighbours (procedure : Procedure) (index : NodeIndex) : List NodeIndex :=
  match procedure.nodes[index]? with
  | some node => node.successors ++ node.exceptions
  | none => []

/-- Add the nodes that are new to a visiting order. -/
def extendOrder (order : Array NodeIndex) (indices : List NodeIndex) : Array NodeIndex :=
  indices.foldl (fun order index => if order.contains index then order else order.push index) order

/-- Breadth-first from the start over all edges. Each node of the order adds its neighbours; there
are at most as many turns as nodes. -/
def reachableOrder (procedure : Procedure) : Array NodeIndex :=
  (List.range procedure.nodes.size).foldl
    (fun order turn =>
      match order[turn]? with
      | some index => extendOrder order (procedure.neighbours index)
      | none => order)
    #[start]

/-- The order in which nodes are visited: first those reachable from the start, then the others
by their index. -/
def visitOrder (procedure : Procedure) : List NodeIndex :=
  (extendOrder procedure.reachableOrder (List.range procedure.nodes.size)).toList

/-- Enter a node as predecessor of the targets of its edges. -/
def enterPredecessor (nodes : Array Node) (index : NodeIndex) : Array Node :=
  match nodes[index]? with
  | some node =>
    let nodes := node.successors.foldl
      (fun nodes successor => nodes.modify successor fun target =>
        { target with predecessors := target.predecessors ++ [index] })
      nodes
    node.exceptions.foldl
      (fun nodes handler => nodes.modify handler fun target =>
        { target with exceptionPredecessors := target.exceptionPredecessors ++ [index] })
      nodes
  | none => nodes

/-- Derive the incoming edges of all nodes from the outgoing ones, in visiting order. -/
def computePredecessors (procedure : Procedure) : Procedure :=
  let cleared := procedure.nodes.map fun node =>
    { node with predecessors := [], exceptionPredecessors := [] }
  { procedure with nodes := procedure.visitOrder.foldl enterPredecessor cleared }

/-- Complete the exceptional flow and the incoming edges. -/
def finish (procedure : Procedure) : Procedure := procedure.completeExceptions.computePredecessors

end Procedure

end BytecodeFlow

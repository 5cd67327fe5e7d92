/-
This file defines the state of a walk over a `Routine`. The `Walk` follows
every path through the code with a symbolic operand stack, and builds the graph
as it goes. Paths that are still to be followed wait on a worklist, each as a
`Pending` with all that is needed to take it up again.
-/

import BytecodeFlow.Graph.Procedure
import BytecodeFlow.Walk.Routine

namespace BytecodeFlow

/-- Where control goes when the body of a finally ends. -/
inductive FinallyExit where
  /-- The body was entered by a leave, whose target comes next. -/
  | continue (target : Offset)
  /-- The body was entered by an exception, which is thrown again. -/
  | rethrow (exception : Ident)
deriving DecidableEq, Repr

/-- How a waiting path relates to the block that is being built. -/
inductive Continuation where
  /-- A new block starts. -/
  | newBlock
  /-- The block of a node goes on. -/
  | append (node : NodeIndex)
  /-- A block goes on that has no node yet. -/
  | deferred (blockStart : Offset) (blockStack : List Value)
deriving DecidableEq, Repr

/-- A path that waits to be followed from an offset on. Operand stacks have their top first. -/
structure Pending where
  offset : Offset
  previous : NodeIndex
  stack : List Value
  nextStamp : Nat
  continuation : Continuation
  finallyExit : Option FinallyExit
deriving DecidableEq, Repr

structure Walk where
  procedure : Procedure
  /-- The waiting paths, the next one first. -/
  worklist : List Pending
  /-- The nodes opened for the blocks at an offset, with the operand stacks at their start. -/
  opened : Std.ExtTreeMap Offset (List (NodeIndex × List Value))
  /-- The entry nodes of handlers, by the offsets of the handlers. -/
  entries : Std.ExtTreeMap Offset NodeIndex
  /-- How often each offset was taken up. -/
  visits : Std.ExtTreeMap Offset Nat
  /-- The offset that is being walked over. -/
  offset : Offset
  /-- The node from which the current block is reached. -/
  previous : NodeIndex
  /-- The node of the current block, once it has one. -/
  current : Option NodeIndex
  blockStart : Offset
  blockStack : List Value
  stack : List Value
  nextStamp : Nat
  finallyExit : Option FinallyExit
  location : Location
  /-- What was found to be wrong, if anything. -/
  fault : Option Fault

namespace Walk

/-- The state before anything is walked over. -/
def begin (procedure : Procedure) : Walk :=
  { procedure
    worklist := []
    opened := ∅
    entries := ∅
    visits := ∅
    offset := 0
    previous := Procedure.start
    current := none
    blockStart := 0
    blockStack := []
    stack := []
    nextStamp := 0
    finallyExit := none
    location := procedure.signature.location
    fault := none }

def fail (walk : Walk) (fault : Fault) : Walk := { walk with fault := some fault }

def push (walk : Walk) (value : Value) : Walk := { walk with stack := value :: walk.stack }

/-- The temporary that comes next. -/
def nextIdent (walk : Walk) : Ident := ⟨walk.nextStamp⟩

/-- Use up a number of temporaries. -/
def useIdents (walk : Walk) (count : Nat) : Walk :=
  { walk with nextStamp := walk.nextStamp + count }

/-! ### The worklist -/

def queue (walk : Walk) (pending : Pending) : Walk :=
  { walk with worklist := pending :: walk.worklist }

/-- The current path, to be followed from an offset on. -/
def snapshot (walk : Walk) (offset : Offset) (previous : NodeIndex) (continuation : Continuation) :
    Pending :=
  { offset
    previous
    stack := walk.stack
    nextStamp := walk.nextStamp
    continuation
    finallyExit := walk.finallyExit }

/-- Queue the first instruction as a new block after a node. -/
def seed (walk : Walk) (routine : Routine) (previous : NodeIndex) : Walk :=
  match routine.instructions[0]? with
  | some first =>
    walk.queue {
      offset := first.offset
      previous
      stack := []
      nextStamp := walk.nextStamp
      continuation := .newBlock
      finallyExit := none }
  | none => walk

/-- Take up a waiting path. -/
def resume (walk : Walk) (pending : Pending) : Walk :=
  let (current, blockStart, blockStack) :=
    match pending.continuation with
    | .newBlock => (none, pending.offset, pending.stack)
    | .append node => (some node, pending.offset, pending.stack)
    | .deferred blockStart blockStack => (none, blockStart, blockStack)
  { walk with
    offset := pending.offset
    previous := pending.previous
    current
    blockStart
    blockStack
    stack := pending.stack
    nextStamp := pending.nextStamp
    finallyExit := pending.finallyExit }

/-- How often an offset was taken up. -/
def visitsOf (walk : Walk) (offset : Offset) : Nat := walk.visits.getD offset 0

/-- Count that an offset is taken up. -/
def visit (walk : Walk) (offset : Offset) : Walk :=
  { walk with visits := walk.visits.insert offset (walk.visitsOf offset + 1) }

/-! ### Sharing nodes -/

/-- Whether a recorded operand stack agrees with the top of another. -/
def topAgrees : (recorded stack : List Value) → Bool
  | [], _ => true
  | _ :: _, [] => false
  | value :: recorded, top :: stack => value.agrees top && topAgrees recorded stack

/-- A node that was opened for the block that starts here and can be shared: the operand stack at
its start agrees with the top of the current one. Blocks in handlers are not shared. -/
def reusableNode? (walk : Walk) (routine : Routine) : Option NodeIndex :=
  if walk.current.isSome || walk.blockStart != walk.offset ||
      routine.regions.isHandlerOffset walk.offset then none
  else
    ((walk.opened.getD walk.offset []).find? fun (_, recorded) =>
      topAgrees recorded walk.stack).map Prod.fst

/-- Connect the previous node with a node. -/
def linkPrevious (walk : Walk) (node : NodeIndex) : Walk :=
  { walk with procedure := walk.procedure.link walk.previous node }

/-- Take the source position of an instruction, if it has one. -/
def setLocation (walk : Walk) (routine : Routine) (instruction : Instruction) : Walk :=
  { walk with location := routine.locationOf instruction walk.location }

end Walk

end BytecodeFlow

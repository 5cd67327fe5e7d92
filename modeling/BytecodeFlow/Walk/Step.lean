/-
This file performs a resolved `Operation`: it adds commands and nodes to the
graph and queues the paths on which control goes on. Commands go into the node
of the current block (`emit`), which is opened when it is first needed
(`openNode`).
-/

import BytecodeFlow.Walk.Handler
import BytecodeFlow.Walk.Operation

namespace BytecodeFlow

/-- The function that allocates an object. -/
def allocateFunction : String := "__new"

namespace Walk

/-! ### The node of the current block -/

/-- Add a node for the current block. -/
def addBlockNode (walk : Walk) (routine : Routine) (kind : NodeKind) : Walk :=
  let node := walk.procedure.nextIndex
  let walk := { walk with
    procedure := (walk.procedure.addNode
      { Node.empty kind walk.location with
        blockEnd := routine.regions.blockEnd? walk.blockStart }).link walk.previous node }
  let walk := walk.attachHandler routine node
  { walk with
    opened := walk.opened.insert walk.blockStart
      (walk.opened.getD walk.blockStart [] ++ [(node, walk.blockStack)])
    current := some node }

/-- The node of the current block. If there is none, one of the given kind is added. -/
def openNode (walk : Walk) (routine : Routine) (kind : NodeKind) : Walk × NodeIndex :=
  match walk.current with
  | some node => (walk, node)
  | none => (walk.addBlockNode routine kind, walk.procedure.nextIndex)

/-- Add a command to the current block. -/
def emit (walk : Walk) (routine : Routine) (command : Command) : Walk :=
  let (walk, node) := walk.openNode routine .statement
  { walk with procedure := walk.procedure.append node [command] }

/-- The node of the current block, an empty one if nothing was emitted yet. -/
def currentNode (walk : Walk) (routine : Routine) : Walk × NodeIndex := walk.openNode routine .join

/-- Add a node after another that lets a path pass only if a condition holds. -/
def addPrune (walk : Walk) (routine : Routine) (source : NodeIndex) (condition : Expr)
    (branch : Bool) (kind : BranchKind) : Walk × NodeIndex :=
  let node := walk.procedure.nextIndex
  let walk := { walk with
    procedure := (walk.procedure.addNode (pruneNode condition branch kind walk.location
      (routine.regions.blockEnd? walk.offset))).link source node }
  (walk.attachHandler routine node, node)

/-! ### Going on -/

/-- How a path goes on at the next instruction. -/
def fallThroughTo (walk : Walk) (routine : Routine) (next : Offset) : Pending :=
  if routine.leaders.contains next then
    walk.snapshot next (walk.current.getD walk.previous) .newBlock
  else
    match walk.current with
    | some node => walk.snapshot next node (.append node)
    | none => walk.snapshot next walk.previous (.deferred walk.blockStart walk.blockStack)

/-- Go on with the next instruction. -/
def fallThrough (walk : Walk) (routine : Routine) : Walk :=
  match routine.nextOffset? walk.offset with
  | some next => walk.queue (walk.fallThroughTo routine next)
  | none => walk.fail (.offsetNotFound walk.offset)

/-- Go on from a node to a target. -/
def branchFrom (walk : Walk) (routine : Routine) (source : NodeIndex) (target : Offset) : Walk :=
  let continuation : Continuation :=
    if routine.leaders.contains target then .newBlock else .append source
  walk.queue (walk.snapshot target source continuation)

/-- Go on from the current block to a target. -/
def jump (walk : Walk) (routine : Routine) (target : Offset) : Walk :=
  let (walk, node) := walk.currentNode routine
  walk.branchFrom routine node target

/-! ### Branches -/

/-- Go on to a target if a condition holds, and to the next instruction otherwise. -/
def branch (walk : Walk) (routine : Routine) (condition : Expr) (target : Offset) : Walk :=
  match routine.nextOffset? walk.offset with
  | some next =>
    let (walk, source) := walk.currentNode routine
    let (walk, taken) := walk.addPrune routine source condition true .conditional
    let (walk, notTaken) := walk.addPrune routine source (.not condition) false .conditional
    (walk.branchFrom routine notTaken next).branchFrom routine taken target
  | none => walk.fail (.offsetNotFound walk.offset)

/-- Add two ways out of a node for each target, the second of which leads to the next target. The
result is the last node and, in reverse, the nodes that lead to the targets. -/
def addCases (routine : Routine) (value : Expr) :
    (position : Nat) → (targets : List Offset) → (source : NodeIndex) →
      (reversed : List (NodeIndex × Offset)) → Walk → Walk × NodeIndex × List (NodeIndex × Offset)
  | _, [], source, reversed, walk => (walk, source, reversed)
  | position, target :: rest, source, reversed, walk =>
    let condition : Expr := .binary .equal value (.int position)
    let (walk, taken) := walk.addPrune routine source condition true .switch
    let (walk, notTaken) := walk.addPrune routine source (.not condition) false .switch
    addCases routine value (position + 1) rest notTaken ((taken, target) :: reversed) walk

/-- Go on to the target at the position of a value, and to the next instruction if there is
none. -/
def select (walk : Walk) (routine : Routine) (value : Expr) (targets : List Offset) : Walk :=
  match routine.nextOffset? walk.offset with
  | some next =>
    let (walk, source) := walk.currentNode routine
    let (walk, last, cases) := addCases routine value 0 targets source [] walk
    cases.foldl (fun walk (taken, target) => walk.branchFrom routine taken target)
      (walk.branchFrom routine last next)
  | none => walk.fail (.offsetNotFound walk.offset)

/-! ### Calls -/

/-- Load from an address into a new temporary, and push it. -/
def load (walk : Walk) (routine : Routine) (address : Expr) (typ : Typ) : Walk :=
  let result := walk.nextIdent
  ((walk.useIdents 1).emit routine (.load result address typ walk.location)).push
    ⟨.var result, typ⟩

/-- Call a method, and push its result unless it has none. -/
def invoke (walk : Walk) (routine : Routine) (callee : MethodRef) (arguments : List Value)
    (isVirtual : Bool) : Walk :=
  let result := walk.nextIdent
  let resultType := Typ.ofName callee.returnType
  let walk := (walk.useIdents 1).emit routine
    (.call result resultType (.function callee.fullName) arguments isVirtual walk.location)
  if callee.returnType = voidName then walk else walk.push ⟨.var result, resultType⟩

/-- Allocate an object, call its constructor, and push the object. -/
def construct (walk : Walk) (routine : Routine) (callee : MethodRef) (arguments : List Value) :
    Walk :=
  let object := walk.nextIdent
  let objectType := Typ.ofName callee.declaringType
  let walk := (walk.useIdents 1).emit routine
    (.call object objectType (.function allocateFunction)
      [⟨.sizeOf objectType.stripPointer, .void⟩] false walk.location)
  let result := walk.nextIdent
  let walk := (walk.useIdents 1).emit routine
    (.call result .void (.function callee.fullName) (⟨.var object, objectType⟩ :: arguments) false
      walk.location)
  walk.push ⟨.var object, objectType⟩

/-! ### Leaving -/

/-- Leave the method, with a value in the return slot if there is one. -/
def finish (walk : Walk) (routine : Routine) (value : Option Expr) : Walk :=
  let walk :=
    match value with
    | some value => walk.emit routine
        (.store .returnSlot value (.ofName routine.method.returnType) walk.location)
    | none => walk
  let (walk, node) := walk.currentNode routine
  { walk with procedure := walk.procedure.link node Procedure.exit }

/-- Throw: put the exception into the return slot and go to its handler. -/
def raise (walk : Walk) (routine : Routine) (exception : Value) : Walk :=
  let walk := walk.emit routine
    (.store .returnSlot (.thrown exception.expr) exception.typ walk.location)
  let (walk, node) := walk.currentNode routine
  let (walk, destination) := walk.exceptionDestination routine
  { walk with procedure := walk.procedure.link node destination }

/-- Run the body of the finally clause at a position, and then leave it as said. -/
def enterFinally (walk : Walk) (routine : Routine) (position : Nat) (exit : FinallyExit) : Walk :=
  match routine.regions.finallies[position]? with
  | some clause =>
    let (walk, node) := walk.currentNode routine
    walk.queue {
      walk.snapshot clause.handler.start node .newBlock with
      stack := []
      finallyExit := some exit }
  | none => walk.fail (.indexOutOfRange .finally position walk.offset)

/-- Leave a protected region: nothing stays on the operand stack, and a finally that guards the
region runs first. -/
def leave (walk : Walk) (routine : Routine) (target : Offset) : Walk :=
  let walk := { walk with stack := [] }
  match routine.regions.finallyForLeave? walk.offset target with
  | some position => walk.enterFinally routine position (.continue target)
  | none => walk.jump routine target

/-- End the body of a finally in the way that belongs to how it was entered. -/
def endFinally (walk : Walk) (routine : Routine) : Walk :=
  match walk.finallyExit with
  | some (.continue target) => { walk with stack := [], finallyExit := none }.jump routine target
  | some (.rethrow exception) =>
    { walk with finallyExit := none }.raise routine ⟨.var exception, .object⟩
  | none => walk.fail (.unexpectedEndfinally walk.offset)

/-! ### Steps -/

/-- Perform an operation on the operand stack that is left for it. -/
def perform (walk : Walk) (routine : Routine) : Operation → Walk
  | .proceed => walk.fallThrough routine
  | .load address typ => (walk.load routine address typ).fallThrough routine
  | .store address typ value =>
    (walk.emit routine (.store address value typ walk.location)).fallThrough routine
  | .invoke callee arguments isVirtual =>
    (walk.invoke routine callee arguments isVirtual).fallThrough routine
  | .construct callee arguments => (walk.construct routine callee arguments).fallThrough routine
  | .jump target => walk.jump routine target
  | .branch condition target => walk.branch routine condition target
  | .select value targets => walk.select routine value targets
  | .finish value => walk.finish routine value
  | .raise exception => walk.raise routine exception
  | .leave target => walk.leave routine target
  | .endFinally => walk.endFinally routine

/-- What became of an instruction. -/
inductive Verdict where
  | done
  | unknown
  | failed (fault : Fault)
deriving DecidableEq, Repr

/-- Walk over an instruction. -/
def step (walk : Walk) (routine : Routine) (instruction : Instruction) : Walk × Verdict :=
  match Operation.resolve routine instruction walk.stack with
  | .error fault => (walk, .failed fault)
  | .ok none => (walk, .unknown)
  | .ok (some resolved) =>
    let walk := { walk with stack := resolved.stack }.perform routine resolved.operation
    match walk.fault with
    | some fault => (walk, .failed fault)
    | none => (walk, .done)

end Walk

end BytecodeFlow

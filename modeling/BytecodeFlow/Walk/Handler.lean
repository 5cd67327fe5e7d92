/-
This file builds the entries of exception handlers. A `catchEntry` takes the
exception out of the return slot and tests its type: on success the handler's
code follows, otherwise the exception goes on to the next clause of the group,
to the finally around it, or to the exception sink. A `finallyEntry` keeps the
exception, to throw it again when the finally ends. Each entry is built once,
and queues the code of its handler.
-/

import BytecodeFlow.Walk.State

namespace BytecodeFlow

/-- The function that takes the exception out of what a handler receives. -/
def unwrapFunction : String := "__unwrap_exception"

/-- The function that tests whether an object is of a type. -/
def instanceFunction : String := "__instanceof"

namespace Walk

/-- A node that lets a path pass only if a condition holds. -/
def pruneNode (condition : Expr) (branch : Bool) (kind : BranchKind) (location : Location)
    (blockEnd : Option Offset) : Node :=
  { Node.empty (.prune branch kind) location with
    blockEnd
    commands := [.prune condition branch kind location] }

/-- Take what was thrown out of the return slot. -/
def takeException (exception : Ident) (location : Location) : List Command :=
  [.load exception .returnSlot .object location, .store .returnSlot .null .object location]

/-! ### Finally clauses -/

/-- The entry of a finally handler. -/
def finallyEntryNode (exception : Ident) (location : Location) : Node :=
  { Node.empty .handler location with commands := takeException exception location }

/-- Build the entry of a finally clause, and queue its handler. -/
def addFinallyEntry (walk : Walk) (routine : Routine) (clause : FinallyClause) : Walk :=
  let entry := walk.procedure.nextIndex
  let exception := walk.nextIdent
  let location := routine.locationAt clause.handler.start walk.location
  let walk := { walk with
    procedure := walk.procedure.addNode (finallyEntryNode exception location)
    entries := walk.entries.insert clause.handler.start entry }
  let walk := walk.useIdents 1
  walk.queue {
    offset := clause.handler.start
    previous := entry
    stack := []
    nextStamp := walk.nextStamp
    continuation := .newBlock
    finallyExit := some (.rethrow exception) }

/-- The entry of the finally clause at a position, built if it is not there yet. -/
def finallyEntry (walk : Walk) (routine : Routine) (position : Nat) : Walk × NodeIndex :=
  match routine.regions.finallies[position]? with
  | some clause =>
    match walk.entries[clause.handler.start]? with
    | some entry => (walk, entry)
    | none => (walk.addFinallyEntry routine clause, walk.procedure.nextIndex)
  | none => (walk.fail (.indexOutOfRange .handler position walk.offset), Procedure.sink)

/-! ### Catch clauses -/

/-- The entry of a catch handler: unwrap the exception and test its type. -/
def catchEntryNode (caught : Typ) (exception unwrapped test : Ident) (location : Location) : Node :=
  { Node.empty .handler location with
    commands := takeException exception location ++ [
      .call unwrapped .object (.function unwrapFunction) [⟨.var exception, .object⟩] false location,
      .call test .boolean (.function instanceFunction)
        [⟨.var unwrapped, .object⟩, ⟨.sizeOf caught.stripPointer, .void⟩] false location] }

/-- The way out of a catch entry on which the exception is of another type: it is thrown again. -/
def missedNode (unwrapped test : Ident) (location : Location) (blockEnd : Option Offset) : Node :=
  let node := pruneNode (.not (.var test)) false .conditional location blockEnd
  { node with
    commands := node.commands ++
      [.store .returnSlot (.thrown (.var unwrapped)) .object location] }

/-- Build the entry of a catch clause with its two ways out, which follow it in the array. -/
def addCatchNodes (walk : Walk) (routine : Routine) (clause : CatchClause) : Walk :=
  let entry := walk.procedure.nextIndex
  let exception : Ident := ⟨walk.nextStamp⟩
  let unwrapped : Ident := ⟨walk.nextStamp + 1⟩
  let test : Ident := ⟨walk.nextStamp + 2⟩
  let location := routine.locationAt clause.handler.start walk.location
  let blockEnd := routine.regions.blockEnd? clause.handler.start
  let procedure := walk.procedure
    |>.addNode (catchEntryNode (.ofName clause.catchType) exception unwrapped test location)
    |>.addNode (pruneNode (.var test) true .conditional location blockEnd)
    |>.addNode (missedNode unwrapped test location blockEnd)
    |>.link entry (entry + 1)
    |>.link entry (entry + 2)
  useIdents { walk with
    procedure
    entries := walk.entries.insert clause.handler.start entry } 3

/-- Let a finally handle the exceptions of the three nodes of a catch entry. -/
def guardCatchNodes (walk : Walk) (entry finallyEntry : NodeIndex) : Walk :=
  { walk with
    procedure := walk.procedure
      |>.setException entry finallyEntry
      |>.setException (entry + 1) finallyEntry
      |>.setException (entry + 2) finallyEntry }

/-- The entry of the first of the given catch clauses, built if it is not there yet. The other
clauses are those that follow it in the order of the table. -/
def catchEntry (routine : Routine) : List CatchClause → Walk → Walk × NodeIndex
  | [], walk => (walk, Procedure.sink)
  | clause :: rest, walk =>
    match walk.entries[clause.handler.start]? with
    | some entry => (walk, entry)
    | none =>
      let entry := walk.procedure.nextIndex
      let unwrapped : Ident := ⟨walk.nextStamp + 1⟩
      let around? := wrappingFinally? routine.regions.catches routine.regions.finallies clause
      let walk := walk.addCatchNodes routine clause
      let inGroup := rest.head?.any fun next => next.guarded == clause.guarded
      let (walk, onward) :=
        if inGroup then catchEntry routine rest walk
        else
          match around? with
          | some position => walk.finallyEntry routine position
          | none => (walk, Procedure.sink)
      let walk := { walk with procedure := walk.procedure.link (entry + 2) onward }
      let walk :=
        match around? with
        | some position =>
          let (walk, finallyEntry) := walk.finallyEntry routine position
          walk.guardCatchNodes entry finallyEntry
        | none => walk
      let walk := walk.queue {
        offset := clause.handler.start
        previous := entry + 1
        stack := [⟨.var unwrapped, .ofName clause.catchType⟩]
        nextStamp := walk.nextStamp
        continuation := .newBlock
        finallyExit := none }
      (walk, entry)

/-! ### Handlers of offsets -/

/-- The entry of a handler, built if it is not there yet. -/
def handlerEntry (walk : Walk) (routine : Routine) : HandlerTarget → Walk × NodeIndex
  | .catch position =>
    match routine.regions.catches.drop position with
    | [] => (walk.fail (.indexOutOfRange .handler position walk.offset), Procedure.sink)
    | clause :: rest => catchEntry routine (clause :: rest) walk
  | .finally position => walk.finallyEntry routine position

/-- Send the exceptions of a node to the handler of the current offset, if it has one. -/
def attachHandler (walk : Walk) (routine : Routine) (node : NodeIndex) : Walk :=
  match routine.regions.exceptionTarget? walk.offset with
  | some target =>
    let (walk, entry) := walk.handlerEntry routine target
    { walk with procedure := walk.procedure.setException node entry }
  | none => walk

/-- Where an exception raised at the current offset goes. -/
def exceptionDestination (walk : Walk) (routine : Routine) : Walk × NodeIndex :=
  match routine.regions.exceptionTarget? walk.offset with
  | some target => walk.handlerEntry routine target
  | none => (walk, Procedure.sink)

end Walk

end BytecodeFlow

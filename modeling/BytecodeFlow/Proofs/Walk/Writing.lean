/-
This file lists the commands that a walk writes (`Routine.Writes`). They load
from and store to arguments, local variables, fields and the return slot
(`Locates`), and everything else in them is a value off an operand stack. Such
a value is built from temporaries and constants by operators: it neither reads
memory nor holds an address (`Expr.MemoryFree`). What instructions resolve to,
the entries of handlers, and what operations write are looked at one after the
other.
-/

import BytecodeFlow.Proofs.Graph.Finishing
import BytecodeFlow.Proofs.Walk.Contents

namespace BytecodeFlow

/-! ### Expressions without memory -/

/-- An expression that is built from temporaries and constants by operators. -/
inductive Expr.MemoryFree : Expr → Prop
  | var (ident : Ident) : MemoryFree (.var ident)
  | const (value : Const) : MemoryFree (.const value)
  | binary (operator : BinaryOperator) {left right : Expr} (first : MemoryFree left)
    (second : MemoryFree right) : MemoryFree (.binary operator left right)
  | unary (operator : UnaryOperator) {operand : Expr} (free : MemoryFree operand) :
    MemoryFree (.unary operator operand)

theorem Expr.MemoryFree.not {operand : Expr} (free : operand.MemoryFree) :
    (Expr.not operand).MemoryFree := .unary .not free

namespace Routine

/-- To be `MemoryFree` is a property of values that `Pervades` every routine. -/
theorem pervades_memoryFree (routine : Routine) :
    routine.Pervades fun value => value.expr.MemoryFree where
  temporary ident _ := .var ident
  constant _ _ _ _ _ pushes := by
    cases pushes with
    | shortInt | int | long | single | double | string | null => exact .const _
  binary operator _ _ _ left right := .binary operator left right
  unary operator _ operand := .unary operator operand

/-! ### Commands -/

/-- The places that commands load from and store to, with the types of what is there. -/
inductive Locates (routine : Routine) : Expr → Typ → Prop
  | argument {offset : Offset} {index : Nat} {address : Expr} {typ : Typ}
    (place : routine.argument offset index = .ok (address, typ)) : Locates routine address typ
  | localVariable {offset : Offset} {index : Nat} {address : Expr} {typ : Typ}
    (place : routine.localVariable offset index = .ok (address, typ)) : Locates routine address typ
  | returnSlot (typ : Typ) : Locates routine .returnSlot typ
  | field {base : Expr} (free : base.MemoryFree) (member : FieldRef) :
    Locates routine (Operation.fieldAddress base member) (.ofName member.fieldType)
  | staticField (member : FieldRef) :
    Locates routine (Operation.fieldAddress (Operation.staticBase member) member)
      (.ofName member.fieldType)

/-- The commands that are written for a routine, at what it `Locates`. Arguments of a call are
`MemoryFree` or sizes. -/
inductive Writes (routine : Routine) : Command → Prop
  | load {address : Expr} {typ : Typ} (located : routine.Locates address typ) (result : Ident)
    (location : Location) : Writes routine (.load result address typ location)
  | store {address value : Expr} {typ : Typ} (located : routine.Locates address typ)
    (free : value.MemoryFree) (location : Location) :
    Writes routine (.store address value typ location)
  | throw {exception : Expr} (free : exception.MemoryFree) (typ : Typ) (location : Location) :
    Writes routine (.store .returnSlot (.thrown exception) typ location)
  | prune {condition : Expr} (free : condition.MemoryFree) (branch : Bool) (kind : BranchKind)
    (location : Location) : Writes routine (.prune condition branch kind location)
  | call {arguments : List Value}
    (passed : ∀ argument ∈ arguments, argument.expr.MemoryFree ∨ ∃ typ, argument.expr = .sizeOf typ)
    (result : Ident) (resultType : Typ) (name : String) (isVirtual : Bool) (location : Location) :
    Writes routine (.call result resultType (.function name) arguments isVirtual location)

end Routine

/-- All commands of a procedure have a property. -/
def Procedure.AllCommands (good : Command → Prop) (procedure : Procedure) : Prop :=
  ∀ index, ∀ command ∈ procedure.commandsOf index, good command

namespace Procedure.AllCommands

variable {good : Command → Prop} {procedure : Procedure}

theorem begin (id : Nat) (signature : Signature) (firstNodeId : Nat) :
    (Procedure.begin id signature firstNodeId).AllCommands good := by
  intro index command member
  rw [commandsOf_begin] at member
  cases member

theorem addNode (all : procedure.AllCommands good) {node : Node}
    (new : ∀ command ∈ node.commands, good command) :
    (procedure.addNode node).AllCommands good := by
  intro index
  by_cases last : index = procedure.size
  · rw [last, commandsOf, node?_addNode_self]
    exact new
  · rw [commandsOf_congr (node?_addNode_of_ne _ _ last)]
    exact all index

theorem link (all : procedure.AllCommands good) (source target : NodeIndex) :
    (procedure.link source target).AllCommands good := by
  intro index
  rw [commandsOf_link]
  exact all index

theorem setException (all : procedure.AllCommands good) (source target : NodeIndex) :
    (procedure.setException source target).AllCommands good := by
  intro index
  rw [commandsOf_setException]
  exact all index

theorem append (all : procedure.AllCommands good) (index : NodeIndex) {command : Command}
    (new : good command) : (procedure.append index [command]).AllCommands good := by
  intro other
  by_cases changed : other = index
  · rw [changed]
    by_cases known : index < procedure.size
    · rw [commandsOf_append_self known]
      exact List.forall_mem_append.mpr ⟨all index, List.forall_mem_singleton.mpr new⟩
    · have beyond : (procedure.append index [command]).size ≤ index := by
        rw [size_append]
        exact Nat.le_of_not_lt known
      rw [commandsOf, node?_eq_none.mpr beyond]
      exact fun _ member => absurd member List.not_mem_nil
  · rw [commandsOf_append_of_ne _ _ changed]
    exact all other

theorem finish (all : procedure.AllCommands good) : procedure.finish.AllCommands good := by
  intro index
  rw [commandsOf_finish]
  exact all index

end Procedure.AllCommands

/-! ### Operands -/

namespace Operation

/-- An operation whose addresses are what the routine `Locates` and whose values are
`MemoryFree`. -/
def Grounded (routine : Routine) : Operation → Prop
  | .load address typ => routine.Locates address typ
  | .store address typ value => routine.Locates address typ ∧ value.MemoryFree
  | .invoke _ arguments _ => ∀ argument ∈ arguments, argument.expr.MemoryFree
  | .construct _ arguments => ∀ argument ∈ arguments, argument.expr.MemoryFree
  | .branch condition _ => condition.MemoryFree
  | .select value _ => value.MemoryFree
  | .finish value => ∀ expr ∈ value, expr.MemoryFree
  | .raise exception => exception.expr.MemoryFree
  | .proceed | .jump _ | .leave _ | .endFinally => True

theorem truth_memoryFree {value : Value} (free : value.expr.MemoryFree) (expected : Bool) :
    (truth value expected).MemoryFree := by
  unfold truth
  split
  · exact .binary _ free (.const _)
  · split
    · exact free
    · exact free.not

/-- What an instruction `Resolves` to is `Grounded`, since it takes its values off the operand
stack. -/
theorem Resolves.grounded {routine : Routine} {instruction : Instruction} {operation : Operation}
    {stack after : List Value} (resolves : Resolves routine instruction stack operation after)
    (free : ∀ value ∈ stack, value.expr.MemoryFree) : operation.Grounded routine := by
  cases resolves with
  | combine | br | leave | endfinally => trivial
  | ldarg _ _ place => exact .argument place
  | ldloc _ _ place => exact .localVariable place
  | starg _ _ place => exact ⟨.argument place, free _ List.mem_cons_self⟩
  | stloc _ _ place => exact ⟨.localVariable place, free _ List.mem_cons_self⟩
  | test => exact truth_memoryFree (free _ List.mem_cons_self) _
  | branch =>
    obtain ⟨right, others⟩ := List.forall_mem_cons.mp free
    exact .binary _ (others _ List.mem_cons_self) right
  | switch | throw => exact free _ List.mem_cons_self
  | call | newobj =>
    exact fun argument member =>
      free argument (List.mem_append_left _ (List.mem_reverse.mpr member))
  | ldfld => exact .field (free _ List.mem_cons_self) _
  | ldsfld => exact .staticField _
  | stfld =>
    obtain ⟨value, others⟩ := List.forall_mem_cons.mp free
    exact ⟨.field (others _ List.mem_cons_self) _, value⟩
  | stsfld => exact ⟨.staticField _, free _ List.mem_cons_self⟩
  | retVoid => exact fun _ none => by cases none
  | ret =>
    rintro _ ⟨⟩
    exact free _ List.mem_cons_self

end Operation

namespace Walk

/-- All commands of the graph are ones that the routine `Writes`. -/
def AllWritten (routine : Routine) (walk : Walk) : Prop := walk.procedure.AllCommands routine.Writes

variable {routine : Routine} {walk : Walk}

/-! ### Entries of handlers -/

theorem writes_takeException {exception : Ident} {location : Location} :
    ∀ command ∈ takeException exception location, routine.Writes command := by
  refine List.forall_mem_cons.mpr ⟨.load (.returnSlot _) _ _, List.forall_mem_singleton.mpr ?_⟩
  exact .store (.returnSlot _) (.const _) _

theorem writes_catchEntryNode {caught : Typ} {exception unwrapped test : Ident}
    {location : Location} :
    ∀ command ∈ (catchEntryNode caught exception unwrapped test location).commands,
      routine.Writes command := by
  refine List.forall_mem_append.mpr ⟨writes_takeException, List.forall_mem_cons.mpr
    ⟨.call ?_ _ _ _ _ _, List.forall_mem_singleton.mpr (.call ?_ _ _ _ _ _)⟩⟩
  · exact List.forall_mem_singleton.mpr (.inl (.var _))
  · exact List.forall_mem_cons.mpr
      ⟨.inl (.var _), List.forall_mem_singleton.mpr (.inr ⟨_, rfl⟩)⟩

theorem writes_pruneNode {condition : Expr} (free : condition.MemoryFree) {branch : Bool}
    {kind : BranchKind} {location : Location} {blockEnd : Option Offset} :
    ∀ command ∈ (pruneNode condition branch kind location blockEnd).commands,
      routine.Writes command :=
  List.forall_mem_singleton.mpr (.prune free _ _ _)

theorem writes_missedNode {unwrapped test : Ident} {location : Location}
    {blockEnd : Option Offset} :
    ∀ command ∈ (missedNode unwrapped test location blockEnd).commands,
      routine.Writes command :=
  List.forall_mem_append.mpr ⟨writes_pruneNode (Expr.MemoryFree.var _).not,
    List.forall_mem_singleton.mpr (.throw (.var _) _ _)⟩

namespace AllWritten

theorem useIdents (written : walk.AllWritten routine) (count : Nat) :
    (walk.useIdents count).AllWritten routine := written

theorem push (written : walk.AllWritten routine) (value : Value) :
    (walk.push value).AllWritten routine := written

theorem branchFrom (written : walk.AllWritten routine) (source : NodeIndex) (target : Offset) :
    (walk.branchFrom routine source target).AllWritten routine := written

theorem link (written : walk.AllWritten routine) (source target : NodeIndex) :
    AllWritten routine { walk with procedure := walk.procedure.link source target } :=
  Procedure.AllCommands.link written source target

theorem finallyEntry (written : walk.AllWritten routine) (position : Nat) :
    (walk.finallyEntry routine position).1.AllWritten routine := by
  unfold Walk.finallyEntry
  split
  · split
    · exact written
    · exact Procedure.AllCommands.addNode written writes_takeException
  · exact written

theorem addCatchNodes (written : walk.AllWritten routine) (clause : CatchClause) :
    (walk.addCatchNodes routine clause).AllWritten routine := by
  refine Procedure.AllCommands.link
    (.link (.addNode (.addNode (.addNode written ?_) ?_) ?_) _ _) _ _
  · exact writes_catchEntryNode
  · exact writes_pruneNode (.var _)
  · exact writes_missedNode

theorem passOn (written : walk.AllWritten routine) (clause : CatchClause) {rest : List CatchClause}
    (inductionHypothesis : ∀ {walk : Walk}, walk.AllWritten routine →
      (catchEntry routine rest walk).1.AllWritten routine) :
    (walk.passOn routine clause rest).1.AllWritten routine := by
  unfold Walk.passOn
  split
  · exact inductionHypothesis written
  · split
    · exact written.finallyEntry _
    · exact written

theorem guardCatch (written : walk.AllWritten routine) (clause : CatchClause) (entry : NodeIndex) :
    (walk.guardCatch routine clause entry).AllWritten routine := by
  unfold Walk.guardCatch
  split
  · exact ((Procedure.AllCommands.setException (written.finallyEntry _) _ _).setException _
      _).setException _ _
  · exact written

theorem catchEntry (clauses : List CatchClause) (written : walk.AllWritten routine) :
    (Walk.catchEntry routine clauses walk).1.AllWritten routine := by
  induction clauses generalizing walk with
  | nil => exact written
  | cons clause rest inductionHypothesis =>
    cases entry? : walk.entries[clause.handler.start]? with
    | some entry =>
      rw [catchEntry_known _ entry?]
      exact written
    | none =>
      rw [catchEntry_fresh _ entry?]
      have passed := (written.addCatchNodes clause).passOn clause inductionHypothesis
      exact (passed.link _ _).guardCatch clause _

theorem handlerEntry (written : walk.AllWritten routine) (target : HandlerTarget) :
    (walk.handlerEntry routine target).1.AllWritten routine := by
  unfold Walk.handlerEntry
  split
  · split
    · exact written
    · exact written.catchEntry _
  · exact written.finallyEntry _

theorem attachHandler (written : walk.AllWritten routine) (node : NodeIndex) :
    (walk.attachHandler routine node).AllWritten routine := by
  unfold Walk.attachHandler
  split
  · exact Procedure.AllCommands.setException (written.handlerEntry _) _ _
  · exact written

theorem exceptionDestination (written : walk.AllWritten routine) :
    (walk.exceptionDestination routine).1.AllWritten routine := by
  unfold Walk.exceptionDestination
  split
  · exact written.handlerEntry _
  · exact written

/-! ### Nodes for code -/

theorem openNode (written : walk.AllWritten routine) (kind : NodeKind) :
    (walk.openNode routine kind).1.AllWritten routine := by
  unfold Walk.openNode
  split
  · exact written
  · have added : Procedure.AllCommands routine.Writes (walk.procedure.addNode
        { Node.empty kind walk.location with
          blockEnd := routine.regions.blockEnd? walk.blockStart }) :=
      Procedure.AllCommands.addNode written fun _ member => absurd member List.not_mem_nil
    have linked : AllWritten routine { walk with
        procedure := (walk.procedure.addNode { Node.empty kind walk.location with
          blockEnd := routine.regions.blockEnd? walk.blockStart }).link walk.previous
            walk.procedure.nextIndex } := added.link _ _
    exact linked.attachHandler _

theorem emit (written : walk.AllWritten routine) {command : Command}
    (new : routine.Writes command) : (walk.emit routine command).AllWritten routine :=
  Procedure.AllCommands.append (written.openNode .statement) _ new

theorem addPrune (written : walk.AllWritten routine) (source : NodeIndex) {condition : Expr}
    (free : condition.MemoryFree) (branch : Bool) (kind : BranchKind) :
    (walk.addPrune routine source condition branch kind).1.AllWritten routine := by
  have added : AllWritten routine { walk with
      procedure := (walk.procedure.addNode (pruneNode condition branch kind walk.location
        (routine.regions.blockEnd? walk.offset))).link source walk.procedure.nextIndex } :=
    (Procedure.AllCommands.addNode written (writes_pruneNode free)).link _ _
  exact added.attachHandler _

/-! ### Operations -/

theorem fallThrough (written : walk.AllWritten routine) :
    (walk.fallThrough routine).AllWritten routine := by
  unfold Walk.fallThrough
  split
  · exact written
  · exact written

theorem jump (written : walk.AllWritten routine) (target : Offset) :
    (walk.jump routine target).AllWritten routine := written.openNode .join

theorem branch (written : walk.AllWritten routine) {condition : Expr} (free : condition.MemoryFree)
    (target : Offset) : (walk.branch routine condition target).AllWritten routine := by
  unfold Walk.branch
  split
  · exact (((written.openNode .join).addPrune _ free true .conditional).addPrune _ free.not false
      .conditional)
  · exact written

theorem addCases {value : Expr} (free : value.MemoryFree) (targets : List Offset) (position : Nat)
    (source : NodeIndex) (reversed : List (NodeIndex × Offset))
    (written : walk.AllWritten routine) :
    (Walk.addCases routine value position targets source reversed walk).1.AllWritten routine := by
  induction targets generalizing position source reversed walk with
  | nil => exact written
  | cons target rest inductionHypothesis =>
    have compared : (Expr.binary .equal value (.int position)).MemoryFree :=
      .binary _ free (.const _)
    exact inductionHypothesis _ _ _
      ((written.addPrune source compared true .switch).addPrune source compared.not false .switch)

theorem branchFrom_each (written : walk.AllWritten routine) (cases : List (NodeIndex × Offset)) :
    (cases.foldl (fun walk (taken, target) => walk.branchFrom routine taken target)
      walk).AllWritten routine := by
  induction cases generalizing walk with
  | nil => exact written
  | cons one rest inductionHypothesis => exact inductionHypothesis written

theorem select (written : walk.AllWritten routine) {value : Expr} (free : value.MemoryFree)
    (targets : List Offset) : (walk.select routine value targets).AllWritten routine := by
  unfold Walk.select
  split
  · have added := addCases free targets 0 (walk.currentNode routine).2 [] (written.openNode .join)
    exact (added.branchFrom _ _).branchFrom_each _
  · exact written

theorem load (written : walk.AllWritten routine) {address : Expr} {typ : Typ}
    (located : routine.Locates address typ) : (walk.load routine address typ).AllWritten routine :=
  ((written.useIdents 1).emit (.load located _ _)).push _

theorem invoke (written : walk.AllWritten routine) (callee : MethodRef) {arguments : List Value}
    (free : ∀ argument ∈ arguments, argument.expr.MemoryFree) (isVirtual : Bool) :
    (walk.invoke routine callee arguments isVirtual).AllWritten routine := by
  have emitted := (written.useIdents 1).emit (.call (fun argument member =>
    .inl (free argument member)) walk.nextIdent (.ofName callee.returnType) callee.fullName
      isVirtual walk.location)
  unfold Walk.invoke
  dsimp only
  split
  · exact emitted
  · exact emitted.push _

theorem construct (written : walk.AllWritten routine) (callee : MethodRef) {arguments : List Value}
    (free : ∀ argument ∈ arguments, argument.expr.MemoryFree) :
    (walk.construct routine callee arguments).AllWritten routine := by
  refine ((((written.useIdents 1).emit (.call ?_ _ _ _ _ _)).useIdents 1).emit
    (.call ?_ _ _ _ _ _)).push _
  · exact List.forall_mem_singleton.mpr (.inr ⟨_, rfl⟩)
  · exact List.forall_mem_cons.mpr
      ⟨.inl (.var _), fun argument member => .inl (free argument member)⟩

theorem finish (written : walk.AllWritten routine) {value : Option Expr}
    (free : ∀ expr ∈ value, expr.MemoryFree) : (walk.finish routine value).AllWritten routine := by
  cases value with
  | none => exact (written.openNode .join).link _ _
  | some value =>
    exact ((written.emit (.store (.returnSlot _) (free value rfl) _)).openNode .join).link _ _

theorem raise (written : walk.AllWritten routine) {exception : Value}
    (free : exception.expr.MemoryFree) : (walk.raise routine exception).AllWritten routine :=
  ((written.emit (.throw free _ _)).openNode .join).exceptionDestination.link _ _

theorem enterFinally (written : walk.AllWritten routine) (position : Nat) (exit : FinallyExit) :
    (walk.enterFinally routine position exit).AllWritten routine := by
  unfold Walk.enterFinally
  split
  · exact written.openNode .join
  · exact written

theorem leave (written : walk.AllWritten routine) (target : Offset) :
    (walk.leave routine target).AllWritten routine := by
  have cleared : AllWritten routine { walk with stack := [] } := written
  unfold Walk.leave
  dsimp only
  split
  · exact cleared.enterFinally _ _
  · exact cleared.jump target

theorem endFinally (written : walk.AllWritten routine) :
    (walk.endFinally routine).AllWritten routine := by
  have left : ∀ stack, AllWritten routine { walk with stack, finallyExit := none } :=
    fun _ => written
  unfold Walk.endFinally
  split
  · exact (left []).jump _
  · exact (left walk.stack).raise (.var _)
  · exact written

/-- An operation that is `Grounded` writes only commands that the routine `Writes`. -/
theorem perform (written : walk.AllWritten routine) {operation : Operation}
    (grounded : operation.Grounded routine) :
    (walk.perform routine operation).AllWritten routine := by
  cases operation with
  | proceed => exact written.fallThrough
  | load => exact (written.load grounded).fallThrough
  | store => exact (written.emit (.store grounded.1 grounded.2 _)).fallThrough
  | invoke callee arguments isVirtual =>
    exact (written.invoke callee grounded isVirtual).fallThrough
  | construct callee => exact (written.construct callee grounded).fallThrough
  | jump target => exact written.jump target
  | branch _ target => exact written.branch grounded target
  | select _ targets => exact written.select grounded targets
  | finish => exact written.finish grounded
  | raise => exact written.raise grounded
  | leave target => exact written.leave target
  | endFinally => exact written.endFinally

/-- A turn leaves `AllWritten` as it is, if the values that the walk keeps are `MemoryFree`. -/
theorem takesUp {limits : Limits} {before after : Walk} {pending : Pending}
    {outcome : Option Outcome} (written : before.AllWritten routine)
    (values : before.AllValues fun value => value.expr.MemoryFree)
    (takesUp : TakesUp routine limits before pending after outcome) : after.AllWritten routine := by
  obtain ⟨rest, overdue, waiting, turned⟩ := takesUp
  have arrived : AllWritten routine (before.arrive pending rest) := written
  cases turn_turned turned with
  | joined node => exact arrived.link _ node
  | halted => exact arrived
  | performed instruction resolved outcome fresh valid handled found resolves =>
    have grounded := (Operation.resolves_of_resolve resolves).grounded (values.arrive waiting).stack
    have ready : AllWritten routine
        ((before.arrive pending rest).ready routine instruction resolved.stack) := arrived
    exact ready.perform grounded

end AllWritten

end Walk

end BytecodeFlow

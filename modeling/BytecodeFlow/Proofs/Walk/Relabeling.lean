/-
This file proves that the numbers and the signature of a procedure, and the
count of visits, its `Labels`, do not matter to a walk: an operation makes of a
walk with other labels (`relabel`) what it makes of the walk, with the other
labels on it. So no operation looks at them, and none changes them; they are
set by the program that the procedure belongs to, and by the run.
-/

import BytecodeFlow.Proofs.Walk.Handlers
import BytecodeFlow.Proofs.Walk.Turns

namespace BytecodeFlow

/-- What a procedure is known by, besides its graph. -/
structure Heading where
  id : Nat
  signature : Signature
  firstNodeId : Nat

def Procedure.heading (procedure : Procedure) : Heading :=
  ⟨procedure.id, procedure.signature, procedure.firstNodeId⟩

/-- A graph under another `Heading`. -/
def Procedure.retitle (procedure : Procedure) (heading : Heading) : Procedure :=
  { procedure with
    id := heading.id
    signature := heading.signature
    firstNodeId := heading.firstNodeId }

theorem Procedure.finish_retitle (procedure : Procedure) (heading : Heading) :
    (procedure.retitle heading).finish = procedure.finish.retitle heading := rfl

namespace Walk

/-- What a walk carries along without looking at it: the `Heading` of its procedure, and the
visits. -/
structure Labels where
  heading : Heading
  visits : Std.ExtTreeMap Offset Nat

/-- A walk with other `Labels`. -/
def relabel (walk : Walk) (labels : Labels) : Walk :=
  { walk with
    procedure := walk.procedure.retitle labels.heading
    visits := labels.visits }

def labels (walk : Walk) : Labels := ⟨walk.procedure.heading, walk.visits⟩

theorem relabel_labels (walk : Walk) : walk.relabel walk.labels = walk := rfl

theorem labels_relabel (walk : Walk) (labels : Labels) : (walk.relabel labels).labels = labels :=
  rfl

section Relabeled

variable (routine : Routine) (labels : Labels) (walk : Walk)

/-! ### Handlers -/

theorem finallyEntry_relabel (position : Nat) :
    (walk.relabel labels).finallyEntry routine position =
      ((walk.finallyEntry routine position).1.relabel labels,
        (walk.finallyEntry routine position).2) := by
  unfold finallyEntry
  cases routine.regions.finallies[position]? with
  | none => rfl
  | some clause =>
    have same : (walk.relabel labels).entries = walk.entries := rfl
    dsimp only
    rw [same]
    cases walk.entries[clause.handler.start]? <;> rfl

theorem guardCatch_relabel (clause : CatchClause) (entry : NodeIndex) :
    (walk.relabel labels).guardCatch routine clause entry =
      (walk.guardCatch routine clause entry).relabel labels := by
  unfold guardCatch
  cases wrappingFinally? routine.regions.catches routine.regions.finallies clause with
  | none => rfl
  | some position =>
    dsimp only
    rw [finallyEntry_relabel]
    rfl

theorem catchEntry_relabel (clauses : List CatchClause) :
    catchEntry routine clauses (walk.relabel labels) =
      ((catchEntry routine clauses walk).1.relabel labels,
        (catchEntry routine clauses walk).2) := by
  induction clauses generalizing walk with
  | nil => rfl
  | cons clause rest inductionHypothesis =>
    cases known : walk.entries[clause.handler.start]? with
    | some entry =>
      have relabeled : (walk.relabel labels).entries[clause.handler.start]? = some entry := known
      rw [catchEntry_known rest known, catchEntry_known rest relabeled]
    | none =>
      have relabeled : (walk.relabel labels).entries[clause.handler.start]? = none := known
      have passed :
          ((walk.addCatchNodes routine clause).relabel labels).passOn routine clause rest =
          (((walk.addCatchNodes routine clause).passOn routine clause rest).1.relabel labels,
            ((walk.addCatchNodes routine clause).passOn routine clause rest).2) := by
        unfold passOn
        split
        · exact inductionHypothesis _
        · split
          · exact finallyEntry_relabel ..
          · rfl
      have added : (walk.relabel labels).addCatchNodes routine clause =
          (walk.addCatchNodes routine clause).relabel labels := rfl
      rw [catchEntry_fresh rest known, catchEntry_fresh rest relabeled, added, passed]
      generalize (walk.addCatchNodes routine clause).passOn routine clause rest = result
      obtain ⟨passed, onward⟩ := result
      dsimp only
      have linked : ∀ entry, { passed.relabel labels with
          procedure := (passed.relabel labels).procedure.link entry onward } =
        ({ passed with procedure := passed.procedure.link entry onward } : Walk).relabel labels :=
        fun _ => rfl
      rw [linked, guardCatch_relabel]
      rfl

theorem handlerEntry_relabel (target : HandlerTarget) :
    (walk.relabel labels).handlerEntry routine target =
      ((walk.handlerEntry routine target).1.relabel labels,
        (walk.handlerEntry routine target).2) := by
  cases target with
  | «catch» position =>
    unfold handlerEntry
    dsimp only
    cases routine.regions.catches.drop position with
    | nil => rfl
    | cons clause rest => exact catchEntry_relabel ..
  | «finally» position => exact finallyEntry_relabel ..

theorem attachHandler_relabel (node : NodeIndex) :
    (walk.relabel labels).attachHandler routine node =
      (walk.attachHandler routine node).relabel labels := by
  have offset : (walk.relabel labels).offset = walk.offset := rfl
  unfold attachHandler
  rw [offset]
  cases routine.regions.exceptionTarget? walk.offset with
  | none => rfl
  | some target =>
    dsimp only
    rw [handlerEntry_relabel]
    rfl

theorem exceptionDestination_relabel :
    (walk.relabel labels).exceptionDestination routine =
      ((walk.exceptionDestination routine).1.relabel labels,
        (walk.exceptionDestination routine).2) := by
  have offset : (walk.relabel labels).offset = walk.offset := rfl
  unfold exceptionDestination
  rw [offset]
  cases routine.regions.exceptionTarget? walk.offset with
  | none => rfl
  | some target => exact handlerEntry_relabel ..

/-! ### The node of the current block -/

theorem addBlockNode_relabel (kind : NodeKind) :
    (walk.relabel labels).addBlockNode routine kind =
      (walk.addBlockNode routine kind).relabel labels := by
  have attached := attachHandler_relabel routine labels { walk with
    procedure := (walk.procedure.addNode
      { Node.empty kind walk.location with
        blockEnd := routine.regions.blockEnd? walk.blockStart }).link walk.previous
          walk.procedure.nextIndex } walk.procedure.nextIndex
  exact congrArg (fun attached : Walk => { attached with
    opened := attached.opened.insert attached.blockStart
      (attached.opened.getD attached.blockStart [] ++
        [(walk.procedure.nextIndex, attached.blockStack)])
    current := some walk.procedure.nextIndex }) attached

theorem openNode_relabel (kind : NodeKind) :
    (walk.relabel labels).openNode routine kind =
      ((walk.openNode routine kind).1.relabel labels, (walk.openNode routine kind).2) := by
  have current : (walk.relabel labels).current = walk.current := rfl
  unfold openNode
  rw [current]
  cases walk.current with
  | some node => rfl
  | none => exact congrArg (·, _) (addBlockNode_relabel ..)

theorem emit_relabel (command : Command) :
    (walk.relabel labels).emit routine command = (walk.emit routine command).relabel labels := by
  unfold emit
  rw [openNode_relabel]
  rfl

theorem addPrune_relabel (source : NodeIndex) (condition : Expr) (branch : Bool)
    (kind : BranchKind) :
    (walk.relabel labels).addPrune routine source condition branch kind =
      ((walk.addPrune routine source condition branch kind).1.relabel labels,
        (walk.addPrune routine source condition branch kind).2) :=
  congrArg (·, walk.procedure.nextIndex) (attachHandler_relabel routine labels { walk with
    procedure := (walk.procedure.addNode (pruneNode condition branch kind walk.location
      (routine.regions.blockEnd? walk.offset))).link source walk.procedure.nextIndex } _)

/-! ### Going on -/

theorem fallThrough_relabel :
    (walk.relabel labels).fallThrough routine = (walk.fallThrough routine).relabel labels := by
  have offset : (walk.relabel labels).offset = walk.offset := rfl
  unfold fallThrough
  rw [offset]
  cases routine.nextOffset? walk.offset with
  | none => rfl
  | some next =>
    have goesOn : (walk.relabel labels).fallThroughTo routine next =
        walk.fallThroughTo routine next := rfl
    dsimp only
    rw [goesOn]
    rfl

theorem jump_relabel (target : Offset) :
    (walk.relabel labels).jump routine target = (walk.jump routine target).relabel labels := by
  unfold jump currentNode
  rw [openNode_relabel]
  rfl

theorem branch_relabel (condition : Expr) (target : Offset) :
    (walk.relabel labels).branch routine condition target =
      (walk.branch routine condition target).relabel labels := by
  have offset : (walk.relabel labels).offset = walk.offset := rfl
  unfold branch currentNode
  rw [offset]
  cases routine.nextOffset? walk.offset with
  | none => rfl
  | some next =>
    dsimp only
    rw [openNode_relabel]
    dsimp only
    rw [addPrune_relabel]
    dsimp only
    rw [addPrune_relabel]
    rfl

theorem addCases_relabel (value : Expr) (position : Nat) (targets : List Offset)
    (source : NodeIndex) (reversed : List (NodeIndex × Offset)) :
    addCases routine value position targets source reversed (walk.relabel labels) =
      ((addCases routine value position targets source reversed walk).1.relabel labels,
        (addCases routine value position targets source reversed walk).2) := by
  induction targets generalizing position source reversed walk with
  | nil => rfl
  | cons target rest inductionHypothesis =>
    unfold addCases
    dsimp only
    rw [addPrune_relabel]
    dsimp only
    rw [addPrune_relabel]
    dsimp only
    rw [inductionHypothesis]

theorem branchFrom_each_relabel (cases : List (NodeIndex × Offset)) :
    cases.foldl (fun walk way => walk.branchFrom routine way.1 way.2) (walk.relabel labels) =
      (cases.foldl (fun walk way => walk.branchFrom routine way.1 way.2) walk).relabel labels := by
  induction cases generalizing walk with
  | nil => rfl
  | cons first rest inductionHypothesis =>
    exact inductionHypothesis (walk.branchFrom routine first.1 first.2)

theorem select_relabel (value : Expr) (targets : List Offset) :
    (walk.relabel labels).select routine value targets =
      (walk.select routine value targets).relabel labels := by
  have offset : (walk.relabel labels).offset = walk.offset := rfl
  unfold select currentNode
  rw [offset]
  cases routine.nextOffset? walk.offset with
  | none => rfl
  | some next =>
    dsimp only
    rw [openNode_relabel]
    dsimp only
    rw [addCases_relabel]
    generalize addCases routine value 0 targets _ [] _ = result
    exact branchFrom_each_relabel routine labels (result.1.branchFrom routine result.2.1 next) _

/-! ### Operations -/

theorem load_relabel (address : Expr) (typ : Typ) :
    (walk.relabel labels).load routine address typ =
      (walk.load routine address typ).relabel labels :=
  congrArg (·.push ⟨.var walk.nextIdent, typ⟩) (emit_relabel routine labels (walk.useIdents 1) _)

theorem invoke_relabel (callee : MethodRef) (arguments : List Value) (isVirtual : Bool) :
    (walk.relabel labels).invoke routine callee arguments isVirtual =
      (walk.invoke routine callee arguments isVirtual).relabel labels := by
  have emitted := emit_relabel routine labels (walk.useIdents 1)
    (.call walk.nextIdent (.ofName callee.returnType) (.function callee.fullName) arguments
      isVirtual walk.location)
  unfold invoke
  dsimp only
  split
  · exact emitted
  · exact congrArg (·.push ⟨.var walk.nextIdent, .ofName callee.returnType⟩) emitted

theorem construct_relabel (callee : MethodRef) (arguments : List Value) :
    (walk.relabel labels).construct routine callee arguments =
      (walk.construct routine callee arguments).relabel labels := by
  have used : ∀ walk : Walk,
      (walk.relabel labels).useIdents 1 = (walk.useIdents 1).relabel labels := fun _ => rfl
  unfold construct
  dsimp only
  rw [used, emit_relabel, used, emit_relabel]
  rfl

theorem finish_relabel (value : Option Expr) :
    (walk.relabel labels).finish routine value = (walk.finish routine value).relabel labels := by
  unfold finish currentNode
  cases value with
  | none =>
    dsimp only
    rw [openNode_relabel]
    rfl
  | some value =>
    dsimp only
    rw [emit_relabel, openNode_relabel]
    rfl

theorem raise_relabel (exception : Value) :
    (walk.relabel labels).raise routine exception =
      (walk.raise routine exception).relabel labels := by
  unfold raise currentNode
  dsimp only
  rw [emit_relabel, openNode_relabel]
  dsimp only
  rw [exceptionDestination_relabel]
  rfl

theorem enterFinally_relabel (position : Nat) (exit : FinallyExit) :
    (walk.relabel labels).enterFinally routine position exit =
      (walk.enterFinally routine position exit).relabel labels := by
  unfold enterFinally currentNode
  cases routine.regions.finallies[position]? with
  | none => rfl
  | some clause =>
    dsimp only
    rw [openNode_relabel]
    rfl

theorem leave_relabel (target : Offset) :
    (walk.relabel labels).leave routine target = (walk.leave routine target).relabel labels := by
  have emptied : { walk.relabel labels with stack := [] } =
    ({ walk with stack := [] } : Walk).relabel labels := rfl
  unfold leave
  dsimp only
  rw [emptied]
  have offset : (walk.relabel labels).offset = walk.offset := rfl
  rw [offset]
  cases routine.regions.finallyForLeave? walk.offset target with
  | none => exact jump_relabel ..
  | some position => exact enterFinally_relabel ..

theorem endFinally_relabel :
    (walk.relabel labels).endFinally routine = (walk.endFinally routine).relabel labels := by
  have context : (walk.relabel labels).finallyExit = walk.finallyExit := rfl
  unfold endFinally
  rw [context]
  cases walk.finallyExit with
  | none => rfl
  | some exit =>
    cases exit with
    | «continue» target =>
      exact jump_relabel routine labels { walk with stack := [], finallyExit := none } target
    | rethrow exception => exact raise_relabel routine labels { walk with finallyExit := none } _

/-- `perform` does not depend on `Labels`, and does not change them. -/
theorem perform_relabel (operation : Operation) :
    (walk.relabel labels).perform routine operation =
      (walk.perform routine operation).relabel labels := by
  cases operation with
  | proceed => exact fallThrough_relabel ..
  | load address typ =>
    rw [perform, load_relabel]
    exact fallThrough_relabel ..
  | store address typ value =>
    rw [perform, emit_relabel]
    exact fallThrough_relabel ..
  | invoke callee arguments isVirtual =>
    rw [perform, invoke_relabel]
    exact fallThrough_relabel ..
  | construct callee arguments =>
    rw [perform, construct_relabel]
    exact fallThrough_relabel ..
  | jump target => exact jump_relabel ..
  | branch condition target => exact branch_relabel ..
  | select value targets => exact select_relabel ..
  | finish value => exact finish_relabel ..
  | raise exception => exact raise_relabel ..
  | leave target => exact leave_relabel ..
  | endFinally => exact endFinally_relabel ..

theorem step_relabel (instruction : Instruction) :
    (walk.relabel labels).step routine instruction =
      ((walk.step routine instruction).1.relabel labels, (walk.step routine instruction).2) := by
  have stack : (walk.relabel labels).stack = walk.stack := rfl
  unfold step
  rw [stack]
  cases Operation.resolve routine instruction walk.stack with
  | error fault => rfl
  | ok result =>
    cases result with
    | none => rfl
    | some resolved =>
      have taken : { walk.relabel labels with stack := resolved.stack } =
        ({ walk with stack := resolved.stack } : Walk).relabel labels := rfl
      dsimp only
      rw [taken, perform_relabel]
      generalize ({ walk with stack := resolved.stack } : Walk).perform routine
        resolved.operation = performed
      have fault : (performed.relabel labels).fault = performed.fault := rfl
      rw [fault]
      cases performed.fault <;> rfl

theorem stepAt_relabel (offset : Offset) :
    (walk.relabel labels).stepAt routine offset =
      ((walk.stepAt routine offset).1.relabel labels, (walk.stepAt routine offset).2) := by
  unfold stepAt
  cases routine.instructionAt? offset with
  | none => rfl
  | some instruction =>
    have located : (walk.relabel labels).setLocation routine instruction =
      (walk.setLocation routine instruction).relabel labels := rfl
    dsimp only
    rw [located, step_relabel]
    generalize (walk.setLocation routine instruction).step routine instruction = stepped
    obtain ⟨after, verdict⟩ := stepped
    cases verdict <;> rfl

end Relabeled

/-- No instruction changes the labels of a walk: with its own labels put on it, the walk after the
instruction is the same. -/
theorem labels_stepAt (walk : Walk) (routine : Routine) (offset : Offset) :
    (walk.stepAt routine offset).1.labels = walk.labels := by
  have same := stepAt_relabel routine walk.labels walk offset
  rw [relabel_labels] at same
  rw [same, labels_relabel]

/-- A turn visits one offset, and that before anything else. -/
theorem visits_turn (walk : Walk) (routine : Routine) (limits : Limits) (overdue : Bool)
    (pending : Pending) (rest : List Pending) :
    ({ walk with worklist := rest }.turn routine limits overdue pending).1.visits =
      (walk.arrive pending rest).visits := by
  cases shared : (walk.arrive pending rest).reusableNode? routine with
  | some node =>
    rw [turn_of_shared shared]
    rfl
  | none =>
    cases refused : refusal? routine limits
        ((walk.arrive pending rest).visitsOf pending.offset) overdue with
    | some reason => rw [turn_of_refused shared refused]
    | none =>
      rw [turn_of_allowed shared refused]
      exact congrArg Labels.visits (labels_stepAt ..)

/-! ### Runs -/

/-- A walk whose graph is under another `Heading`. -/
def retitle (walk : Walk) (heading : Heading) : Walk :=
  { walk with procedure := walk.procedure.retitle heading }

theorem relabel_eq_retitle {walk : Walk} {visits : Std.ExtTreeMap Offset Nat}
    (same : walk.visits = visits) (heading : Heading) :
    walk.relabel ⟨heading, visits⟩ = walk.retitle heading := by
  subst same
  rfl

section Retitled

variable (routine : Routine) (limits : Limits) (heading : Heading)

theorem turn_retitle (walk : Walk) (rest : List Pending) (overdue : Bool) (pending : Pending) :
    { walk.retitle heading with worklist := rest }.turn routine limits overdue pending =
      (({ walk with worklist := rest }.turn routine limits overdue pending).1.retitle heading,
        ({ walk with worklist := rest }.turn routine limits overdue pending).2) := by
  cases shared : (walk.arrive pending rest).reusableNode? routine with
  | some node =>
    have sharedToo : ((walk.retitle heading).arrive pending rest).reusableNode? routine =
      some node := shared
    rw [turn_of_shared shared, turn_of_shared sharedToo]
    rfl
  | none =>
    have freshToo : ((walk.retitle heading).arrive pending rest).reusableNode? routine =
      none := shared
    cases refused : refusal? routine limits
        ((walk.arrive pending rest).visitsOf pending.offset) overdue with
    | some reason =>
      have refusedToo : refusal? routine limits
        (((walk.retitle heading).arrive pending rest).visitsOf pending.offset) overdue =
          some reason := refused
      rw [turn_of_refused shared refused, turn_of_refused freshToo refusedToo]
      rfl
    | none =>
      have allowedToo : refusal? routine limits
        (((walk.retitle heading).arrive pending rest).visitsOf pending.offset) overdue =
          none := refused
      have arrived : (walk.retitle heading).arrive pending rest =
        (walk.arrive pending rest).relabel ⟨heading, (walk.arrive pending rest).visits⟩ :=
        rfl
      have visits : ((walk.arrive pending rest).stepAt routine pending.offset).1.visits =
        (walk.arrive pending rest).visits :=
        congrArg Labels.visits (labels_stepAt (walk.arrive pending rest) routine pending.offset)
      rw [turn_of_allowed shared refused, turn_of_allowed freshToo allowedToo, arrived,
        stepAt_relabel, relabel_eq_retitle visits]

theorem drain_retitle (waiting : List Pending) (walk : Walk) :
    drain routine limits waiting (walk.retitle heading) =
      ((drain routine limits waiting walk).1.retitle heading,
        (drain routine limits waiting walk).2) := by
  induction waiting generalizing walk with
  | nil => rfl
  | cons pending rest inductionHypothesis =>
    rw [drain, drain, turn_retitle]
    generalize { walk with worklist := rest }.turn routine limits true pending = turned
    obtain ⟨after, outcome⟩ := turned
    cases outcome with
    | none => exact inductionHypothesis after
    | some outcome => rfl

/-- `Walk.run` does not depend on the `Heading` of its procedure. -/
theorem run_retitle (budget : Nat) (walk : Walk) :
    run routine limits budget (walk.retitle heading) =
      ((run routine limits budget walk).1.retitle heading,
        (run routine limits budget walk).2) := by
  induction budget generalizing walk with
  | zero => exact drain_retitle routine limits heading walk.worklist walk
  | succ budget inductionHypothesis =>
    have worklist : (walk.retitle heading).worklist = walk.worklist := rfl
    rw [run, run, worklist]
    cases walk.worklist with
    | nil => rfl
    | cons pending rest =>
      dsimp only
      rw [turn_retitle]
      generalize { walk with worklist := rest }.turn routine limits false pending = turned
      obtain ⟨after, outcome⟩ := turned
      cases outcome with
      | none => exact inductionHypothesis after
      | some outcome => rfl

end Retitled

end Walk

end BytecodeFlow

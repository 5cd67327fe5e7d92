/-
This file says what performing an operation writes and where paths go on after
it, in a routine of which nothing is protected. All commands that are written
have the source position that is in force (`Procedure.WritesAt`). At most one
path goes on, unless the operation is a fork: then the paths to its targets
come first, in order, and the one to the next instruction comes last
(`Continues`).
-/

import BytecodeFlow.Proofs.Walk.Unguarded

namespace BytecodeFlow

/-- The source position of a command. -/
def Command.location : Command → Location
  | .load _ _ _ location => location
  | .store _ _ _ location => location
  | .prune _ _ _ location => location
  | .call _ _ _ _ _ location => location

/-! ### Commands with a position -/

/-- Between two procedures, only commands with a given position are written. -/
def Procedure.WritesAt (location : Location) (before after : Procedure) : Prop :=
  ∀ index, ∃ commands, after.commandsOf index = before.commandsOf index ++ commands ∧
    ∀ command ∈ commands, command.location = location

namespace Procedure.WritesAt

variable {location : Location} {procedure before between after : Procedure}

theorem of_commandsOf (same : ∀ index, after.commandsOf index = before.commandsOf index) :
    WritesAt location before after := fun index =>
  ⟨[], by rw [same, List.append_nil], fun _ member => absurd member List.not_mem_nil⟩

theorem trans (former : WritesAt location before between)
    (latter : WritesAt location between after) : WritesAt location before after := by
  intro index
  obtain ⟨commands, written, located⟩ := former index
  obtain ⟨more, writtenLater, locatedLater⟩ := latter index
  refine ⟨commands ++ more, by rw [writtenLater, written, List.append_assoc], ?_⟩
  intro command member
  rcases List.mem_append.mp member with earlier | later
  · exact located command earlier
  · exact locatedLater command later

theorem append (procedure : Procedure) (index : NodeIndex) {command : Command}
    (located : command.location = location) :
    WritesAt location procedure (procedure.append index [command]) := by
  intro other
  by_cases same : other = index
  · subst same
    by_cases known : other < procedure.size
    · refine ⟨[command], commandsOf_append_self known _, fun only member => ?_⟩
      rw [List.mem_singleton.mp member]
      exact located
    · have beyond : (procedure.append other [command]).size ≤ other := by
        rw [size_append]
        exact Nat.le_of_not_lt known
      refine ⟨[], ?_, fun _ member => absurd member List.not_mem_nil⟩
      rw [commandsOf, commandsOf, node?_eq_none.mpr beyond,
        node?_eq_none.mpr (Nat.le_of_not_lt known)]
      rfl
  · exact ⟨[], by rw [commandsOf_append_of_ne _ _ same, List.append_nil],
      fun _ member => absurd member List.not_mem_nil⟩

theorem addWay (procedure : Procedure) (source : NodeIndex) {node : Node}
    (located : ∀ command ∈ node.commands, command.location = location) :
    WritesAt location procedure (procedure.addWay source node) := by
  intro index
  rcases Nat.lt_trichotomy index procedure.size with known | rfl | beyond
  · exact ⟨[], by rw [commandsOf_addWay node known, List.append_nil],
      fun _ member => absurd member List.not_mem_nil⟩
  · refine ⟨node.commands, ?_, located⟩
    rw [commandsOf_addWay_self, commandsOf, node?_eq_none.mpr (Nat.le_refl _)]
    rfl
  · refine ⟨[], ?_, fun _ member => absurd member List.not_mem_nil⟩
    have further : (procedure.addWay source node).size ≤ index := by
      rw [size_addWay]
      exact beyond
    rw [commandsOf, commandsOf, node?_eq_none.mpr further,
      node?_eq_none.mpr (Nat.le_of_lt beyond)]
    rfl

end Procedure.WritesAt

namespace Walk

/-! ### Walks that continue others -/

/-- A walk `WritesAt` the position that is in force, keeps this position, and queues paths to some
offsets. -/
structure Continues (before after : Walk) (offsets : List Offset) : Prop where
  location : after.location = before.location
  writes : before.procedure.WritesAt before.location after.procedure
  queued : ∃ pushed, after.worklist = pushed ++ before.worklist ∧
    pushed.map Pending.offset = offsets

namespace Continues

variable {routine : Routine} {before walk after : Walk} {offsets more : List Offset}

theorem of_fields (procedure : after.procedure = before.procedure)
    (location : after.location = before.location) (worklist : after.worklist = before.worklist) :
    Continues before after [] where
  location := location
  writes := .of_commandsOf fun _ => by rw [procedure]
  queued := ⟨[], worklist, rfl⟩

theorem trans (former : Continues before walk offsets) (latter : Continues walk after more) :
    Continues before after (more ++ offsets) where
  location := latter.location.trans former.location
  writes := by
    have later := latter.writes
    rw [former.location] at later
    exact former.writes.trans later
  queued := by
    obtain ⟨pushed, worklist, leads⟩ := former.queued
    obtain ⟨pushedLater, worklistLater, leadsLater⟩ := latter.queued
    exact ⟨pushedLater ++ pushed, by rw [worklistLater, worklist, List.append_assoc],
      by rw [List.map_append, leads, leadsLater]⟩

/-- Nothing is queued first. -/
theorem before_trans (former : Continues before walk []) (latter : Continues walk after offsets) :
    Continues before after offsets := by
  have both := former.trans latter
  rw [List.append_nil] at both
  exact both

theorem link (walk : Walk) (source target : NodeIndex) :
    Continues walk { walk with procedure := walk.procedure.link source target } [] where
  location := rfl
  writes := .of_commandsOf fun _ => Procedure.commandsOf_link ..
  queued := ⟨[], rfl, rfl⟩

theorem queue (walk : Walk) (pending : Pending) :
    Continues walk (walk.queue pending) [pending.offset] where
  location := rfl
  writes := .of_commandsOf fun _ => rfl
  queued := ⟨[pending], rfl, rfl⟩

theorem useIdents (walk : Walk) (count : Nat) : Continues walk (walk.useIdents count) [] :=
  of_fields rfl rfl rfl

theorem push (walk : Walk) (value : Value) : Continues walk (walk.push value) [] :=
  of_fields rfl rfl rfl

theorem branchFrom (walk : Walk) (source : NodeIndex) (target : Offset) :
    Continues walk (walk.branchFrom routine source target) [target] := queue walk _

/-- If there is no next instruction, nothing goes on. -/
theorem fallThrough (walk : Walk) :
    Continues walk (walk.fallThrough routine) (routine.nextOffset? walk.offset).toList := by
  unfold Walk.fallThrough
  cases following : routine.nextOffset? walk.offset with
  | none => exact of_fields rfl rfl rfl
  | some next =>
    have queued := queue walk (walk.fallThroughTo routine next)
    rw [(fallThroughTo_path routine walk next).1] at queued
    exact queued

section Unguarded

variable (unguarded : routine.Unguarded)

include unguarded

theorem openNode (walk : Walk) (kind : NodeKind) :
    Continues walk (walk.openNode routine kind).1 [] := by
  unfold Walk.openNode
  cases walk.current with
  | some node => exact of_fields rfl rfl rfl
  | none =>
    unfold addBlockNode attachHandler
    simp only [unguarded.raises]
    refine ⟨rfl, ?_, [], rfl, rfl⟩
    exact .addWay walk.procedure walk.previous fun _ member => absurd member List.not_mem_nil

theorem emit (walk : Walk) (command : Command) (located : command.location = walk.location) :
    Continues walk (walk.emit routine command) [] := by
  have opened := openNode unguarded walk .statement
  refine opened.before_trans ⟨rfl, ?_, [], rfl, rfl⟩
  exact .append _ _ (located.trans opened.location.symm)

theorem addPrune (walk : Walk) (source : NodeIndex) (condition : Expr) (branch : Bool)
    (kind : BranchKind) :
    Continues walk (walk.addPrune routine source condition branch kind).1 [] := by
  rw [addPrune_unguarded unguarded]
  refine ⟨rfl, .addWay walk.procedure source fun command member => ?_, [], rfl, rfl⟩
  rw [List.mem_singleton.mp member]
  rfl

theorem load (walk : Walk) (address : Expr) (typ : Typ) :
    Continues walk (walk.load routine address typ) [] :=
  ((useIdents walk 1).before_trans (emit unguarded (walk.useIdents 1)
    (.load walk.nextIdent address typ walk.location) rfl)).before_trans (push _ _)

theorem invoke (walk : Walk) (callee : MethodRef) (arguments : List Value) (isVirtual : Bool) :
    Continues walk (walk.invoke routine callee arguments isVirtual) [] := by
  have emitted := (useIdents walk 1).before_trans (emit unguarded (walk.useIdents 1)
    (.call walk.nextIdent (.ofName callee.returnType) (.function callee.fullName) arguments
      isVirtual walk.location) rfl)
  unfold Walk.invoke
  dsimp only
  split
  · exact emitted
  · exact emitted.before_trans (push _ _)

theorem construct (walk : Walk) (callee : MethodRef) (arguments : List Value) :
    Continues walk (walk.construct routine callee arguments) [] := by
  let allocated := (walk.useIdents 1).emit routine (.call walk.nextIdent
    (.ofName callee.declaringType) (.function allocateFunction)
    [⟨.sizeOf (Typ.ofName callee.declaringType).stripPointer, .void⟩] false walk.location)
  have first : Continues walk allocated [] :=
    (useIdents walk 1).before_trans (emit unguarded (walk.useIdents 1) _ rfl)
  have second := (useIdents allocated 1).before_trans (emit unguarded (allocated.useIdents 1)
    (.call allocated.nextIdent .void (.function callee.fullName)
      (⟨.var walk.nextIdent, .ofName callee.declaringType⟩ :: arguments) false
      allocated.location) rfl)
  exact (first.before_trans second).before_trans (push _ _)

theorem jump (walk : Walk) (target : Offset) :
    Continues walk (walk.jump routine target) [target] :=
  (openNode unguarded walk .join).before_trans (branchFrom _ _ target)

theorem finish (walk : Walk) (value : Option Expr) :
    Continues walk (walk.finish routine value) [] := by
  cases value with
  | none => exact (openNode unguarded walk .join).before_trans (link _ _ _)
  | some value =>
    exact ((emit unguarded walk _ rfl).before_trans (openNode unguarded _ .join)).before_trans
      (link _ _ _)

theorem raise (walk : Walk) (exception : Value) :
    Continues walk (walk.raise routine exception) [] := by
  unfold Walk.raise exceptionDestination
  simp only [unguarded.raises]
  exact ((emit unguarded walk _ rfl).before_trans (openNode unguarded _ .join)).before_trans
    (link _ _ _)

/-! ### Forks -/

theorem branch (walk : Walk) (condition : Expr) (target : Offset) :
    Continues walk (walk.branch routine condition target)
      ((routine.nextOffset? walk.offset).toList.flatMap fun next => [target, next]) := by
  unfold Walk.branch
  cases routine.nextOffset? walk.offset with
  | none => exact of_fields rfl rfl rfl
  | some next =>
    let opened := walk.currentNode routine
    let taken := opened.1.addPrune routine opened.2 condition true .conditional
    have forked := ((openNode unguarded walk .join).before_trans
      (addPrune unguarded opened.1 opened.2 condition true .conditional)).before_trans
      (addPrune unguarded taken.1 opened.2 (.not condition) false .conditional)
    exact forked.before_trans ((branchFrom _ _ next).trans (branchFrom _ _ target))

theorem addCases (value : Expr) (targets : List Offset) (position : Nat) (source : NodeIndex)
    (reversed : List (NodeIndex × Offset)) (walk : Walk) :
    Continues walk (Walk.addCases routine value position targets source reversed walk).1 [] ∧
      (Walk.addCases routine value position targets source reversed walk).2.2.map Prod.snd =
        targets.reverse ++ reversed.map Prod.snd := by
  induction targets generalizing position source reversed walk with
  | nil => exact ⟨of_fields rfl rfl rfl, rfl⟩
  | cons target rest inductionHypothesis =>
    let condition : Expr := .binary .equal value (.int position)
    let first := walk.addPrune routine source condition true .switch
    let second := first.1.addPrune routine source (.not condition) false .switch
    obtain ⟨continues, leads⟩ := inductionHypothesis (position + 1) second.2
      ((first.2, target) :: reversed) second.1
    refine ⟨((addPrune unguarded walk source condition true .switch).before_trans
      (addPrune unguarded first.1 source (.not condition) false .switch)).before_trans
      continues, ?_⟩
    rw [List.reverse_cons, List.append_assoc]
    exact leads

omit unguarded in
theorem branchFrom_each (routine : Routine) (cases : List (NodeIndex × Offset)) (walk : Walk) :
    Continues walk
      (cases.foldl (fun walk (taken, target) => walk.branchFrom routine taken target) walk)
      (cases.map Prod.snd).reverse := by
  induction cases generalizing walk with
  | nil => exact of_fields rfl rfl rfl
  | cons one rest inductionHypothesis =>
    rw [List.map_cons, List.reverse_cons]
    exact (branchFrom walk one.1 one.2).trans (inductionHypothesis _)

theorem select (walk : Walk) (value : Expr) (targets : List Offset) :
    Continues walk (walk.select routine value targets)
      ((routine.nextOffset? walk.offset).toList.flatMap fun next => targets ++ [next]) := by
  unfold Walk.select
  cases routine.nextOffset? walk.offset with
  | none => exact of_fields rfl rfl rfl
  | some next =>
    let opened := walk.currentNode routine
    let tests := Walk.addCases routine value 0 targets opened.2 [] opened.1
    obtain ⟨tested, leads⟩ := addCases unguarded value targets 0 opened.2 [] opened.1
    have onward := branchFrom_each routine tests.2.2 (tests.1.branchFrom routine tests.2.1 next)
    rw [leads, List.map_nil, List.append_nil, List.reverse_reverse] at onward
    rw [Option.toList_some, List.flatMap_singleton]
    exact ((openNode unguarded walk .join).before_trans tested).before_trans
      ((branchFrom _ _ next).trans onward)

end Unguarded

end Continues

/-! ### Operations -/

/-- The offsets at which paths go on after an operation, the first of which comes next. -/
inductive Onward (routine : Routine) (walk : Walk) : Operation → List Offset → Prop
  | nowhere (operation : Operation) : Onward routine walk operation []
  | once (operation : Operation) (offset : Offset) : Onward routine walk operation [offset]
  | branch (condition : Expr) (target next : Offset)
    (following : routine.nextOffset? walk.offset = some next) :
    Onward routine walk (.branch condition target) [target, next]
  | select (value : Expr) (targets : List Offset) (next : Offset)
    (following : routine.nextOffset? walk.offset = some next) :
    Onward routine walk (.select value targets) (targets ++ [next])

/-- An operation in a routine without protected regions writes at the position in force, and at
most a fork queues several paths. -/
theorem perform_continues {routine : Routine} (unguarded : routine.Unguarded) (walk : Walk)
    (operation : Operation) :
    ∃ offsets, Continues walk (walk.perform routine operation) offsets ∧
      Onward routine walk operation offsets := by
  have next : ∀ {other : Walk} (operation : Operation), Continues walk other [] →
      ∃ offsets, Continues walk (other.fallThrough routine) offsets ∧
        Onward routine walk operation offsets := by
    intro other operation continues
    refine ⟨_, continues.before_trans (.fallThrough other), ?_⟩
    cases routine.nextOffset? other.offset with
    | none => exact .nowhere operation
    | some next => exact .once operation next
  cases operation with
  | proceed => exact next _ (.of_fields rfl rfl rfl)
  | load address typ => exact next _ (.load unguarded walk address typ)
  | store address typ value => exact next _ (.emit unguarded walk _ rfl)
  | invoke callee arguments isVirtual =>
    exact next _ (.invoke unguarded walk callee arguments isVirtual)
  | construct callee arguments => exact next _ (.construct unguarded walk callee arguments)
  | jump target => exact ⟨_, .jump unguarded walk target, .once _ target⟩
  | branch condition target =>
    refine ⟨_, .branch unguarded walk condition target, ?_⟩
    cases following : routine.nextOffset? walk.offset with
    | none => exact .nowhere _
    | some next => exact .branch condition target next following
  | select value targets =>
    refine ⟨_, .select unguarded walk value targets, ?_⟩
    cases following : routine.nextOffset? walk.offset with
    | none => exact .nowhere _
    | some next =>
      rw [Option.toList_some, List.flatMap_singleton]
      exact .select value targets next following
  | finish value => exact ⟨_, .finish unguarded walk value, .nowhere _⟩
  | raise exception => exact ⟨_, .raise unguarded walk exception, .nowhere _⟩
  | leave target =>
    have stays : walk.perform routine (.leave target) =
        { walk with stack := [] }.jump routine target := by
      unfold perform leave
      simp only [unguarded.leaves]
    rw [stays]
    have cleared : Continues walk { walk with stack := [] } [] := .of_fields rfl rfl rfl
    exact ⟨_, cleared.before_trans (.jump unguarded _ target), .once _ target⟩
  | endFinally =>
    unfold perform endFinally
    cases walk.finallyExit with
    | none => exact ⟨_, .of_fields rfl rfl rfl, .nowhere _⟩
    | some exit =>
      cases exit with
      | «continue» target =>
        have cleared : Continues walk { walk with stack := [], finallyExit := none } [] :=
          .of_fields rfl rfl rfl
        exact ⟨_, cleared.before_trans (.jump unguarded _ target), .once _ target⟩
      | rethrow exception =>
        have cleared : Continues walk { walk with finallyExit := none } [] := .of_fields rfl rfl rfl
        exact ⟨_, cleared.before_trans (.raise unguarded _ _), .nowhere _⟩

end Walk

end BytecodeFlow

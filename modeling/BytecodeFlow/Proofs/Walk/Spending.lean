/-
This file shows that performing an operation keeps the books of temporaries
balanced. The path that is being followed holds temporaries that the node it
hangs on supplies (`Funded`); the values on the operand stack and the exception
that a finally throws again are built from them (`Stocked`). A block that has
no node yet has assigned nothing, so the node that is opened for it demands
what the path holds.
-/

import BytecodeFlow.Proofs.Walk.Performing
import BytecodeFlow.Proofs.Walk.Supply

namespace BytecodeFlow

/-- The temporaries in the operands of an operation. -/
def Operation.idents : Operation → List Ident
  | .proceed => []
  | .load address _ => address.idents
  | .store address _ value => address.idents ++ value.idents
  | .invoke _ arguments _ => identsOf arguments
  | .construct _ arguments => identsOf arguments
  | .jump _ => []
  | .branch condition _ => condition.idents
  | .select value _ => value.idents
  | .finish none => []
  | .finish (some value) => value.idents
  | .raise exception => exception.expr.idents
  | .leave _ => []
  | .endFinally => []

namespace Walk

/-- The temporaries that the current path carries along: those of its stack, and the
`contextIdents`. -/
def carried (walk : Walk) : List Ident := identsOf walk.stack ++ contextIdents walk.finallyExit

section Frame

variable (routine : Routine) (walk : Walk)

theorem carried_openNode (kind : NodeKind) :
    (walk.openNode routine kind).1.carried = walk.carried := by
  unfold openNode
  split
  · rfl
  · unfold addBlockNode
    dsimp only
    obtain ⟨_, _, _, _, _, same⟩ := attachHandler_rest routine { walk with procedure := _ } _
    rw [same]
    rfl

theorem carried_addPrune (source : NodeIndex) (condition : Expr) (branch : Bool)
    (kind : BranchKind) :
    (walk.addPrune routine source condition branch kind).1.carried = walk.carried := by
  unfold addPrune
  dsimp only
  obtain ⟨_, _, _, _, _, same⟩ := attachHandler_rest routine { walk with procedure := _ } _
  rw [same]
  rfl

end Frame

/-! ### What a path can spend -/

/-- The books are `Balanced` when the `owner` of the path supplies what the path holds. If the block
has no node yet and can be shared, the path holds no more than the operand stack at the start of the
block. -/
structure Funded (routine : Routine) (held : List Ident) (walk : Walk) : Prop where
  balanced : Balanced routine [(walk.owner, held)] [] walk
  opening : walk.current = none → routine.regions.isHandlerOffset walk.blockStart = false →
    held ⊆ identsOf walk.blockStack

variable {routine : Routine} {supplies bounds : List (NodeIndex × List Ident)} {walk : Walk}
  {held : List Ident}

namespace Balanced

/-- The node of a block demands what the path into the block holds. -/
theorem addBlockNode (balanced : Balanced routine [(walk.previous, held)] [] walk)
    (covers : routine.regions.isHandlerOffset walk.blockStart = false →
      held ⊆ identsOf walk.blockStack) (kind : NodeKind) :
    Balanced routine [(walk.procedure.size, held)] [] (walk.addBlockNode routine kind) := by
  let node := { Node.empty kind walk.location with
    blockEnd := routine.regions.blockEnd? walk.blockStart }
  let linked : Walk := { walk with
    procedure := (walk.procedure.addNode node).link walk.previous walk.procedure.size }
  have added := balanced.addNode node held rfl rfl trivial
  rw [show held ++ assignedBy node.commands = held from List.append_nil held] at added
  have reached : Balanced routine [(walk.procedure.size, held), (walk.previous, held)]
      [(walk.procedure.size, held)] linked :=
    added.link (List.mem_cons_of_mem _ List.mem_cons_self) List.mem_cons_self (List.Subset.refl _)
  have attached := reached.attachHandler walk.procedure.size
  obtain ⟨_, _, _, _, _, rest⟩ := attachHandler_rest routine linked walk.procedure.size
  have recorded := attached.record_opened List.mem_cons_self
    (linked.attachHandler routine walk.procedure.size).blockStart
    (linked.attachHandler routine walk.procedure.size).blockStack
    (by rw [rest]; exact covers)
  exact (recorded.weaken (List.cons_subset_cons _ (List.nil_subset _))
    (List.nil_subset _)).of_fields rfl rfl rfl rfl

/-- A new way out of a node supplies what the node supplies. -/
theorem addPrune (balanced : Balanced routine supplies bounds walk) {source : NodeIndex}
    (supplied : (source, held) ∈ supplies) (condition : Expr) (reads : condition.idents ⊆ held)
    (branch : Bool) (kind : BranchKind) :
    Balanced routine
      (((walk.addPrune routine source condition branch kind).2, held) :: supplies) bounds
      (walk.addPrune routine source condition branch kind).1 := by
  let node := pruneNode condition branch kind walk.location
    (routine.regions.blockEnd? walk.offset)
  have added := balanced.addNode node held rfl rfl ⟨reads, trivial⟩
  rw [show held ++ assignedBy node.commands = held from List.append_nil held] at added
  have linked := (added.link (List.mem_cons_of_mem _ supplied) List.mem_cons_self
    (List.Subset.refl _)).weaken (List.Subset.refl _) (List.subset_cons_self _ _)
  exact linked.attachHandler walk.procedure.size

/-- A path may go on from a node that supplies what it has `carried` along. -/
theorem branchFrom (balanced : Balanced routine supplies bounds walk) {source : NodeIndex}
    (supplied : (source, held) ∈ supplies) (carries : walk.carried ⊆ held) (target : Offset) :
    Balanced routine supplies bounds (walk.branchFrom routine source target) := by
  unfold Walk.branchFrom
  split
  · exact balanced.queue (walk.snapshot target source .newBlock) supplied carries
      (.of_not_deferred nofun)
  · exact balanced.queue (walk.snapshot target source (.append source)) supplied carries
      (.of_not_deferred nofun)

end Balanced

namespace Funded

theorem of_current {node : NodeIndex} (balanced : Balanced routine [(node, held)] [] walk)
    (current : walk.current = some node) : Funded routine held walk where
  balanced := by
    rw [owner, current]
    exact balanced
  opening closed := by
    rw [current] at closed
    cases closed

theorem openNode (funded : Funded routine held walk) (kind : NodeKind) :
    Balanced routine [((walk.openNode routine kind).2, held)] []
      (walk.openNode routine kind).1 := by
  have balanced := funded.balanced
  unfold Walk.openNode
  cases current? : walk.current with
  | some node =>
    rw [owner, current?] at balanced
    exact balanced
  | none =>
    rw [owner, current?] at balanced
    exact balanced.addBlockNode (funded.opening current?) kind

theorem currentNode (funded : Funded routine held walk) :
    Balanced routine [((walk.currentNode routine).2, held)] [] (walk.currentNode routine).1 :=
  funded.openNode .join

/-- A command may be emitted if the path holds what it reads. -/
theorem emit (funded : Funded routine held walk) (command : Command)
    (reads : command.reads ⊆ held) :
    Funded routine (held ++ command.assigns) (walk.emit routine command) ∧
      (walk.emit routine command).current ≠ none := by
  have current := current_openNode routine walk .statement
  have appended := ((funded.openNode .statement).append List.mem_cons_self reads).weaken
    (List.cons_subset_cons _ (List.nil_subset _)) (List.Subset.refl _)
  refine ⟨of_current appended current, ?_⟩
  show (walk.openNode routine .statement).1.current ≠ none
  rw [current]
  exact Option.some_ne_none _

/-! ### Ways on -/

theorem jump (funded : Funded routine held walk) (carries : walk.carried ⊆ held)
    (target : Offset) : Balanced routine [] [] (walk.jump routine target) := by
  have going := funded.currentNode.branchFrom List.mem_cons_self
    (by rw [Walk.currentNode, carried_openNode]; exact carries) target
  exact going.weaken (List.nil_subset _) (List.Subset.refl _)

theorem fail (funded : Funded routine held walk) (fault : Fault) :
    Balanced routine [] [] (walk.fail fault) :=
  (funded.balanced.weaken (List.nil_subset _) (List.Subset.refl _)).of_fields rfl rfl rfl rfl

theorem branch (funded : Funded routine held walk) (carries : walk.carried ⊆ held)
    {condition : Expr} (reads : condition.idents ⊆ held) (target : Offset) :
    Balanced routine [] [] (walk.branch routine condition target) := by
  unfold Walk.branch
  split
  · rename_i next following
    have taken := funded.currentNode.addPrune List.mem_cons_self condition reads true .conditional
    have both := taken.addPrune (List.mem_cons_of_mem _ List.mem_cons_self) (.not condition) reads
      false .conditional
    have first := both.branchFrom List.mem_cons_self (by
      rw [carried_addPrune, carried_addPrune, Walk.currentNode, carried_openNode]
      exact carries) next
    have second := first.branchFrom (List.mem_cons_of_mem _ List.mem_cons_self) (by
      show Walk.carried (Prod.fst (Walk.addPrune ..)) ⊆ held
      rw [carried_addPrune, carried_addPrune, Walk.currentNode, carried_openNode]
      exact carries) target
    exact second.weaken (List.nil_subset _) (List.Subset.refl _)
  · exact funded.fail _

end Funded

/-- Each target of a switch gets a node that supplies what the path holds, and one more is left for
the next instruction. -/
theorem Balanced.addCases {value : Expr} (reads : value.idents ⊆ held) (targets : List Offset)
    (position : Nat) {source : NodeIndex} (reversed : List (NodeIndex × Offset))
    (balanced : Balanced routine
      ((source, held) :: reversed.map fun one => (one.1, held)) [] walk) :
    let (after, last, cases) := Walk.addCases routine value position targets source reversed walk
    Balanced routine ((last, held) :: cases.map fun one => (one.1, held)) [] after ∧
      after.carried = walk.carried := by
  induction targets generalizing position source reversed walk with
  | nil => exact ⟨balanced, rfl⟩
  | cons target rest inductionHypothesis =>
    let condition : Expr := .binary .equal value (.int position)
    have tested : condition.idents ⊆ held := List.append_subset.mpr ⟨reads, List.nil_subset _⟩
    have taken := balanced.addPrune List.mem_cons_self condition tested true .switch
    have both := taken.addPrune (List.mem_cons_of_mem _ List.mem_cons_self) (.not condition) tested
      false .switch
    have kept := both.weaken (List.cons_subset_cons _ (List.cons_subset_cons _
      (List.subset_cons_self _ _))) (List.Subset.refl _)
    obtain ⟨added, same⟩ := inductionHypothesis (position + 1) ((_, target) :: reversed) kept
    exact ⟨added, same.trans ((carried_addPrune ..).trans (carried_addPrune ..))⟩

theorem Balanced.branchFrom_each {cases : List (NodeIndex × Offset)}
    (balanced : Balanced routine supplies bounds walk)
    (supplied : ∀ one ∈ cases, (one.1, held) ∈ supplies) (carries : walk.carried ⊆ held) :
    Balanced routine supplies bounds
      (cases.foldl (fun walk (taken, target) => walk.branchFrom routine taken target) walk) := by
  induction cases generalizing walk with
  | nil => exact balanced
  | cons one rest inductionHypothesis =>
    obtain ⟨first, others⟩ := List.forall_mem_cons.mp supplied
    exact inductionHypothesis (balanced.branchFrom first carries one.2) others carries

namespace Funded

theorem select (funded : Funded routine held walk) (carries : walk.carried ⊆ held) {value : Expr}
    (reads : value.idents ⊆ held) (targets : List Offset) :
    Balanced routine [] [] (walk.select routine value targets) := by
  unfold Walk.select
  split
  · rename_i next following
    obtain ⟨added, same⟩ := Balanced.addCases reads targets 0 [] funded.currentNode
    have kept := carries
    rw [← same.trans (carried_openNode routine walk .join)] at kept
    have each := (added.branchFrom List.mem_cons_self kept next).branchFrom_each
      (fun one member => List.mem_cons_of_mem _ (List.mem_map_of_mem member)) kept
    exact each.weaken (List.nil_subset _) (List.Subset.refl _)
  · exact funded.fail _

/-! ### Leaving -/

theorem finish (funded : Funded routine held walk) {value : Option Expr}
    (reads : (Operation.finish value).idents ⊆ held) :
    Balanced routine [] [] (walk.finish routine value) := by
  cases value with
  | some value =>
    obtain ⟨stored, -⟩ := funded.emit (.store .returnSlot value
      (.ofName routine.method.returnType) walk.location) reads
    have linked := stored.currentNode.bound_exit.link List.mem_cons_self List.mem_cons_self
      (List.nil_subset _)
    exact linked.weaken (List.nil_subset _) (List.nil_subset _)
  | none =>
    have linked := funded.currentNode.bound_exit.link List.mem_cons_self List.mem_cons_self
      (List.nil_subset _)
    exact linked.weaken (List.nil_subset _) (List.nil_subset _)

theorem raise (funded : Funded routine held walk) {exception : Value}
    (reads : exception.expr.idents ⊆ held) :
    Balanced routine [] [] (walk.raise routine exception) := by
  obtain ⟨stored, -⟩ := funded.emit (.store .returnSlot (.thrown exception.expr) exception.typ
    walk.location) reads
  have destined := stored.currentNode.exceptionDestination
  exact (destined.link List.mem_cons_self List.mem_cons_self (List.nil_subset _)).weaken
    (List.nil_subset _) (List.nil_subset _)

theorem enterFinally (funded : Funded routine held walk) (position : Nat) (target : Offset) :
    Balanced routine [] [] (walk.enterFinally routine position (.continue target)) := by
  unfold Walk.enterFinally
  split
  · rename_i clause found
    have queued := funded.currentNode.queue {
      (walk.currentNode routine).1.snapshot clause.handler.start (walk.currentNode routine).2
        .newBlock with
      stack := []
      finallyExit := some (.continue target) } List.mem_cons_self (List.nil_subset _)
      (.of_not_deferred nofun)
    exact queued.weaken (List.nil_subset _) (List.Subset.refl _)
  · exact funded.fail _

theorem leave (funded : Funded routine held walk) (carries : walk.carried ⊆ held)
    (target : Offset) : Balanced routine [] [] (walk.leave routine target) := by
  have cleared : Funded routine held { walk with stack := [] } :=
    ⟨funded.balanced.of_fields rfl rfl rfl rfl, funded.opening⟩
  unfold Walk.leave
  dsimp only
  split
  · exact cleared.enterFinally _ target
  · exact cleared.jump (List.Subset.trans (List.subset_append_right _ _) carries) target

theorem endFinally (funded : Funded routine held walk) (carries : walk.carried ⊆ held) :
    Balanced routine [] [] (walk.endFinally routine) := by
  unfold Walk.endFinally
  split
  · rename_i target entered
    have cleared : Funded routine held { walk with stack := [], finallyExit := none } :=
      ⟨funded.balanced.of_fields rfl rfl rfl rfl, funded.opening⟩
    exact cleared.jump (List.nil_subset _) target
  · rename_i exception entered
    -- The path gives up its context here, but the node still supplies the exception.
    have cleared : Funded routine held { walk with finallyExit := none } :=
      ⟨funded.balanced.of_fields rfl rfl rfl rfl, funded.opening⟩
    have context : contextIdents walk.finallyExit = [exception] := by
      rw [entered]
      rfl
    have reads : [exception] ⊆ held := by
      rw [← context]
      exact List.Subset.trans (List.subset_append_right _ _) carries
    exact cleared.raise reads
  · exact funded.fail _

end Funded

/-! ### Operations -/

/-- What the path that is being followed has `carried` along is only what it holds. Before its block
has a node, this is what the block was started with. -/
structure Stocked (routine : Routine) (held : List Ident) (walk : Walk) : Prop where
  balanced : Balanced routine [(walk.owner, held)] [] walk
  carries : walk.carried ⊆ held
  whole : walk.current = none →
    held = identsOf walk.blockStack ++ contextIdents walk.finallyExit
  inside : walk.current = none → contextIdents walk.finallyExit ≠ [] →
    routine.regions.isHandlerOffset walk.blockStart = true

namespace Stocked

theorem funded (stocked : Stocked routine held walk) : Funded routine held walk where
  balanced := stocked.balanced
  opening closed outside := by
    -- Where blocks are shared no exception waits to be thrown again.
    have none : contextIdents walk.finallyExit = [] := by
      by_contra entered
      rw [stocked.inside closed entered] at outside
      cases outside
    rw [stocked.whole closed, none, List.append_nil]
    exact List.Subset.refl _

theorem useIdents (stocked : Stocked routine held walk) (count : Nat) :
    Stocked routine held (walk.useIdents count) :=
  ⟨stocked.balanced.of_fields rfl rfl rfl rfl, stocked.carries, stocked.whole, stocked.inside⟩

theorem push (stocked : Stocked routine held walk) {value : Value}
    (known : value.expr.idents ⊆ held) : Stocked routine held (walk.push value) := by
  refine ⟨stocked.balanced.of_fields rfl rfl rfl rfl, ?_, stocked.whole, stocked.inside⟩
  have pushed : (walk.push value).carried = value.expr.idents ++ walk.carried :=
    List.append_assoc ..
  rw [pushed]
  exact List.append_subset.mpr ⟨known, stocked.carries⟩

/-- What a command assigns is held after it. -/
theorem emit (stocked : Stocked routine held walk) (command : Command)
    (reads : command.reads ⊆ held) :
    Stocked routine (held ++ command.assigns) (walk.emit routine command) := by
  obtain ⟨funded, current⟩ := stocked.funded.emit command reads
  refine ⟨funded.balanced, ?_, fun closed => absurd closed current,
    fun closed => absurd closed current⟩
  have same : (walk.emit routine command).carried = walk.carried := carried_openNode ..
  rw [same]
  exact List.subset_append_of_subset_left _ stocked.carries

theorem load (stocked : Stocked routine held walk) {address : Expr}
    (reads : address.idents ⊆ held) (typ : Typ) :
    Stocked routine (held ++ [walk.nextIdent]) (walk.load routine address typ) :=
  ((stocked.useIdents 1).emit (.load walk.nextIdent address typ walk.location) reads).push
    (List.subset_append_right _ _)

theorem invoke (stocked : Stocked routine held walk) (callee : MethodRef)
    {arguments : List Value} (reads : identsOf arguments ⊆ held) (isVirtual : Bool) :
    Stocked routine (held ++ [walk.nextIdent])
      (walk.invoke routine callee arguments isVirtual) := by
  have called := (stocked.useIdents 1).emit (.call walk.nextIdent (.ofName callee.returnType)
    (.function callee.fullName) arguments isVirtual walk.location) reads
  unfold Walk.invoke
  dsimp only
  split
  · exact called
  · exact called.push (List.subset_append_right _ _)

theorem construct (stocked : Stocked routine held walk) (callee : MethodRef)
    {arguments : List Value} (reads : identsOf arguments ⊆ held) :
    ∃ more, Stocked routine more (walk.construct routine callee arguments) := by
  let allocation : Command := .call walk.nextIdent (.ofName callee.declaringType)
    (.function allocateFunction)
    [⟨.sizeOf (Typ.ofName callee.declaringType).stripPointer, .void⟩] false walk.location
  have allocated := (stocked.useIdents 1).emit allocation (List.nil_subset _)
  have object : [walk.nextIdent] ⊆ held ++ [walk.nextIdent] := List.subset_append_right _ _
  have passed : [walk.nextIdent] ++ identsOf arguments ⊆ held ++ [walk.nextIdent] :=
    List.append_subset.mpr ⟨object, List.subset_append_of_subset_left _ reads⟩
  let after := (walk.useIdents 1).emit routine allocation
  have called := (allocated.useIdents 1).emit (.call after.nextIdent .void
    (.function callee.fullName) (⟨.var walk.nextIdent, .ofName callee.declaringType⟩ :: arguments)
    false after.location) passed
  exact ⟨_, called.push (List.subset_append_of_subset_left _ object)⟩

theorem fallThrough (stocked : Stocked routine held walk) :
    Balanced routine [] [] (walk.fallThrough routine) := by
  unfold Walk.fallThrough
  split
  · rename_i next following
    have queued : Balanced routine [(walk.owner, held)] []
        (walk.queue (walk.fallThroughTo routine next)) := by
      unfold fallThroughTo
      split
      · exact stocked.balanced.queue _ List.mem_cons_self stocked.carries
          (.of_not_deferred fun _ _ impossible => by cases impossible)
      · have balanced := stocked.balanced
        split
        · rename_i node current
          rw [owner, current] at balanced ⊢
          exact balanced.queue _ List.mem_cons_self stocked.carries
            (.of_not_deferred fun _ _ impossible => by cases impossible)
        · -- The block goes on without a node, with all that it was started with.
          rename_i current
          have whole := stocked.whole current
          rw [owner, current] at balanced ⊢
          refine balanced.queue _ List.mem_cons_self ?_ ⟨?_, ?_⟩
          · rw [whole]
            exact List.Subset.refl _
          · have carries := List.Subset.trans (List.subset_append_left _ _) stocked.carries
            rw [whole] at carries
            exact carries
          · rintro start stack ⟨⟩
            exact stocked.inside current
    exact queued.weaken (List.nil_subset _) (List.Subset.refl _)
  · exact stocked.funded.fail _

/-- After `perform` the books are `Balanced`, if the path holds what the operation reads. -/
theorem perform (stocked : Stocked routine held walk) {operation : Operation}
    (reads : operation.idents ⊆ held) :
    Balanced routine [] [] (walk.perform routine operation) := by
  have funded := stocked.funded
  have carries := stocked.carries
  cases operation with
  | proceed => exact stocked.fallThrough
  | load address typ => exact (stocked.load reads typ).fallThrough
  | store address typ value =>
    exact (stocked.emit (.store address value typ walk.location) reads).fallThrough
  | invoke callee arguments isVirtual => exact (stocked.invoke callee reads isVirtual).fallThrough
  | construct callee arguments =>
    obtain ⟨more, constructed⟩ := stocked.construct callee reads
    exact constructed.fallThrough
  | jump target => exact funded.jump carries target
  | branch condition target => exact funded.branch carries reads target
  | select value targets => exact funded.select carries reads targets
  | finish value => exact funded.finish reads
  | raise exception => exact funded.raise reads
  | leave target => exact funded.leave carries target
  | endFinally => exact funded.endFinally carries

end Stocked

end Walk

end BytecodeFlow

/-
This file shows that lowering a method uses no index that is out of range,
whatever its code and its exception table look like. `Procedure.modifyNode`
keeps in mind when it is asked to change a node that is not there, and nothing
of the kind happens in any run; and of the faults that a walk can find, those
about the position of a handler or of a finally (`Fault.OutOfTable`) never
occur.
-/

import BytecodeFlow.Proofs.Graph.Incoming
import BytecodeFlow.Proofs.Lowering.IdenticalTops
import BytecodeFlow.Proofs.Walk.InRange

namespace BytecodeFlow

/-! ### Faults of operands -/

/-- A fault about a handler or a finally that the exception table does not have. -/
def Fault.OutOfTable : Fault → Prop
  | .indexOutOfRange .handler _ _ => True
  | .indexOutOfRange .finally _ _ => True
  | _ => False

/-- A computation finds no fault that is `OutOfTable`. -/
def Spares {α : Type} : Except Fault α → Prop
  | .ok _ => True
  | .error fault => ¬ fault.OutOfTable

namespace Spares

variable {α β : Type} {first : Except Fault α}

theorem bind (spares : Spares first) {next : α → Except Fault β}
    (onward : ∀ value, Spares (next value)) : Spares (first >>= next) := by
  cases first with
  | error fault => exact spares
  | ok value => exact onward value

theorem map (spares : Spares first) (function : α → β) : Spares (function <$> first) := by
  cases first with
  | error fault => exact spares
  | ok value => trivial

end Spares

namespace Operation

variable (routine : Routine) (instruction : Instruction) (offset : Offset) (stack : List Value)

theorem missing_spares {α : Type} (expected : OperandRole) :
    Spares (missing instruction expected : Except Fault α) := fun impossible => impossible

theorem pop_spares : Spares (pop offset stack) := by
  cases stack with
  | nil => exact fun impossible => impossible
  | cons top rest => trivial

theorem popMany_spares (count : Nat) : Spares (popMany offset count stack) := by
  unfold popMany
  split
  · exact fun impossible => impossible
  · trivial

theorem integer_spares : Spares (integer instruction) := by
  unfold integer
  split
  · trivial
  · exact missing_spares instruction _

theorem index_spares : Spares (index instruction) := by
  refine (integer_spares instruction).bind fun value => ?_
  split
  · exact missing_spares instruction _
  · trivial

theorem indexOr_spares (position : Option Nat) : Spares (indexOr instruction position) := by
  cases position with
  | some position => trivial
  | none => exact index_spares instruction

theorem float_spares : Spares (float instruction) := by
  unfold float
  split
  · trivial
  · split
    · trivial
    · exact missing_spares instruction _
  · exact missing_spares instruction _

theorem string_spares : Spares (string instruction) := by
  unfold string
  split
  · trivial
  · exact missing_spares instruction _

theorem target_spares : Spares (target instruction) := by
  unfold target
  split
  · trivial
  · exact missing_spares instruction _

theorem targets_spares : Spares (targets instruction) := by
  unfold targets
  split
  · trivial
  · exact missing_spares instruction _

theorem method_spares : Spares (method instruction) := by
  unfold method
  split
  · trivial
  · exact missing_spares instruction _

theorem field_spares : Spares (field instruction) := by
  unfold field
  split
  · trivial
  · exact missing_spares instruction _

theorem parameter_spares (position : Nat) : Spares (routine.parameter offset position) := by
  unfold Routine.parameter
  split
  · trivial
  · exact fun impossible => impossible

theorem argument_spares (position : Nat) : Spares (routine.argument offset position) := by
  unfold Routine.argument
  split
  · split
    · trivial
    · exact parameter_spares routine offset _
  · exact parameter_spares routine offset _

theorem localVariable_spares (position : Nat) :
    Spares (routine.localVariable offset position) := by
  unfold Routine.localVariable
  split
  · trivial
  · exact fun impossible => impossible

theorem combining_spares (combine : Value → Value → Value) :
    Spares (combining offset stack combine) :=
  (pop_spares offset stack).bind fun _ => (pop_spares offset _).bind fun _ => trivial

theorem applying_spares (operator : UnaryOperator) : Spares (applying offset stack operator) :=
  (pop_spares offset stack).bind fun _ => trivial

theorem storing_spares (place : Expr × Typ) : Spares (storing offset stack place) :=
  (pop_spares offset stack).bind fun _ => trivial

theorem testing_spares (expected : Bool) : Spares (testing instruction stack expected) :=
  (pop_spares _ stack).bind fun _ => (target_spares instruction).bind fun _ => trivial

theorem comparing_spares (operator : BinaryOperator) :
    Spares (comparing instruction stack operator) :=
  (pop_spares _ stack).bind fun _ => (pop_spares _ _).bind fun _ =>
    (target_spares instruction).bind fun _ => trivial

theorem calling_spares (isVirtual : Bool) : Spares (calling instruction stack isVirtual) :=
  (method_spares instruction).bind fun _ => (popMany_spares _ stack _).bind fun _ => trivial

/-- `Operation.resolve` has nothing to do with the exception table. -/
theorem resolve_spares : Spares (resolve routine instruction stack) := by
  unfold resolve
  dsimp only
  cases instruction.opcode with
  | nop | ldnull | endfinally | unknown => trivial
  | ldarg position =>
    exact (indexOr_spares instruction position).bind fun index =>
      (argument_spares routine _ index).bind fun _ => trivial
  | starg =>
    exact (index_spares instruction).bind fun index =>
      (argument_spares routine _ index).bind fun place => (storing_spares _ stack place).map _
  | ldloc position =>
    exact (indexOr_spares instruction position).bind fun index =>
      (localVariable_spares routine _ index).bind fun _ => trivial
  | stloc position =>
    exact (indexOr_spares instruction position).bind fun index =>
      (localVariable_spares routine _ index).bind fun place => (storing_spares _ stack place).map _
  | ldcI4 value =>
    cases value with
    | some value => trivial
    | none => exact (integer_spares instruction).bind fun _ => trivial
  | ldcI8 => exact (integer_spares instruction).bind fun _ => trivial
  | ldcR4 | ldcR8 => exact (float_spares instruction).bind fun _ => trivial
  | ldstr => exact (string_spares instruction).bind fun _ => trivial
  | dup | pop | throw => exact (pop_spares _ stack).bind fun _ => trivial
  | binary operator | compare operator => exact (combining_spares _ stack _).map _
  | neg | not => exact (applying_spares _ stack _).map _
  | br | leave => exact (target_spares instruction).bind fun _ => trivial
  | brtrue | brfalse => exact (testing_spares instruction stack _).map _
  | branch operator => exact (comparing_spares instruction stack operator).map _
  | switch =>
    exact (targets_spares instruction).bind fun _ => (pop_spares _ stack).bind fun _ => trivial
  | call | callvirt => exact (calling_spares instruction stack _).map _
  | newobj =>
    exact (method_spares instruction).bind fun _ => (popMany_spares _ stack _).bind fun _ => trivial
  | ldfld =>
    exact (field_spares instruction).bind fun _ => (pop_spares _ stack).bind fun _ => trivial
  | ldsfld => exact (field_spares instruction).bind fun _ => trivial
  | stfld =>
    exact (field_spares instruction).bind fun _ => (pop_spares _ stack).bind fun _ =>
      (pop_spares _ _).bind fun _ => trivial
  | stsfld =>
    exact (field_spares instruction).bind fun _ => (pop_spares _ stack).bind fun _ => trivial
  | ret =>
    by_cases void : routine.method.returnType = voidName
    · simp only [if_pos void]
      trivial
    · simp only [if_neg void]
      exact (pop_spares _ stack).bind fun _ => trivial

end Operation

/-! ### Turns -/

/-- An outcome is not given up for a fault that is `OutOfTable`. -/
def Outcome.SparesTable (outcome : Outcome) : Prop :=
  ∀ fault remaining, outcome = .abandoned (.internal fault) remaining → ¬ fault.OutOfTable

theorem Outcome.sparesTable_internal {fault : Fault} (spared : ¬ fault.OutOfTable)
    (remaining : Nat) : (Outcome.abandoned (.internal fault) remaining).SparesTable := by
  rintro _ _ ⟨⟩
  exact spared

namespace Walk

variable (routine : Routine) (limits : Limits) {walk : Walk}

theorem InRange.spared (inRange : walk.InRange) {fault : Fault} (found : walk.fault = some fault) :
    ¬ fault.OutOfTable := by
  intro beyond
  cases fault with
  | indexOutOfRange indexed position offset => exact inRange.fault indexed position offset found
  | stackUnderflow | missingOperand | offsetNotFound | unexpectedEndfinally => exact beyond

theorem step_advanced (inRange : walk.InRange) (instruction : Instruction) :
    Advanced walk (walk.step routine instruction).1 ∧
      ∀ fault, (walk.step routine instruction).2 = .failed fault → ¬ fault.OutOfTable := by
  have spares := Operation.resolve_spares routine instruction walk.stack
  unfold step
  cases resolves : Operation.resolve routine instruction walk.stack with
  | error fault =>
    rw [resolves] at spares
    refine ⟨inRange.grown.advanced, ?_⟩
    rintro _ ⟨⟩
    exact spares
  | ok result =>
    cases result with
    | none => exact ⟨inRange.grown.advanced, fun _ impossible => by cases impossible⟩
    | some resolved =>
      have popped : Grown walk { walk with stack := resolved.stack } :=
        inRange.adjust resolved.stack walk.nextStamp walk.finallyExit walk.location
      have whole := popped.advanced.trans
        (perform_advanced routine popped.inRange resolved.operation)
      dsimp only
      generalize Walk.perform { walk with stack := resolved.stack } routine resolved.operation =
        after at whole ⊢
      cases fault? : after.fault with
      | some fault =>
        refine ⟨whole, ?_⟩
        rintro _ ⟨⟩
        exact whole.inRange.spared fault?
      | none => exact ⟨whole, fun _ impossible => by cases impossible⟩

theorem stepAt_advanced (inRange : walk.InRange) (offset : Offset) :
    Advanced walk (walk.stepAt routine offset).1 ∧
      ∀ outcome, (walk.stepAt routine offset).2 = some outcome → outcome.SparesTable := by
  unfold stepAt
  cases found : routine.instructionAt? offset with
  | none =>
    refine ⟨inRange.grown.advanced, ?_⟩
    rintro _ ⟨⟩
    have spared : ¬ (Fault.offsetNotFound offset).OutOfTable := fun impossible => impossible
    exact Outcome.sparesTable_internal spared _
  | some instruction =>
    have located : Grown walk (walk.setLocation routine instruction) :=
      inRange.adjust walk.stack walk.nextStamp walk.finallyExit _
    obtain ⟨advanced, spared⟩ := step_advanced routine located.inRange instruction
    have whole := located.advanced.trans advanced
    dsimp only
    generalize (walk.setLocation routine instruction).step routine instruction = result at *
    obtain ⟨after, verdict⟩ := result
    cases verdict with
    | done => exact ⟨whole, fun _ impossible => by cases impossible⟩
    | unknown =>
      refine ⟨whole, ?_⟩
      rintro _ ⟨⟩ _ _ ⟨⟩
    | failed fault =>
      refine ⟨whole, ?_⟩
      rintro _ ⟨⟩
      exact Outcome.sparesTable_internal (spared fault rfl) _

/-- A path that waits in a walk that is `InRange` leaves it so when it is taken up. -/
theorem InRange.takeUp (inRange : walk.InRange) {pending : Pending}
    (known : pending.InRange walk.procedure) :
    Grown walk ((walk.resume pending).visit pending.offset) where
  size := Nat.le_refl _
  fault := rfl
  inRange := by
    refine ⟨inRange.graph, inRange.waiting, inRange.opened, inRange.entries, known.previous, ?_,
      inRange.fault⟩
    intro node current
    refine known.continued node ?_
    unfold visit resume at current
    cases continuation : pending.continuation with
    | append other =>
      rw [continuation] at current
      exact congrArg Continuation.append (Option.some.inj current)
    | newBlock | deferred =>
      rw [continuation] at current
      cases current

/-- `refusal?` is because of the layout of the regions or of the bounds, and never for a fault. -/
theorem refusal?_ne_internal {visits : Nat} {overdue : Bool} {fault : Fault} :
    refusal? routine limits visits overdue ≠ some (.internal fault) := by
  intro refused
  unfold refusal? at refused
  split at refused
  · cases refused
  · split at refused
    · cases refused
    · split at refused
      · cases refused
      · cases refused

theorem turn_advanced (inRange : walk.InRange)
    {pending : Pending} (known : pending.InRange walk.procedure) (overdue : Bool) :
    Advanced walk (walk.turn routine limits overdue pending).1 ∧
      ∀ outcome, (walk.turn routine limits overdue pending).2 = some outcome →
        outcome.SparesTable := by
  have taken := inRange.takeUp known
  unfold turn
  dsimp only
  cases shared : ((walk.resume pending).visit pending.offset).reusableNode? routine with
  | some node =>
    obtain ⟨-, -, -, recorded, opened, -⟩ := reusableNode?_eq_some shared
    have linked := link_grown taken.inRange taken.inRange.previous
      (taken.inRange.opened _ _ opened)
    exact ⟨(taken.trans linked).advanced, fun _ impossible => by cases impossible⟩
  | none =>
    cases refused : refusal? routine limits
        (((walk.resume pending).visit pending.offset).visitsOf pending.offset) overdue with
    | some reason =>
      refine ⟨taken.advanced, ?_⟩
      rintro _ ⟨⟩ fault _ ⟨⟩
      exact absurd refused (refusal?_ne_internal routine limits)
    | none =>
      obtain ⟨stepped, spared⟩ := stepAt_advanced routine taken.inRange pending.offset
      exact ⟨taken.advanced.trans stepped, spared⟩

/-! ### Runs -/

theorem InRange.rest (inRange : walk.InRange) {waiting : List Pending}
    (known : ∀ pending ∈ waiting, pending.InRange walk.procedure) :
    InRange { walk with worklist := waiting } :=
  { inRange with waiting := known }

/-- The path that waits first is in range, and so is the walk without it. -/
theorem InRange.take (inRange : walk.InRange) {pending : Pending} {rest : List Pending}
    (waiting : walk.worklist = pending :: rest) :
    pending.InRange walk.procedure ∧ InRange { walk with worklist := rest } := by
  have known := inRange.waiting
  rw [waiting] at known
  obtain ⟨first, others⟩ := List.forall_mem_cons.mp known
  exact ⟨first, inRange.rest others⟩

theorem drain_inRange (waiting : List Pending) (inRange : walk.InRange)
    (known : ∀ pending ∈ waiting, pending.InRange walk.procedure) :
    (drain routine limits waiting walk).1.InRange ∧
      (drain routine limits waiting walk).2.SparesTable := by
  induction waiting generalizing walk with
  | nil => exact ⟨inRange, fun _ _ impossible => by cases impossible⟩
  | cons pending rest inductionHypothesis =>
    obtain ⟨first, others⟩ := List.forall_mem_cons.mp known
    rw [drain]
    obtain ⟨advanced, spared⟩ := turn_advanced routine limits (inRange.rest others) first true
    generalize Walk.turn { walk with worklist := rest } routine limits true pending = result at *
    obtain ⟨after, outcome⟩ := result
    cases outcome with
    | none =>
      exact inductionHypothesis advanced.inRange fun pending member =>
        (others pending member).mono advanced.size
    | some outcome => exact ⟨advanced.inRange, spared outcome rfl⟩

/-- A run that starts `InRange` ends so. -/
theorem run_inRange (budget : Nat) (inRange : walk.InRange) :
    (run routine limits budget walk).1.InRange ∧
      (run routine limits budget walk).2.SparesTable := by
  induction budget generalizing walk with
  | zero => exact drain_inRange routine limits walk.worklist inRange inRange.waiting
  | succ budget inductionHypothesis =>
    rw [run]
    cases waiting : walk.worklist with
    | nil => exact ⟨inRange, fun _ _ impossible => by cases impossible⟩
    | cons pending rest =>
      dsimp only
      obtain ⟨first, others⟩ := inRange.take waiting
      obtain ⟨advanced, spared⟩ := turn_advanced routine limits others first false
      generalize Walk.turn { walk with worklist := rest } routine limits false pending = result at *
      obtain ⟨after, outcome⟩ := result
      cases outcome with
      | none => exact inductionHypothesis advanced.inRange
      | some outcome => exact ⟨advanced.inRange, spared outcome rfl⟩

variable {routine limits} {before after : Walk} {pending : Pending} {outcome : Option Outcome}

theorem InRange.takesUp (inRange : before.InRange)
    (takesUp : TakesUp routine limits before pending after outcome) : after.InRange := by
  obtain ⟨rest, overdue, waiting, turned⟩ := takesUp
  obtain ⟨first, others⟩ := inRange.take waiting
  have advanced := (turn_advanced routine limits others first overdue).1
  rw [turned] at advanced
  exact advanced.inRange

theorem InRange.arrive {rest : List Pending} (inRange : before.InRange)
    (waiting : before.worklist = pending :: rest) : (before.arrive pending rest).InRange := by
  obtain ⟨first, others⟩ := inRange.take waiting
  exact (others.takeUp first).inRange

end Walk

/-! ### Finished procedures -/

namespace Procedure.Enclosed

variable {procedure : Procedure}

/-- `Procedure.finish` adds edges to the exit and to the sink only. -/
theorem finish (enclosed : procedure.Enclosed) : procedure.finish.Enclosed := by
  have exit := enclosed.exit
  constructor
  · exact (stray_completeExceptions procedure).trans ((if_pos enclosed.sink).trans enclosed.stray)
  · rw [size_finish]
    exact enclosed.sink
  · intro index target edge
    have known := lt_size_of_mem_successorsOf edge
    rw [size_finish] at known ⊢
    rw [successorsOf_finish known] at edge
    rcases mem_finishedSuccessors edge with old | rfl
    · exact enclosed.successors index target old
    · exact exit
  · intro index target edge
    have known := lt_size_of_mem_exceptionsOf edge
    rw [size_finish] at known ⊢
    rw [exceptionsOf_finish known] at edge
    rcases mem_finishedExceptions edge with old | rfl | rfl
    · exact enclosed.exceptions index target old
    · exact exit
    · exact enclosed.sink

theorem neighbours_lt (enclosed : procedure.Enclosed) (index : NodeIndex) :
    ∀ target ∈ procedure.neighbours index, target < procedure.size := by
  intro target edge
  rw [neighbours_eq] at edge
  rcases List.mem_append.mp edge with normal | exceptional
  · exact enclosed.successors index target normal
  · exact enclosed.exceptions index target exceptional

/-- `reachableOrder` follows edges, so it finds nodes only. -/
theorem reachableOrder_lt (enclosed : procedure.Enclosed) :
    ∀ index ∈ procedure.reachableOrder.toList, index < procedure.size := by
  unfold reachableOrder
  refine List.foldlRecOn (motive := fun order : Array NodeIndex =>
    ∀ index ∈ order.toList, index < procedure.size) _ _ ?_ fun order known turn _ => ?_
  · intro index first
    rw [List.mem_singleton.mp first]
    exact Nat.lt_of_succ_lt enclosed.exit
  · split
    · intro index member
      rcases mem_extendOrder.mp member with old | new
      · exact known index old
      · exact enclosed.neighbours_lt _ index new
    · exact known

theorem visitOrder_lt (enclosed : procedure.Enclosed) :
    ∀ index ∈ procedure.visitOrder, index < procedure.size := by
  intro index member
  rcases mem_extendOrder.mp member with reached | listed
  · exact enclosed.reachableOrder_lt index reached
  · exact List.mem_range.mp listed

end Procedure.Enclosed

namespace Lowered

variable {program : Program} {declaring : TypeDef} {method : MethodDef} {body : MethodBody}
  {limits : Limits} {walk : Walk}

/-! ### Lowering -/

theorem begin_enclosed (id : Nat) (signature : Signature) (firstNodeId : Nat) :
    (Procedure.begin id signature firstNodeId).Enclosed where
  stray := rfl
  sink := Nat.lt_succ_self 2
  successors index target edge := by
    rw [Procedure.successorsOf_begin] at edge
    cases edge
  exceptions index target edge := by
    rw [Procedure.exceptionsOf_begin] at edge
    cases edge

theorem begin_inRange (id : Nat) (signature : Signature) (firstNodeId : Nat) :
    (Walk.begin (.begin id signature firstNodeId)).InRange where
  graph := begin_enclosed id signature firstNodeId
  waiting := List.forall_mem_nil _
  opened offset record member := by
    have nothing : (Walk.begin (.begin id signature firstNodeId)).opened.getD offset [] = [] :=
      Std.ExtTreeMap.getD_empty
    rw [nothing] at member
    cases member
  entries offset entry found := by
    have nothing : (Walk.begin (.begin id signature firstNodeId)).entries[offset]? = none :=
      Std.ExtTreeMap.getElem?_empty
    rw [nothing] at found
    cases found
  previous := Nat.succ_pos 2
  current _ impossible := by cases impossible
  fault _ _ _ impossible := by cases impossible

theorem constructorPrologue_grown (inRange : walk.InRange) (declaring : TypeDef)
    (method : MethodDef) : Walk.GrownTo walk (constructorPrologue declaring method walk) := by
  have start : Procedure.start < walk.procedure.size := Nat.lt_of_succ_lt inRange.graph.exit
  unfold constructorPrologue
  dsimp only
  by_cases bare : (!method.isConstructor || (flagsOf declaring).isEmpty) = true
  · rw [if_pos bare]
    exact ⟨inRange.grown, start⟩
  · rw [if_neg bare]
    let node := prologueNode declaring walk.nextIdent walk.location
    have added := inRange.addNode node rfl rfl
    have new := walk.procedure.size_lt_addNode node
    have linked := Walk.link_grown added.inRange (added.lt start) new
    exact ⟨(added.trans linked).trans (linked.inRange.useIdents 1), linked.lt new⟩

theorem seed_inRange (routine : Routine) (inRange : walk.InRange) {previous : NodeIndex}
    (known : previous < walk.procedure.size) : (walk.seed routine previous).InRange := by
  unfold Walk.seed
  split
  · exact (inRange.queue (.of_newBlock known rfl)).inRange
  · exact inRange

theorem seeded_inRange (program : Program) (declaring : TypeDef) (method : MethodDef)
    (body : MethodBody) : (seeded program declaring method body).InRange := by
  have begun := begin_inRange program.nextProcedureId (signatureOf declaring method body)
    program.nextNodeId
  obtain ⟨prepared, known⟩ := constructorPrologue_grown begun declaring method
  exact seed_inRange _ prepared.inRange known

theorem ofMethod_enclosed (program : Program) (declaring : TypeDef) (method : MethodDef)
    (body : MethodBody) (limits : Limits) :
    (ofMethod program declaring method body limits).outcome.SparesTable ∧
      (ofMethod program declaring method body limits).procedure.Enclosed := by
  obtain ⟨inRange, spared⟩ := Walk.run_inRange (Routine.ofBody declaring.name method body) limits
    limits.iterations (seeded_inRange program declaring method body)
  refine ⟨spared, ?_⟩
  unfold ofMethod
  dsimp only
  split
  · exact inRange.graph.finish
  · exact inRange.graph

theorem inRange_of_occurs
    (occurs : Walk.Occurs (Routine.ofBody declaring.name method body) limits
      (seeded program declaring method body) walk) : walk.InRange := by
  refine Walk.Occurs.keep _ (fun inRange takesUp => ?_) (fun inRange waiting => ?_) occurs
    (seeded_inRange program declaring method body)
  · exact inRange.takesUp takesUp
  · exact inRange.arrive waiting

/-- Lowering uses no index that is out of range, for any code and any exception table.

The positions that lookups in a table give are in the table (`Regions.Lists`). Wherever a run over a
method comes (`Walk.Occurs`), the nodes that it holds are there: those that waiting paths follow and
continue, those in its two tables, the previous and the current one, and those at the ends of all
edges; and no node was changed that is not there, since `Procedure.stray` would tell
(`Walk.InRange`). There the entry of any handler of the table, a node for the current block and a
way out of a node can be had: the node given is there, all stays in range, and no fault is found
(`Walk.GrownTo`). The whole lowering never ends with a fault about the position of a handler or of a
finally (`Fault.OutOfTable`). It changes no node that is not there, in the procedure that comes out
all edges lead to nodes (`Procedure.Enclosed`), and only nodes are visited to enter the incoming
edges. -/
theorem indices_in_range :
    (∀ regions : Regions,
      (∀ offset target, regions.exceptionTarget? offset = some target → regions.Lists target) ∧
      (∀ offset target position, regions.finallyForLeave? offset target = some position →
        position < regions.finallies.length) ∧
      (∀ position next, regions.nextInGroup? position = some next →
        next < regions.catches.length) ∧
      ∀ position around, regions.finallyAround? position = some around →
        around < regions.finallies.length) ∧
    (∀ (procedure : Procedure) (index : NodeIndex) (change : Node → Node),
      (procedure.modifyNode index change).stray = none ↔
        procedure.stray = none ∧ index < procedure.size) ∧
    ∀ (program : Program) (declaring : TypeDef) (method : MethodDef) (body : MethodBody)
      (limits : Limits),
      let routine := Routine.ofBody declaring.name method body
      (∀ walk, Walk.Occurs routine limits (seeded program declaring method body) walk →
        walk.InRange ∧
        (∀ target, routine.regions.Lists target →
          walk.GrownTo (walk.handlerEntry routine target)) ∧
        (∀ kind, walk.GrownTo (walk.openNode routine kind)) ∧
        ∀ source < walk.procedure.size, ∀ condition branch kind,
          walk.GrownTo (walk.addPrune routine source condition branch kind)) ∧
      (∀ fault remaining, (ofMethod program declaring method body limits).outcome =
        .abandoned (.internal fault) remaining → ¬ fault.OutOfTable) ∧
      (ofMethod program declaring method body limits).procedure.Enclosed ∧
      ∀ index ∈ (ofMethod program declaring method body limits).procedure.visitOrder,
        index < (ofMethod program declaring method body limits).procedure.size := by
  refine ⟨fun regions => ⟨?_, ?_, ?_, ?_⟩, fun _ _ _ => Procedure.stray_modifyNode_eq_none,
    fun program declaring method body limits => ?_⟩
  · exact fun _ _ found => (Regions.handles_exceptionTarget? found).lists
  · exact fun _ _ _ found => Regions.finallyForLeave?_lt found
  · exact fun _ _ found => Regions.nextInGroup?_lt found
  · exact fun _ _ found => Regions.finallyAround?_lt found
  · intro routine
    obtain ⟨spared, enclosed⟩ := ofMethod_enclosed program declaring method body limits
    refine ⟨fun walk occurs => ?_, spared, enclosed, enclosed.visitOrder_lt⟩
    have inRange := inRange_of_occurs occurs
    refine ⟨inRange, fun target listed => ?_, fun kind => ?_, fun source known _ _ _ => ?_⟩
    · exact Walk.handlerEntry_grown routine inRange listed
    · exact Walk.openNode_grown routine inRange kind
    · exact Walk.addPrune_grown routine inRange known _ _ _

/-- Code with a reversed finally, a catch that is listed twice and a finally around both. -/
def tangledBody : MethodBody where
  locals := ["System.Int32"]
  instructions :=
    [⟨0, "ldloc.0", .none, none⟩, ⟨1, "stloc.0", .none, none⟩, ⟨2, "leave", .target 6, none⟩,
      ⟨3, "pop", .none, none⟩, ⟨4, "leave", .target 6, none⟩, ⟨5, "endfinally", .none, none⟩,
      ⟨6, "ret", .none, none⟩]
  handlers :=
    [⟨.finally, 9, 1, some 8, some 7, none⟩, ⟨.catch, 0, 3, some 3, some 5, none⟩,
      ⟨.catch, 0, 3, some 3, some 5, none⟩, ⟨.finally, 0, 5, some 5, some 6, none⟩]

/-- The table that is read from the handlers of `tangledBody`. -/
def tangledRegions : Regions where
  catches :=
    [⟨⟨0, 3⟩, ⟨3, 5⟩, defaultCatchType⟩, ⟨⟨0, 3⟩, ⟨3, 5⟩, defaultCatchType⟩]
  finallies := [⟨⟨9, 1⟩, ⟨8, 7⟩⟩, ⟨⟨0, 5⟩, ⟨5, 6⟩⟩]
  boundaries := [9, 1, 8, 7, 0, 3, 3, 5, 0, 3, 3, 5, 0, 5, 5, 6]
  unhandled := false
  valid := true

def tangledRoutine : Routine :=
  { Routine.ofBody plainType.name plainMethod tangledBody with regions := tangledRegions }

-- Sorting does not reduce in the kernel, so the sorted table is given.
theorem tangledRoutine_eq :
    Routine.ofBody plainType.name plainMethod tangledBody = tangledRoutine := by
  have read : tangledBody.handlers.filterMap HandlerEntry.catchClause? =
      tangledRegions.catches := by decide +kernel
  have sorted : tangledRegions.catches.mergeSort CatchClause.notAfter = tangledRegions.catches :=
    List.mergeSort_of_pairwise (by decide +kernel)
  have regions : (Routine.ofBody plainType.name plainMethod tangledBody).regions =
      tangledRegions := by
    unfold Routine.ofBody Regions.analyze
    rw [read, sorted]
    decide +kernel
  unfold tangledRoutine
  rw [← regions]

/-- The walk over `tangledBody` after the load. -/
def tangledWalk : Walk :=
  (seeded .empty plainType plainMethod tangledBody).afterTurns tangledRoutine .standard 1

/-- The load opens node 3, for which the catches and the finally around them get their nodes. The
second catch shares the entry of the first, so the first passes on to itself. -/
theorem indices_in_range_tangled :
    tangledRoutine.regions.exceptionTarget? 0 = some (.catch 0) ∧
      tangledRoutine.regions.nextInGroup? 0 = some 1 ∧
      tangledRoutine.regions.finallyAround? 1 = some 1 ∧
      tangledWalk.procedure.size = 8 ∧
      tangledWalk.procedure.exceptionsOf 3 = [4] ∧ tangledWalk.procedure.successorsOf 6 = [4] ∧
      tangledWalk.worklist.map (fun pending => pending.previous) = [3, 5, 7] ∧
      tangledWalk.InRange ∧
      tangledWalk.GrownTo (tangledWalk.handlerEntry tangledRoutine (.finally 0)) ∧
      (ofMethod .empty plainType plainMethod tangledBody .standard).procedure.Enclosed := by
  obtain ⟨everywhere, -, enclosed, -⟩ :=
    indices_in_range.2.2 .empty plainType plainMethod tangledBody .standard
  rw [tangledRoutine_eq] at everywhere
  obtain ⟨inRange, entry, -⟩ := everywhere tangledWalk (.between (.inl (Walk.turns_afterTurns ..)))
  have listed : tangledRoutine.regions.Lists (.finally 0) := Nat.zero_lt_two
  exact ⟨by decide +kernel, by decide +kernel, by decide +kernel, by decide +kernel,
    by decide +kernel, by decide +kernel, by decide +kernel, inRange, entry _ listed, enclosed⟩

end Lowered

end BytecodeFlow

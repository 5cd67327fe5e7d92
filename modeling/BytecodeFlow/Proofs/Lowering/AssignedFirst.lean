/-
This file shows that the temporaries of a lowered method are assigned before
they are used. What an instruction leaves on the operand stack and what it
hands on is built from the temporaries that were on the stack, so a turn keeps
the books of temporaries balanced (`Walk.Balanced`): an operation reads only
what its path holds, and a path that joins a node brings along what the node
demands. The books of the walk before its first turn are balanced, hence those
of the finished graph.
-/

import BytecodeFlow.Proofs.Execution.Naming
import BytecodeFlow.Proofs.Lowering.FinallyRouting
import BytecodeFlow.Proofs.Walk.Spending

namespace BytecodeFlow

/-! ### Values that agree -/

theorem Expr.idents_of_agrees {left right : Expr} (agrees : left.agrees right = true) :
    left.idents = right.idents := by
  fun_induction Expr.agrees left right with
  | case1 left right => rw [eq_of_beq agrees]
  | case2 => rfl
  | case3 leftBase leftMember leftOwner rightBase rightMember rightOwner inductionHypothesis =>
    simp only [Bool.and_eq_true] at agrees
    exact inductionHypothesis agrees.1.1
  | case4 => rfl
  | case5 leftOperator leftFirst leftSecond rightOperator rightFirst rightSecond first second =>
    simp only [Bool.and_eq_true] at agrees
    rw [Expr.idents, Expr.idents, first agrees.1.2, second agrees.2]
  | case6 leftOperator left rightOperator right inductionHypothesis =>
    simp only [Bool.and_eq_true] at agrees
    exact inductionHypothesis agrees.2
  | case7 left right inductionHypothesis => exact inductionHypothesis agrees
  | case8 => rfl
  | case9 => cases agrees

/-- A stack of which `topAgrees` holds has the temporaries of the recorded values. -/
theorem Walk.identsOf_of_topAgrees {recorded stack : List Value}
    (agrees : Walk.topAgrees recorded stack = true) : identsOf recorded ⊆ identsOf stack := by
  fun_induction Walk.topAgrees recorded stack with
  | case1 => exact List.nil_subset _
  | case2 => cases agrees
  | case3 value recorded top stack inductionHypothesis =>
    obtain ⟨same, others⟩ := Bool.and_eq_true_iff.mp agrees
    have idents := Expr.idents_of_agrees (Bool.and_eq_true_iff.mp same).1
    rw [identsOf_cons, identsOf_cons, idents]
    exact List.append_subset.mpr ⟨List.subset_append_left _ _,
      List.subset_append_of_subset_right _ (inductionHypothesis others)⟩

/-! ### Resolving operands -/

namespace Operation

variable {routine : Routine} {instruction : Instruction} {stack after : List Value}
  {operation : Operation}

theorem Constant.idents {expr : Expr} {typ : Typ} (constant : Constant instruction expr typ) :
    expr.idents = [] := by
  cases constant <;> rfl

theorem Combines.idents (combines : Combines instruction stack after) :
    identsOf after ⊆ identsOf stack := by
  have replaced : ∀ (left right : Value) (rest : List Value),
      left.expr.idents ++ right.expr.idents ++ identsOf rest ⊆
        identsOf (right :: left :: rest) := by
    intro left right rest
    rw [identsOf_cons, identsOf_cons, ← List.append_assoc]
    refine List.append_subset.mpr ⟨List.append_subset.mpr ⟨?_, ?_⟩, List.subset_append_right _ _⟩
    · exact List.subset_append_of_subset_left _ (List.subset_append_right _ _)
    · exact List.subset_append_of_subset_left _ (List.subset_append_left _ _)
  cases combines with
  | nop => exact List.Subset.refl _
  | constant pushes =>
    rw [identsOf_cons, pushes.idents]
    exact List.Subset.refl _
  | dup => exact identsOf_subset (List.cons_subset.mpr ⟨List.mem_cons_self, List.Subset.refl _⟩)
  | pop => exact identsOf_subset (List.subset_cons_self _ _)
  | binary => exact replaced _ _ _
  | compare => exact replaced _ _ _
  | negate => exact List.Subset.refl _
  | bitNot => exact List.Subset.refl _

theorem truth_idents (value : Value) (expected : Bool) :
    (truth value expected).idents ⊆ value.expr.idents := by
  unfold truth
  split
  · exact List.append_subset.mpr ⟨List.Subset.refl _, List.nil_subset _⟩
  · split
    · exact List.Subset.refl _
    · exact List.Subset.refl _

/-- The temporaries of an operation to which an instruction `Resolves`, and of the stack that is
left for it, were on the stack. -/
theorem Resolves.idents (resolves : Resolves routine instruction stack operation after) :
    operation.idents ⊆ identsOf stack ∧ identsOf after ⊆ identsOf stack := by
  have dropped : ∀ (value : Value) (rest : List Value), identsOf rest ⊆ identsOf (value :: rest) :=
    fun value rest => identsOf_subset (List.subset_cons_self _ _)
  have top : ∀ (value : Value) (rest : List Value),
      value.expr.idents ⊆ identsOf (value :: rest) :=
    fun value rest => List.subset_append_left _ _
  cases resolves with
  | combine combines => exact ⟨List.nil_subset _, combines.idents⟩
  | ldarg opcode which place =>
    obtain ⟨name, rfl, -⟩ := Routine.argument_eq_ok place
    exact ⟨List.nil_subset _, List.Subset.refl _⟩
  | starg opcode which place =>
    obtain ⟨name, rfl, -⟩ := Routine.argument_eq_ok place
    exact ⟨top _ _, dropped _ _⟩
  | ldloc opcode which place =>
    obtain ⟨name, rfl, -⟩ := Routine.localVariable_eq_ok place
    exact ⟨List.nil_subset _, List.Subset.refl _⟩
  | stloc opcode which place =>
    obtain ⟨name, rfl, -⟩ := Routine.localVariable_eq_ok place
    exact ⟨top _ _, dropped _ _⟩
  | br => exact ⟨List.nil_subset _, List.Subset.refl _⟩
  | test => exact ⟨List.Subset.trans (truth_idents _ _) (top _ _), dropped _ _⟩
  | branch =>
    refine ⟨?_, List.Subset.trans (dropped _ _) (dropped _ _)⟩
    exact List.append_subset.mpr ⟨List.Subset.trans (top _ _) (dropped _ _), top _ _⟩
  | switch => exact ⟨top _ _, dropped _ _⟩
  | call =>
    refine ⟨identsOf_subset ?_, identsOf_subset (List.subset_append_right _ _)⟩
    exact List.subset_append_of_subset_left _ (List.reverse_subset.mp (by simp))
  | newobj =>
    refine ⟨identsOf_subset ?_, identsOf_subset (List.subset_append_right _ _)⟩
    exact List.subset_append_of_subset_left _ (List.reverse_subset.mp (by simp))
  | ldfld => exact ⟨top _ _, dropped _ _⟩
  | ldsfld => exact ⟨List.nil_subset _, List.Subset.refl _⟩
  | stfld =>
    refine ⟨?_, List.Subset.trans (dropped _ _) (dropped _ _)⟩
    exact List.append_subset.mpr ⟨List.Subset.trans (top _ _) (dropped _ _), top _ _⟩
  | stsfld => exact ⟨top _ _, dropped _ _⟩
  | retVoid => exact ⟨List.nil_subset _, List.Subset.refl _⟩
  | ret => exact ⟨top _ _, dropped _ _⟩
  | throw => exact ⟨top _ _, dropped _ _⟩
  | leave => exact ⟨List.nil_subset _, List.Subset.refl _⟩
  | endfinally => exact ⟨List.nil_subset _, List.Subset.refl _⟩

end Operation

namespace Walk

variable {routine : Routine} {limits : Limits} {before after : Walk} {pending : Pending}
  {rest : List Pending}

/-! ### Turns -/

/-- An exception that a finally throws again, one of the `contextIdents`, is carried by paths in
handlers only. -/
def ContextsInside (routine : Routine) (walk : Walk) : Prop :=
  ∀ pending ∈ walk.worklist, contextIdents pending.finallyExit ≠ [] →
    routine.regions.isHandlerOffset pending.offset = true

theorem ContextsKept.inside {start : Walk} (wellFormed : routine.regions.WellFormed)
    (disjoint : groupsAreDisjoint routine.regions.catches routine.regions.finallies = true)
    (contexts : ContextsKept routine limits start before) : ContextsInside routine before := by
  intro pending member entered
  cases exit? : pending.finallyExit with
  | none =>
    rw [exit?] at entered
    exact absurd rfl entered
  | some exit =>
    obtain ⟨position, clause, found, inside, -⟩ := contexts pending member exit exit?
    exact Regions.isHandlerOffset_of_finally wellFormed disjoint found inside

theorem owner_arrive (before : Walk) (pending : Pending) (rest : List Pending) :
    (before.arrive pending rest).owner = pending.origin := by
  unfold owner arrive resume visit Pending.origin
  cases pending.continuation <;> rfl

/-- A path that is taken up is `Stocked` with what it `held` while it waited. -/
theorem Stocked.arrive (balanced : Balanced routine [] [] before)
    (contexts : ContextsInside routine before) (waiting : before.worklist = pending :: rest) :
    Stocked routine pending.held (before.arrive pending rest) := by
  obtain ⟨orderly, taken⟩ := balanced.take waiting
  have member : pending ∈ before.worklist := by
    rw [waiting]
    exact List.mem_cons_self
  refine ⟨?_, List.append_subset.mpr ⟨orderly.stack, List.subset_append_right _ _⟩, ?_, ?_⟩
  · rw [owner_arrive]
    exact taken.of_fields rfl rfl rfl rfl
  · intro _
    unfold Pending.held Pending.blockStack Walk.arrive resume visit
    cases pending.continuation <;> rfl
  · intro closed entered
    unfold Walk.arrive resume visit at closed entered ⊢
    cases continuation : pending.continuation with
    | newBlock => exact contexts pending member entered
    | append node =>
      rw [continuation] at closed
      cases closed
    | deferred blockStart blockStack => exact orderly.inside _ _ continuation entered

/-- A turn keeps the books `Balanced`. -/
theorem Balanced.takesUp (balanced : Balanced routine [] [] before)
    (contexts : ContextsInside routine before)
    (takesUp : TakesUp routine limits before pending after none) :
    Balanced routine [] [] after := by
  obtain ⟨rest, overdue, waiting, turned⟩ := takesUp
  have stocked := Stocked.arrive balanced contexts waiting
  have onStack : identsOf (before.arrive pending rest).stack ⊆ pending.held :=
    List.Subset.trans (List.subset_append_left _ _) stocked.carries
  generalize goes : (none : Option Outcome) = outcome at turned
  cases turn_turned turned with
  | joined node shared =>
    obtain ⟨current, -, outside, recorded, listed, agrees⟩ := reusableNode?_eq_some shared
    -- The node demands at most what was on the stack when it was opened.
    have covers : identsOf recorded ⊆ pending.held :=
      List.Subset.trans (identsOf_of_topAgrees agrees) onStack
    have supplied := stocked.balanced
    rw [owner, current] at supplied
    have linked := (supplied.bound_opened listed outside).link List.mem_cons_self
      List.mem_cons_self covers
    exact linked.weaken (List.nil_subset _) (List.nil_subset _)
  | halted => cases goes
  | performed instruction resolved _ fresh valid handled found resolves =>
    obtain ⟨reads, left⟩ := (Operation.resolves_of_resolve resolves).idents
    have ready : Stocked routine pending.held
        ((before.arrive pending rest).ready routine instruction resolved.stack) := by
      refine ⟨stocked.balanced.of_fields rfl rfl rfl rfl, ?_, stocked.whole, stocked.inside⟩
      exact List.append_subset.mpr ⟨List.Subset.trans left onStack,
        List.Subset.trans (List.subset_append_right _ _) stocked.carries⟩
    exact ready.perform (List.Subset.trans reads onStack)

/-- The books stay `Balanced` in the course of a run. -/
theorem Balanced.turns {start : Walk} (wellFormed : routine.regions.WellFormed)
    (disjoint : groupsAreDisjoint routine.regions.catches routine.regions.finallies = true)
    (closed : routine.FinalliesClosed) (linear : start.Linear [])
    (initial : ∀ pending ∈ start.worklist, pending.finallyExit = none)
    (balanced : Balanced routine [] [] start) (turns : Turns routine limits start after) :
    Balanced routine [] [] after := by
  induction turns with
  | refl => exact balanced
  | tail turns turn inductionHypothesis =>
    obtain ⟨pending, takesUp⟩ := turn
    have contexts := contextsKept wellFormed closed linear initial turns
    exact inductionHypothesis.takesUp (contexts.inside wellFormed disjoint) takesUp

end Walk

namespace Lowered

variable {program : Program} {declaring : TypeDef} {method : MethodDef} {body : MethodBody}
  {limits : Limits}

/-! ### The walk before its first turn -/

theorem balanced_begin (routine : Routine) (id : Nat) (signature : Signature)
    (firstNodeId : Nat) :
    Walk.Balanced routine [(Procedure.start, [])] []
      (Walk.begin (.begin id signature firstNodeId)) := by
  refine ⟨fun _ => [], ?_⟩
  constructor
  · exact .begin id signature firstNodeId
  · exact Nat.lt_succ_self 2
  · rfl
  · rfl
  · intro offset entry found
    have nothing : (Walk.begin (.begin id signature firstNodeId)).entries[offset]? = none :=
      Std.ExtTreeMap.getElem?_empty
    rw [nothing] at found
    cases found
  · intro offset record member
    have nothing : (Walk.begin (.begin id signature firstNodeId)).opened.getD offset [] = [] :=
      Std.ExtTreeMap.getD_empty
    rw [nothing] at member
    cases member
  · intro pending member
    cases member
  · exact List.forall_mem_singleton.mpr ⟨Nat.succ_pos 2, List.nil_subset _⟩
  · intro bound member
    cases member

/-- The commands that clear flags assign the receiver before they use it. -/
theorem defined_clearFlags (receiver : Ident) (location : Location) (flags : List FieldRef) :
    Defined [] (clearFlags declaring receiver location flags) := by
  refine ⟨List.nil_subset _, Defined.of_reads fun command member => ?_⟩
  obtain ⟨flag, -, rfl⟩ := List.mem_map.mp member
  exact List.Subset.refl _

theorem prepared_balanced (routine : Routine) (program : Program) (declaring : TypeDef)
    (method : MethodDef) (body : MethodBody) :
    ∃ held, Walk.Balanced routine [((prepared program declaring method body).2, held)] []
      (prepared program declaring method body).1 := by
  have begun := balanced_begin routine program.nextProcedureId (signatureOf declaring method body)
    program.nextNodeId
  unfold prepared constructorPrologue
  dsimp only
  split
  · exact ⟨_, begun⟩
  · have added := begun.addNode (prologueNode declaring ⟨0⟩
      (signatureOf declaring method body).location) [] rfl rfl (defined_clearFlags ..)
    have linked := added.link (List.mem_cons_of_mem _ List.mem_cons_self) List.mem_cons_self
      (List.Subset.refl _)
    exact ⟨_, (linked.weaken (List.cons_subset_cons _ (List.nil_subset _))
      (List.nil_subset _)).of_fields rfl rfl rfl rfl⟩

/-- The books are `Balanced` before the first turn. -/
theorem seeded_balanced (program : Program) (declaring : TypeDef) (method : MethodDef)
    (body : MethodBody) :
    Walk.Balanced (Routine.ofBody declaring.name method body) [] []
      (seeded program declaring method body) := by
  obtain ⟨held, balanced⟩ := prepared_balanced (Routine.ofBody declaring.name method body) program
    declaring method body
  unfold seeded Walk.seed
  split
  · rename_i first found
    have queued := balanced.queue
      ⟨first.offset, (prepared program declaring method body).2, [],
        (prepared program declaring method body).1.nextStamp, .newBlock, none⟩
      List.mem_cons_self (List.nil_subset _) (.of_not_deferred nofun)
    exact queued.weaken (List.nil_subset _) (List.nil_subset _)
  · exact balanced.weaken (List.nil_subset _) (List.nil_subset _)

/-! ### Lowered methods -/

/-- The graph of a lowered method `Meets` some demand. -/
theorem ofMethod_meets (wellFormed : ∀ entry ∈ body.handlers, entry.WellFormed)
    (valid : (Routine.ofBody declaring.name method body).regions.valid = true)
    (closed : (Routine.ofBody declaring.name method body).FinalliesClosed)
    (complete : (ofMethod program declaring method body limits).outcome = .complete) :
    ∃ demand, (ofMethod program declaring method body limits).procedure.Meets demand := by
  obtain ⟨final, turns, -, finished⟩ := ofMethod_complete complete
  have ordered : (Routine.ofBody declaring.name method body).regions.WellFormed :=
    Regions.wellFormed_analyze wellFormed body.instructions
  have balanced : Walk.Balanced (Routine.ofBody declaring.name method body) [] [] final := by
    have start := seeded_balanced program declaring method body
    by_cases code : body.instructions = []
    · rw [seeded_of_nil code] at start turns
      obtain ⟨-, nothing⟩ := prepared_linear program declaring method body
      rw [Walk.Turns.of_worklist_nil turns nothing]
      exact start
    · exact Walk.Balanced.turns ordered (Regions.groupsAreDisjoint_of_valid valid) closed
        (seeded_linear program declaring method code) (fun _ => seeded_contexts) start turns
  obtain ⟨demand, balanced⟩ := balanced
  rw [finished]
  exact ⟨demand, balanced.meets.finish balanced.sink_lt balanced.exit_demand
    balanced.sink_demand⟩

/-- On every path through a lowered method, over edges of both kinds (`Procedure.Reaches`), each
temporary that a command reads was assigned before: by an earlier command of its node, or on the way
to the node. -/
theorem ofMethod_assigns_first (wellFormed : ∀ entry ∈ body.handlers, entry.WellFormed)
    (valid : (Routine.ofBody declaring.name method body).regions.valid = true)
    (closed : (Routine.ofBody declaring.name method body).FinalliesClosed)
    (complete : (ofMethod program declaring method body limits).outcome = .complete)
    {node : NodeIndex} {assigned : List Ident}
    (path : (ofMethod program declaring method body limits).procedure.Reaches node assigned)
    {before after : List Command} {command : Command}
    (holds : (ofMethod program declaring method body limits).procedure.commandsOf node =
      before ++ command :: after) :
    command.reads ⊆ assigned ++ assignedBy before := by
  obtain ⟨demand, meets⟩ := ofMethod_meets wellFormed valid closed complete
  have defined := meets.defined_on_path path
  rw [holds] at defined
  exact defined.reads_subset

/-- The procedure of `leavingBody`, a method that leaves a protected region. -/
def leavingProcedure : Procedure :=
  (ofMethod .empty plainType plainMethod leavingBody .standard).procedure

/-- An exception in the protected region leads over the entry of the finally, which assigns the
exception, to the node that throws it again. -/
theorem ofMethod_assigns_first_leaving :
    leavingProcedure.Reaches 7 [⟨0⟩] ∧
      leavingProcedure.commandsOf 7 =
        [.store .returnSlot (.thrown (.var ⟨0⟩)) .object ⟨none, ""⟩] ∧
      (Command.store .returnSlot (.thrown (.var ⟨0⟩)) .object ⟨none, ""⟩).reads ⊆
        [⟨0⟩] ++ assignedBy [] := by
  have entered : leavingProcedure.Reaches 4 ([] ++ assignedBy (leavingProcedure.commandsOf 0)) :=
    .exceptional (.onward .start (show 3 ∈ leavingProcedure.successorsOf 0 by decide +kernel))
      (by decide +kernel)
  have assigned : [] ++ assignedBy (leavingProcedure.commandsOf 0) ++
      assignedBy (leavingProcedure.commandsOf 4) = [⟨0⟩] := by decide +kernel
  have path : leavingProcedure.Reaches 7 [⟨0⟩] := by
    rw [← assigned]
    exact .onward entered (by decide +kernel)
  have holds : leavingProcedure.commandsOf 7 =
      [] ++ .store .returnSlot (.thrown (.var ⟨0⟩)) .object ⟨none, ""⟩ :: [] := by decide +kernel
  exact ⟨path, holds, ofMethod_assigns_first (by decide +kernel) (by decide +kernel)
    leavingRoutine_closed (by decide +kernel) path holds⟩

end Lowered

end BytecodeFlow

/-
This file describes where the walk over a method begins, `seeded`: with the
start, the exit and the sink, with a node that clears the flags of a
constructed object if there are any (`prologueNode`), and with one path that
waits to enter the body. Lowering a method is a `run` from there.
-/

import BytecodeFlow.Lowering.Method
import BytecodeFlow.Proofs.Walk.Turning

namespace BytecodeFlow

/-! ### A procedure without code -/

theorem Procedure.shaped_begin (id : Nat) (signature : Signature) (firstNodeId : Nat) :
    (Procedure.begin id signature firstNodeId).Shaped where
  exitKind := rfl
  sinkKind := rfl
  exitCloses := rfl
  sinkCloses := rfl
  waysOut index := by
    rw [successorsOf_begin]
    exact .none
  leadsOn source target edge := by
    rw [successorsOf_begin] at edge
    cases edge
  oneSource target _ first _ edge := by
    rw [successorsOf_begin] at edge
    cases edge

theorem Procedure.kind_of_begin {id : Nat} {signature : Signature} {firstNodeId : Nat}
    {index : NodeIndex} {kind : NodeKind}
    (found : (Procedure.begin id signature firstNodeId).kind? index = some kind) :
    kind = .start ∨ kind = .exit ∨ kind = .sink := by
  have known : index < 3 := lt_size_of_kind? found
  have three : ∀ position : Nat, position < 3 → position = 0 ∨ position = 1 ∨ position = 2 := by
    omega
  obtain rfl | rfl | rfl := three index known
  · exact .inl (Option.some.inj found).symm
  · exact .inr (.inl (Option.some.inj found).symm)
  · exact .inr (.inr (Option.some.inj found).symm)

/-- Before anything is walked over, only the start waits for a way out. -/
theorem Walk.linear_begin (id : Nat) (signature : Signature) (firstNodeId : Nat) :
    (Walk.begin (.begin id signature firstNodeId)).Linear [Procedure.start] where
  shaped := Procedure.shaped_begin ..
  distinct := List.nodup_cons.mpr ⟨List.not_mem_nil, List.nodup_nil⟩
  loose := by
    intro node member
    rw [List.mem_singleton.mp member]
    exact ⟨Nat.succ_pos 2, rfl, by decide, by decide⟩
  whole := by
    intro node known notExit notSink _
    have within : node < 3 := known
    unfold Procedure.exit at notExit
    unfold Procedure.sink at notSink
    have first : node = Procedure.start := by
      unfold Procedure.start
      omega
    rw [first]
    exact List.mem_cons_self
  appends pending member := by cases member
  opened offset record member := by
    have nothing : (Walk.begin (.begin id signature firstNodeId)).opened.getD offset [] = [] :=
      Std.ExtTreeMap.getD_empty
    rw [nothing] at member
    cases member
  entries offset entry found := by
    have nothing : (Walk.begin (.begin id signature firstNodeId)).entries[offset]? = none :=
      Std.ExtTreeMap.getElem?_empty
    rw [nothing] at found
    cases found

namespace Lowered

/-! ### The walk before its first turn -/

/-- The node that clears the flags of a constructed object. -/
def prologueNode (declaring : TypeDef) (receiver : Ident) (location : Location) : Node :=
  { Node.empty .statement location with
    commands := clearFlags declaring receiver location (flagsOf declaring) }

/-- The walk over a method before its first path waits, and the node after which the body
starts. -/
def prepared (program : Program) (declaring : TypeDef) (method : MethodDef) (body : MethodBody) :
    Walk × NodeIndex :=
  constructorPrologue declaring method
    (Walk.begin (program.begin (signatureOf declaring method body)))

/-- The walk over a method before its first turn: the one of `prepared`, with a path to the first
instruction. -/
def seeded (program : Program) (declaring : TypeDef) (method : MethodDef) (body : MethodBody) :
    Walk :=
  (prepared program declaring method body).1.seed (Routine.ofBody declaring.name method body)
    (prepared program declaring method body).2

variable {program : Program} {declaring : TypeDef} {method : MethodDef} {body : MethodBody}
  {limits : Limits}

theorem prepared_linear (program : Program) (declaring : TypeDef) (method : MethodDef)
    (body : MethodBody) :
    (prepared program declaring method body).1.Linear [(prepared program declaring method body).2] ∧
      (prepared program declaring method body).1.worklist = [] := by
  have begun := Walk.linear_begin program.nextProcedureId (signatureOf declaring method body)
    program.nextNodeId
  unfold prepared constructorPrologue
  dsimp only
  split
  · exact ⟨begun, rfl⟩
  · let node := prologueNode declaring ⟨0⟩ (signatureOf declaring method body).location
    have added := (begun.addNode node rfl).perm (List.Perm.swap ..)
    have linked := added.link (Nat.lt_succ_self 3) (by decide) fun prune => by
      obtain ⟨branch, kind, impossible⟩ := prune
      cases impossible
    exact ⟨linked.of_fields rfl rfl rfl rfl, rfl⟩

/-- If there is code, the first path waits to enter it. -/
theorem seeded_linear (program : Program) (declaring : TypeDef) (method : MethodDef)
    {body : MethodBody} (code : body.instructions ≠ []) :
    (seeded program declaring method body).Linear [] := by
  obtain ⟨first, rest, instructions⟩ := List.exists_cons_of_ne_nil code
  obtain ⟨linear, -⟩ := prepared_linear program declaring method body
  unfold seeded Walk.seed
  have found : (Routine.ofBody declaring.name method body).instructions[0]? = some first := by
    show body.instructions.toArray[0]? = some first
    rw [instructions]
    rfl
  rw [found]
  refine linear.queue ?_
  intro node continued
  cases continued

/-- Without code nothing waits. -/
theorem seeded_of_nil (empty : body.instructions = []) :
    seeded program declaring method body = (prepared program declaring method body).1 := by
  unfold seeded Walk.seed
  have found : (Routine.ofBody declaring.name method body).instructions[0]? = none := by
    show body.instructions.toArray[0]? = none
    rw [empty]
    rfl
  rw [found]

/-- The only path that waits at first enters the body. -/
theorem seeded_worklist {first : Instruction} (begins : body.instructions.head? = some first) :
    (seeded program declaring method body).worklist =
      [⟨first.offset, (prepared program declaring method body).2, [],
        (prepared program declaring method body).1.nextStamp, .newBlock, none⟩] := by
  obtain ⟨-, nothing⟩ := prepared_linear program declaring method body
  have found : (Routine.ofBody declaring.name method body).instructions[0]? = some first := by
    show body.instructions.toArray[0]? = some first
    rw [List.getElem?_toArray, ← List.head?_eq_getElem?, begins]
  unfold seeded Walk.seed
  rw [found]
  exact congrArg (_ :: ·) nothing

theorem mem_seeded_worklist {pending : Pending}
    (member : pending ∈ (seeded program declaring method body).worklist) :
    ∃ first, body.instructions.head? = some first ∧
      (seeded program declaring method body).worklist = [pending] ∧
      pending = ⟨first.offset, (prepared program declaring method body).2, [],
        (prepared program declaring method body).1.nextStamp, .newBlock, none⟩ := by
  cases begins : body.instructions.head? with
  | none =>
    obtain ⟨-, nothing⟩ := prepared_linear program declaring method body
    rw [seeded_of_nil (List.head?_eq_none_iff.mp begins), nothing] at member
    cases member
  | some first =>
    have worklist : (seeded program declaring method body).worklist = _ := seeded_worklist begins
    rw [worklist] at member ⊢
    obtain rfl := List.mem_singleton.mp member
    exact ⟨first, rfl, rfl, rfl⟩

theorem seeded_contexts {pending : Pending}
    (member : pending ∈ (seeded program declaring method body).worklist) :
    pending.finallyExit = none := by
  obtain ⟨first, -, -, rfl⟩ := mem_seeded_worklist member
  rfl

theorem procedure_seeded :
    (seeded program declaring method body).procedure =
      (prepared program declaring method body).1.procedure := by
  unfold seeded Walk.seed
  split <;> rfl

/-- No node is opened in the `seeded` walk. -/
theorem opened_seeded : (seeded program declaring method body).opened = ∅ := by
  unfold seeded prepared constructorPrologue Walk.seed
  dsimp only
  split <;> split <;> rfl

/-- No handler has an entry in the `seeded` walk. -/
theorem entries_seeded : (seeded program declaring method body).entries = ∅ := by
  unfold seeded prepared constructorPrologue Walk.seed
  dsimp only
  split <;> split <;> rfl

theorem instructionAt?_mem {offset : Offset} {instruction : Instruction}
    (found : (Routine.ofBody declaring.name method body).instructionAt? offset =
      some instruction) : instruction ∈ body.instructions := by
  obtain ⟨position, -, held⟩ := Option.bind_eq_some_iff.mp found
  have listed : body.instructions.toArray[position]? = some instruction := held
  rw [List.getElem?_toArray] at listed
  exact List.mem_of_getElem? listed

/-- Where a path waits there is code. -/
theorem code_of_waiting {before : Walk}
    (turns : Walk.Turns (Routine.ofBody declaring.name method body) limits
      (seeded program declaring method body) before)
    (waiting : before.worklist ≠ []) : body.instructions ≠ [] := by
  intro empty
  obtain ⟨-, nothing⟩ := prepared_linear program declaring method body
  rw [seeded_of_nil empty] at turns
  rw [Walk.Turns.of_worklist_nil turns nothing] at waiting
  exact waiting nothing

theorem code_of_takesUp {before after : Walk} {pending : Pending} {outcome : Option Outcome}
    (turns : Walk.Turns (Routine.ofBody declaring.name method body) limits
      (seeded program declaring method body) before)
    (takesUp : Walk.TakesUp (Routine.ofBody declaring.name method body) limits before pending after
      outcome) : body.instructions ≠ [] := by
  obtain ⟨rest, overdue, waiting, -⟩ := takesUp
  refine code_of_waiting turns ?_
  rw [waiting]
  exact List.cons_ne_nil _ _

/-! ### Lowering as a run -/

/-- Lowering a method is a run from the `seeded` walk that `Ends`; what is kept is finished. -/
theorem ofMethod_ends (program : Program) (declaring : TypeDef) (method : MethodDef)
    (body : MethodBody) (limits : Limits) :
    ∃ final, Walk.Ends (Routine.ofBody declaring.name method body) limits
        (seeded program declaring method body) final
        (ofMethod program declaring method body limits).outcome ∧
      (ofMethod program declaring method body limits).procedure =
        if (ofMethod program declaring method body limits).isKept then final.procedure.finish
        else final.procedure := by
  let result := Walk.run (Routine.ofBody declaring.name method body) limits limits.iterations
    (seeded program declaring method body)
  exact ⟨result.1, Walk.run_ends limits.iterations rfl, rfl⟩

/-- A method that is lowered completely is a run to a walk without waiting paths, whose graph is
finished. -/
theorem ofMethod_complete
    (complete : (ofMethod program declaring method body limits).outcome = .complete) :
    ∃ final, Walk.Turns (Routine.ofBody declaring.name method body) limits
        (seeded program declaring method body) final ∧ final.worklist = [] ∧
      (ofMethod program declaring method body limits).procedure = final.procedure.finish := by
  obtain ⟨final, ends, procedure⟩ := ofMethod_ends program declaring method body limits
  have kept : (ofMethod program declaring method body limits).isKept = true := by
    have chosen : (ofMethod program declaring method body limits).isKept =
      ((ofMethod program declaring method body limits).outcome == .complete ||
        method.isDispose) := rfl
    rw [chosen, complete]
    rfl
  rw [kept, if_pos rfl] at procedure
  generalize ofMethod program declaring method body limits = lowered at *
  rw [complete] at ends
  generalize ended : Outcome.complete = outcome at ends
  cases ends with
  | complete _ turns finished => exact ⟨final, turns, finished, procedure⟩
  | abandoned last _ pending _ turns takesUp =>
    obtain ⟨rest, overdue, -, turned⟩ := takesUp
    exact absurd ended.symm (Walk.turn_outcome_ne_complete turned)

/-! ### Small methods -/

/-- A type without members. -/
def plainType : TypeDef := ⟨"Sample", none, [], [], []⟩

/-- A static method without parameters and result. -/
def plainMethod : MethodDef := ⟨"Run", [], voidName, true, false, none, none⟩

end Lowered

end BytecodeFlow

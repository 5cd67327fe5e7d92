/-
This file says what can be on the operand stacks of a walk. An operation puts
nothing on a stack but temporaries. All else is left there by resolving an
instruction, which pushes a constant or combines values that are there already.
So a property that temporaries and constants have, and that operators keep
(`Routine.Pervades`), holds of all values that a walk keeps anywhere
(`Walk.AllValues`).
-/

import BytecodeFlow.Proofs.Walk.Moves
import BytecodeFlow.Proofs.Walk.Resolution

namespace BytecodeFlow

/-- A property of values that holds of temporaries and of each `Operation.Constant` of a routine,
and that operators keep. -/
structure Routine.Pervades (routine : Routine) (good : Value → Prop) : Prop where
  temporary : ∀ ident typ, good ⟨.var ident, typ⟩
  constant : ∀ offset instruction expr typ, routine.instructionAt? offset = some instruction →
    Operation.Constant instruction expr typ → good ⟨expr, typ⟩
  binary : ∀ operator left right typ, good left → good right →
    good ⟨.binary operator left.expr right.expr, typ⟩
  unary : ∀ operator operand, good operand → good ⟨.unary operator operand.expr, operand.typ⟩

/-! ### Instructions -/

namespace Operation

variable {routine : Routine} {instruction : Instruction} {operation : Operation} {offset : Offset}
  {stack after : List Value} {good : Value → Prop}

theorem Combines.values (combines : Combines instruction stack after)
    (pervades : routine.Pervades good)
    (found : routine.instructionAt? offset = some instruction)
    (values : ∀ value ∈ stack, good value) : ∀ value ∈ after, good value := by
  cases combines with
  | nop => exact values
  | constant pushes =>
    exact List.forall_mem_cons.mpr ⟨pervades.constant _ _ _ _ found pushes, values⟩
  | dup => exact List.forall_mem_cons.mpr ⟨values _ List.mem_cons_self, values⟩
  | pop => exact (List.forall_mem_cons.mp values).2
  | binary | compare =>
    obtain ⟨right, others⟩ := List.forall_mem_cons.mp values
    obtain ⟨left, rest⟩ := List.forall_mem_cons.mp others
    exact List.forall_mem_cons.mpr ⟨pervades.binary _ _ _ _ left right, rest⟩
  | negate | bitNot =>
    obtain ⟨operand, rest⟩ := List.forall_mem_cons.mp values
    exact List.forall_mem_cons.mpr ⟨pervades.unary _ _ operand, rest⟩

theorem Resolves.values (resolves : Resolves routine instruction stack operation after)
    (pervades : routine.Pervades good)
    (found : routine.instructionAt? offset = some instruction)
    (values : ∀ value ∈ stack, good value) : ∀ value ∈ after, good value := by
  rcases resolves.combines_or_suffix with combines | suffix
  · exact combines.values pervades found values
  · exact fun value member => values value (suffix.subset member)

end Operation

/-! ### Walks -/

/-- All values that a waiting path keeps have a property. -/
structure Pending.AllValues (good : Value → Prop) (pending : Pending) : Prop where
  stack : ∀ value ∈ pending.stack, good value
  blockStack : ∀ start stack, pending.continuation = .deferred start stack →
    ∀ value ∈ stack, good value

namespace Walk

/-- All values that a walk keeps have a property. -/
structure AllValues (good : Value → Prop) (walk : Walk) : Prop where
  stack : ∀ value ∈ walk.stack, good value
  blockStack : ∀ value ∈ walk.blockStack, good value
  waiting : ∀ pending ∈ walk.worklist, pending.AllValues good
  recorded : ∀ offset, ∀ record ∈ walk.opened.getD offset [], ∀ value ∈ record.2, good value

variable {routine : Routine} {good : Value → Prop}

theorem Drawn.values {former stack : List Value} (drawn : Drawn former stack)
    (pervades : routine.Pervades good) (values : ∀ value ∈ former, good value) :
    ∀ value ∈ stack, good value := by
  intro value member
  rcases drawn value member with old | ⟨ident, typ, rfl⟩
  · exact values value old
  · exact pervades.temporary ident typ

/-- On a `HandlerStart` there is at most the exception, which is a temporary. -/
theorem HandlerStart.allValues {walk : Walk} {pending : Pending}
    (start : HandlerStart routine walk pending) (pervades : routine.Pervades good) :
    pending.AllValues good := by
  cases start with
  | intoCatch clause entry unwrapped nextStamp =>
    refine ⟨fun value member => ?_, fun _ _ deferred => by cases deferred⟩
    rw [List.mem_singleton.mp member]
    exact pervades.temporary _ _
  | intoFinally =>
    exact ⟨fun _ member => absurd member List.not_mem_nil, fun _ _ deferred => by cases deferred⟩

/-- Every move of `Working` keeps a property that `Pervades` the routine. -/
theorem Working.allValues {base walk : Walk} {own : List NodeIndex}
    (working : Working routine base own walk) (pervades : routine.Pervades good)
    (values : base.AllValues good) : walk.AllValues good := by
  induction working with
  | start => exact values
  | adjust _ _ _ _ _ drawn inductionHypothesis =>
    exact { inductionHypothesis with stack := drawn.values pervades inductionHypothesis.stack }
  | @enter own walk working target handles inductionHypothesis =>
    have equipped := @Equipped.handlerEntry routine walk target
    obtain ⟨pushed, worklist, starts⟩ := equipped.queued
    obtain ⟨_, _, _, _, _, same⟩ := equipped.rest
    rw [same] at worklist ⊢
    refine { inductionHypothesis with waiting := fun pending member => ?_ }
    rw [worklist] at member
    rcases List.mem_append.mp member with new | old
    · exact (starts pending new).allValues pervades
    · exact inductionHypothesis.waiting pending old
  | @record node walk working closed inductionHypothesis =>
    refine { inductionHypothesis with recorded := fun offset record member => ?_ }
    rw [Std.ExtTreeMap.getD_insert] at member
    split at member
    · rcases List.mem_append.mp member with old | new
      · exact inductionHypothesis.recorded _ record old
      · rw [List.mem_singleton.mp new]
        exact inductionHypothesis.blockStack
    · exact inductionHypothesis.recorded offset record member
  | queue _ _ continues drawn inductionHypothesis =>
    have queued := drawn.values pervades inductionHypothesis.stack
    refine ⟨inductionHypothesis.stack, inductionHypothesis.blockStack, List.forall_mem_cons.mpr
      ⟨⟨queued, fun start stack deferred => ?_⟩, inductionHypothesis.waiting⟩,
      inductionHypothesis.recorded⟩
    rw [deferred] at continues
    rcases continues with impossible | ⟨impossible, -⟩ <;> cases impossible
  | place _ _ _ _ inductionHypothesis | fork _ _ _ _ _ inductionHypothesis
  | guard _ _ _ inductionHypothesis | write _ _ _ inductionHypothesis
  | lead _ _ _ inductionHypothesis => exact { inductionHypothesis with }

namespace AllValues

variable {limits : Limits} {before after : Walk} {pending : Pending} {rest : List Pending}
  {outcome : Option Outcome}

theorem arrive (values : before.AllValues good) (waiting : before.worklist = pending :: rest) :
    (before.arrive pending rest).AllValues good := by
  have worklist := values.waiting
  rw [waiting] at worklist
  obtain ⟨taken, others⟩ := List.forall_mem_cons.mp worklist
  refine ⟨taken.stack, ?_, others, values.recorded⟩
  unfold Walk.arrive resume visit
  cases continuation : pending.continuation with
  | newBlock | append => exact taken.stack
  | deferred start stack => exact taken.blockStack start stack continuation

/-- Every turn keeps a property that `Pervades` the routine. -/
theorem takesUp (values : before.AllValues good) (pervades : routine.Pervades good)
    (takesUp : TakesUp routine limits before pending after outcome) : after.AllValues good := by
  obtain ⟨rest, overdue, waiting, turned⟩ := takesUp
  have arrived := values.arrive waiting
  cases turn_turned turned with
  | joined | halted => exact { arrived with }
  | performed instruction resolved outcome fresh valid handled found resolves =>
    have left := (Operation.resolves_of_resolve resolves).values pervades found arrived.stack
    have ready : AllValues good
        ((before.arrive pending rest).ready routine instruction resolved.stack) :=
      { arrived with stack := left }
    rcases perform_working routine ((before.arrive pending rest).ready routine instruction
      resolved.stack) resolved.operation with ⟨own, working⟩ | ⟨closed, next, deferred⟩
    · exact working.allValues pervades ready
    · rw [deferred]
      refine ⟨left, arrived.blockStack, List.forall_mem_cons.mpr
        ⟨⟨left, fun start stack continues => ?_⟩, arrived.waiting⟩, arrived.recorded⟩
      cases continues
      exact arrived.blockStack

end AllValues

end Walk

end BytecodeFlow

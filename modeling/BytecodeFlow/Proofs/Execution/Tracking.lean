/-
This file keeps track of the paths of a walk over a routine without protected
regions (`Tracked`). Their operand stacks use only earlier temporaries. Between
the start of a block and the first operation that needs its node only values on
the operand stack are combined (`Routine.Quiet`), and every node that was
opened for a block was opened by a turn that such a stretch leads to
(`OpenedBy`).
-/

import BytecodeFlow.Proofs.Execution.Operands
import BytecodeFlow.Proofs.Walk.Following
import BytecodeFlow.Proofs.Walk.Unguarded

namespace BytecodeFlow

/-- No instruction of a routine pushes a floating-point constant. -/
def Routine.Floatless (routine : Routine) : Prop :=
  ∀ offset instruction, routine.instructionAt? offset = some instruction →
    instruction.opcode ≠ .ldcR4 ∧ instruction.opcode ≠ .ldcR8

namespace Operation

variable {routine : Routine} {instruction : Instruction} {operation : Operation}
  {stack after : List Value} {bound : Nat}

theorem Combines.tame (combines : Combines instruction stack after)
    (floatless : instruction.opcode ≠ .ldcR4 ∧ instruction.opcode ≠ .ldcR8)
    (tame : TameStack bound stack) : TameStack bound after := by
  cases combines with
  | nop => exact tame
  | constant pushes =>
    refine .cons ?_ tame
    cases pushes with
    | single opcode => exact absurd opcode floatless.1
    | double opcode => exact absurd opcode floatless.2
    | shortInt | int | long | string | null => trivial
  | dup => exact .cons tame.head tame
  | pop => exact tame.tail
  | binary | compare =>
    exact .cons ⟨tame.tail.head, tame.head⟩ tame.tail.tail
  | negate | bitNot => exact .cons tame.head tame.tail

/-- An instruction that `Resolves` leaves values that were on the stack, or combinations of them, so
that a `TameStack` stays one. -/
theorem Resolves.tame (resolves : Resolves routine instruction stack operation after)
    (floatless : instruction.opcode ≠ .ldcR4 ∧ instruction.opcode ≠ .ldcR8)
    (tame : TameStack bound stack) : TameStack bound after := by
  rcases resolves.combines_or_suffix with combines | suffix
  · exact combines.tame floatless tame
  · exact fun value member => tame value (suffix.subset member)

theorem Resolves.combines (resolves : Resolves routine instruction stack .proceed after) :
    Combines instruction stack after := by
  cases resolves with
  | combine combines => exact combines

/-- The arguments of a constructor come from the stack. -/
theorem Resolves.tame_arguments {callee : MethodRef} {arguments : List Value}
    (resolves : Resolves routine instruction stack (.construct callee arguments) after)
    (tame : TameStack bound stack) : TameStack bound arguments := by
  cases resolves with
  | newobj =>
    exact fun value member => tame value (List.mem_append_left _ (List.mem_reverse.mpr member))

end Operation

/-! ### Stretches that only combine values -/

/-- An instruction that only combines values on the operand stack, as `Operation.Combines` says,
leads from one offset and stack to the next. -/
def Routine.Combining (routine : Routine) (first second : Offset × List Value) : Prop :=
  ∃ instruction, routine.instructionAt? first.1 = some instruction ∧
    Operation.Combines instruction first.2 second.2 ∧
    routine.nextOffset? first.1 = some second.1

/-- Any number of steps that are `Combining`. -/
abbrev Routine.Quiet (routine : Routine) : Offset × List Value → Offset × List Value → Prop :=
  Relation.ReflTransGen routine.Combining

/-! ### Waiting paths -/

/-- What holds of a path that waits: it is in no finally, its stack is a `TameStack`, and only
`Quiet` instructions were passed since its block started without a node. -/
structure Pending.Sound (routine : Routine) (pending : Pending) : Prop where
  outside : pending.finallyExit = none
  tame : TameStack pending.nextStamp pending.stack
  deferred : ∀ blockStart blockStack, pending.continuation = .deferred blockStart blockStack →
    TameStack pending.nextStamp blockStack ∧
      routine.Quiet (blockStart, blockStack) (pending.offset, pending.stack)

theorem Routine.pathTo_sound (routine : Routine) {stack : List Value} {nextStamp : Nat}
    (tame : TameStack nextStamp stack) (way : NodeIndex × Offset) :
    (routine.pathTo stack nextStamp way).Sound routine where
  outside := rfl
  tame := tame
  deferred blockStart blockStack continued := by
    simp only [pathTo] at continued
    split at continued <;> cases continued

namespace Walk

variable {routine : Routine} {limits : Limits} {start walk before after : Walk}
  {pending : Pending} {rest : List Pending}

/-- The operand stack after a `Straight` operation is a `TameStack`. -/
theorem Straight.tame {operation : Operation} {commands : List Command} {target : Offset}
    {stack : List Value} {nextStamp : Nat}
    (straight : Straight routine walk operation commands target stack nextStamp)
    (tame : TameStack walk.nextStamp walk.stack) : TameStack nextStamp stack := by
  cases straight with
  | load => exact .cons (Nat.lt_succ_self _) (tame.mono (Nat.le_succ _))
  | store | jump => exact tame
  | invoke =>
    split
    · exact tame.mono (Nat.le_succ _)
    · exact .cons (Nat.lt_succ_self _) (tame.mono (Nat.le_succ _))
  | construct =>
    exact .cons (Nat.lt_add_of_pos_right (by decide)) (tame.mono (Nat.le_add_right _ _))
  | leave => exact fun _ member => absurd member List.not_mem_nil

/-- The paths that an operation queues are `Sound`, if the one that goes on after combining values
is. -/
theorem Performed.queued_sound {operation : Operation}
    (performed : Performed routine walk operation after)
    (tame : TameStack walk.nextStamp walk.stack)
    (proceeding : ∀ next, operation = .proceed → routine.nextOffset? walk.offset = some next →
      (walk.fallThroughTo routine next).Sound routine) :
    ∀ pending ∈ after.worklist, pending ∈ walk.worklist ∨ pending.Sound routine := by
  intro pending member
  cases performed with
  | proceed following =>
    rcases List.mem_cons.mp member with rfl | old
    · exact .inr (proceeding _ rfl following)
    · exact .inl old
  | straight straight written opened worklist =>
    rw [worklist] at member
    rcases List.mem_cons.mp member with rfl | old
    · exact .inr (routine.pathTo_sound (straight.tame tame) _)
    · exact .inl old
  | forking forking following written opened tests worklist =>
    rw [worklist] at member
    rcases List.mem_append.mp member with new | old
    · obtain ⟨way, -, rfl⟩ := List.mem_map.mp new
      exact .inr (routine.pathTo_sound tame way)
    · exact .inl old
  | closing closing written opened ends worklist =>
    rw [worklist] at member
    exact .inl member

/-! ### Turns that perform an operation -/

/-- A turn that performs the operation to which the instruction at an offset `Resolves`. -/
structure Performance (routine : Routine) (limits : Limits) where
  before : Walk
  pending : Pending
  rest : List Pending
  instruction : Instruction
  operation : Operation
  stack : List Value
  after : Walk
  takesUp : TakesUp routine limits before pending after none
  waiting : before.worklist = pending :: rest
  found : routine.instructionAt? pending.offset = some instruction
  resolves : Operation.Resolves routine instruction pending.stack operation stack
  performed : Performed routine ((before.arrive pending rest).ready routine instruction stack)
    operation after

namespace Performance

/-- The walk on which the operation of a `Performance` is performed. -/
def ready (turn : Performance routine limits) : Walk :=
  (turn.before.arrive turn.pending turn.rest).ready routine turn.instruction turn.stack

end Performance

/-- A path joins a node that was opened at its offset with an operand stack that `topAgrees`. -/
def Joins (before : Walk) (pending : Pending) (after : Walk) : Prop :=
  ∃ rest node recorded, before.worklist = pending :: rest ∧ pending.Fresh ∧
    (node, recorded) ∈ before.opened.getD pending.offset [] ∧
    topAgrees recorded pending.stack = true ∧
    after = (before.arrive pending rest).linkPrevious node

theorem hangs_ready (linear : before.Linear []) (waiting : before.worklist = pending :: rest)
    (instruction : Instruction) (stack : List Value) :
    ((before.arrive pending rest).ready routine instruction stack).Hangs := by
  obtain ⟨known, loose, -⟩ := (arrive_underway linear waiting).linear.loose _ List.mem_cons_self
  exact ⟨known, loose⟩

/-- A turn after which the run goes on `Joins` a node, or is a `Performance`. -/
theorem TakesUp.joins_or_performs (takesUp : TakesUp routine limits before pending after none)
    (unguarded : routine.Unguarded) (linear : before.Linear [])
    (outside : pending.finallyExit = none) :
    Joins before pending after ∨ ∃ turn : Performance routine limits,
      turn.before = before ∧ turn.pending = pending ∧ turn.after = after := by
  obtain ⟨rest, -, waiting, turned, -⟩ := takesUp.underway linear
  generalize noOutcome : (none : Option Outcome) = outcome at turned
  cases turned with
  | joined node shared =>
    obtain ⟨current, -, -, recorded, opened, agrees⟩ := reusableNode?_eq_some shared
    exact .inl ⟨rest, node, recorded, waiting, fresh_of_current current, opened, agrees, rfl⟩
  | halted => cases noOutcome
  | performed instruction resolved outcome fresh valid handled found resolves goesOn ends =>
    have performed := performed_of_perform unguarded
      (hangs_ready linear waiting instruction resolved.stack) outside resolved.operation
      (goesOn.mp noOutcome.symm)
    exact .inr ⟨⟨before, pending, rest, instruction, resolved.operation, resolved.stack, _, takesUp,
      waiting, found, Operation.resolves_of_resolve resolves, performed⟩, rfl, rfl, rfl⟩

/-! ### What every walk keeps -/

/-- A record of an opened node: the `Performance` that opened it comes after a `Quiet` stretch from
the start of the block. -/
def OpenedBy (routine : Routine) (limits : Limits) (start walk : Walk) (offset : Offset)
    (record : NodeIndex × List Value) : Prop :=
  ∃ turn : Performance routine limits, Turns routine limits start turn.before ∧
    Turns routine limits turn.after walk ∧ turn.pending.Fresh ∧ turn.operation ≠ .proceed ∧
    record.1 = turn.before.procedure.size ∧ TameStack turn.pending.nextStamp record.2 ∧
    routine.Quiet (offset, record.2) (turn.pending.offset, turn.pending.stack)

/-- What holds of every walk of a run: all waiting paths are `Sound`, and all records of opened
nodes are `OpenedBy` a turn. -/
structure Tracked (routine : Routine) (limits : Limits) (start walk : Walk) : Prop where
  waiting : ∀ pending ∈ walk.worklist, pending.Sound routine
  opened : ∀ offset, ∀ record ∈ walk.opened.getD offset [],
    OpenedBy routine limits start walk offset record

/-- The block of a path starts with a `Quiet` stretch. -/
theorem quiet_arrive (sound : pending.Sound routine)
    (current : (before.arrive pending rest).current = none) :
    TameStack pending.nextStamp (before.arrive pending rest).blockStack ∧
      routine.Quiet ((before.arrive pending rest).blockStart,
        (before.arrive pending rest).blockStack) (pending.offset, pending.stack) := by
  have fresh := fresh_of_current current
  unfold arrive resume visit
  cases continuation : pending.continuation with
  | newBlock => exact ⟨sound.tame, .refl⟩
  | append node => exact absurd continuation (fresh node)
  | deferred blockStart blockStack => exact sound.deferred blockStart blockStack continuation

namespace Performance

variable (turn : Performance routine limits)

theorem takenWaits : turn.pending ∈ turn.before.worklist := turn.takesUp.mem_worklist

theorem tame (floatless : routine.Floatless) (sound : turn.pending.Sound routine) :
    TameStack turn.pending.nextStamp turn.stack :=
  turn.resolves.tame (floatless _ _ turn.found) sound.tame

/-- The path after an instruction that only combines values is `Sound`. -/
theorem fallThroughTo_sound (floatless : routine.Floatless) (sound : turn.pending.Sound routine)
    (proceeds : turn.operation = .proceed) {next : Offset}
    (following : routine.nextOffset? turn.pending.offset = some next) :
    (turn.ready.fallThroughTo routine next).Sound routine := by
  have tame := turn.tame floatless sound
  unfold fallThroughTo
  split
  · exact ⟨sound.outside, tame, fun _ _ continued => by cases continued⟩
  · split
    · exact ⟨sound.outside, tame, fun _ _ continued => by cases continued⟩
    · rename_i current
      change (turn.before.arrive turn.pending turn.rest).current = none at current
      obtain ⟨blockTame, quiet⟩ := quiet_arrive sound current
      refine ⟨sound.outside, tame, ?_⟩
      rintro _ _ ⟨⟩
      have resolves := turn.resolves
      rw [proceeds] at resolves
      exact ⟨blockTame, quiet.tail ⟨_, turn.found, resolves.combines, following⟩⟩

/-- The paths that a `Performance` queues are `Sound`. -/
theorem queues_sound (floatless : routine.Floatless)
    (sound : ∀ pending ∈ turn.before.worklist, pending.Sound routine) :
    ∀ pending ∈ turn.after.worklist, pending.Sound routine := by
  have taken := sound _ turn.takenWaits
  intro pending member
  rcases turn.performed.queued_sound (turn.tame floatless taken)
    (fun _ proceeds => turn.fallThroughTo_sound floatless taken proceeds) pending member
    with old | new
  · refine sound pending ?_
    rw [turn.waiting]
    exact List.mem_cons_of_mem _ old
  · exact new

/-- The nodes that are opened in a turn are those opened before and the one of its block. -/
theorem opens {offset : Offset} {record : NodeIndex × List Value}
    (sound : turn.pending.Sound routine) (member : record ∈ turn.after.opened.getD offset []) :
    record ∈ turn.before.opened.getD offset [] ∨
      (turn.pending.Fresh ∧ turn.operation ≠ .proceed ∧
        record.1 = turn.before.procedure.size ∧ TameStack turn.pending.nextStamp record.2 ∧
        routine.Quiet (offset, record.2) (turn.pending.offset, turn.pending.stack)) := by
  rcases turn.performed.opened_cases with ⟨-, same⟩ | ⟨acts, recorded⟩
  · rw [same] at member
    exact .inl member
  · rw [recorded] at member
    change record ∈ (turn.before.arrive turn.pending turn.rest).recorded.getD offset [] at member
    unfold Walk.recorded at member
    cases current : (turn.before.arrive turn.pending turn.rest).current with
    | some node =>
      rw [current] at member
      exact .inl member
    | none =>
      rw [current] at member
      simp only [Std.ExtTreeMap.getD_insert] at member
      split at member
      · rename_i same
        rw [Std.LawfulEqCmp.eq_of_compare same] at member
        rcases List.mem_append.mp member with old | new
        · exact .inl old
        · cases List.mem_singleton.mp new
          obtain ⟨blockTame, quiet⟩ := quiet_arrive sound current
          rw [Std.LawfulEqCmp.eq_of_compare same] at quiet
          exact .inr ⟨fresh_of_current current, acts, rfl, blockTame, quiet⟩
      · exact .inl member

end Performance

theorem OpenedBy.later {record : NodeIndex × List Value} {offset : Offset}
    (opened : OpenedBy routine limits start before offset record)
    (turns : Turns routine limits before after) :
    OpenedBy routine limits start after offset record := by
  obtain ⟨turn, reached, onward, rest⟩ := opened
  exact ⟨turn, reached, onward.trans turns, rest⟩

theorem tracked_step (unguarded : routine.Unguarded) (floatless : routine.Floatless)
    (linear : before.Linear []) (turns : Turns routine limits start before)
    (tracked : Tracked routine limits start before)
    (takesUp : TakesUp routine limits before pending after none) :
    Tracked routine limits start after := by
  have step : Turns routine limits before after := .single ⟨pending, takesUp⟩
  have waits := takesUp.mem_worklist
  rcases takesUp.joins_or_performs unguarded linear (tracked.waiting pending waits).outside with
    ⟨rest, node, recorded, waiting, -, -, -, rfl⟩ | ⟨turn, rfl, rfl, rfl⟩
  · refine ⟨fun other member => tracked.waiting other ?_,
      fun offset record member => (tracked.opened offset record member).later step⟩
    rw [waiting]
    exact List.mem_cons_of_mem _ member
  · refine ⟨turn.queues_sound floatless tracked.waiting, fun offset record member => ?_⟩
    rcases turn.opens (tracked.waiting _ waits) member with old | new
    · exact (tracked.opened offset record old).later step
    · exact ⟨turn, turns, .refl, new⟩

/-- Every walk of a run is `Tracked`. -/
theorem tracked_of_turns (unguarded : routine.Unguarded) (floatless : routine.Floatless)
    (linear : start.Linear []) (tracked : Tracked routine limits start start)
    (turns : Turns routine limits start walk) : Tracked routine limits start walk := by
  induction turns with
  | refl => exact tracked
  | tail turns turn inductionHypothesis =>
    obtain ⟨pending, takesUp⟩ := turn
    exact tracked_step unguarded floatless (Turns.linear turns linear) turns inductionHypothesis
      takesUp

end Walk

end BytecodeFlow

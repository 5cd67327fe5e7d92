/-
This file shows that every copy of a finally body ends where it has to. A copy
is entered by a leave, which it lets go on to its target, or by an exception,
which it throws again. The context in which a copy was entered (`FinallyExit`)
is carried from path to path as long as control stays in the body, and the end
of the body uses exactly this context (`Routed`).
-/

import BytecodeFlow.Proofs.Lowering.Seeding
import BytecodeFlow.Proofs.Walk.Additions

namespace BytecodeFlow

/-- No instruction in the handler of a finally branches, leaves or falls through to an offset
outside. -/
def Routine.FinalliesClosed (routine : Routine) : Prop :=
  ∀ clause ∈ routine.regions.finallies, ∀ offset instruction,
    clause.handler.contains offset = true → routine.instructionAt? offset = some instruction →
    (∀ target ∈ instruction.branchTargets, clause.handler.contains target = true) ∧
    (instruction.fallsThrough = true → ∀ next, routine.nextOffset? offset = some next →
      clause.handler.contains next = true)

namespace Walk

/-! ### Copies of a finally body -/

/-- A waiting path lies in a copy of the body of the finally clause at a position that was entered
in a context: by a leave to a target, or by an exception that the entry of the clause took out of
the return slot. -/
inductive InCopy (routine : Routine) (limits : Limits) (start : Walk) (position : Nat)
    (clause : FinallyClause) : FinallyExit → Pending → Prop
  | byLeave {before after : Walk} {taken pending : Pending} {instruction : Instruction}
    {target : Offset} (turns : Turns routine limits start before)
    (takesUp : TakesUp routine limits before taken after none)
    (found : routine.instructionAt? taken.offset = some instruction)
    (leaves : instruction.opcode = .leave) (operand : instruction.operand = .target target)
    (runs : routine.regions.finallyForLeave? taken.offset target = some position)
    (queues : Queues before after pending) (starts : pending.offset = clause.handler.start)
    (context : pending.finallyExit = some (.continue target)) :
    InCopy routine limits start position clause (.continue target) pending
  | byException {before after : Walk} {taken pending : Pending} {exception : Ident}
    (turns : Turns routine limits start before)
    (takesUp : TakesUp routine limits before taken after none)
    (queues : Queues before after pending) (starts : pending.offset = clause.handler.start)
    (entered : after.FinallyEntered clause pending.previous exception)
    (context : pending.finallyExit = some (.rethrow exception)) :
    InCopy routine limits start position clause (.rethrow exception) pending
  | onward {before after : Walk} {taken pending : Pending} {exit : FinallyExit}
    (turns : Turns routine limits start before)
    (takesUp : TakesUp routine limits before taken after none)
    (inCopy : InCopy routine limits start position clause exit taken)
    (queues : Queues before after pending)
    (inside : clause.handler.contains pending.offset = true)
    (context : pending.finallyExit = taken.finallyExit) :
    InCopy routine limits start position clause exit pending

variable {routine : Routine} {limits : Limits} {start before after : Walk} {pending : Pending}
  {position : Nat} {clause : FinallyClause}

/-- Every waiting path with a context is `InCopy` of the body of a finally, and an exception that is
thrown again is the one that the entry of the finally takes. -/
def ContextsKept (routine : Routine) (limits : Limits) (start walk : Walk) : Prop :=
  ∀ pending ∈ walk.worklist, ∀ exit, pending.finallyExit = some exit →
    ∃ position clause, routine.regions.finallies[position]? = some clause ∧
      clause.handler.contains pending.offset = true ∧
      InCopy routine limits start position clause exit pending ∧
      ∀ exception, exit = .rethrow exception →
        ∃ entry, walk.FinallyEntered clause entry exception

theorem starts_inside (wellFormed : routine.regions.WellFormed)
    (found : routine.regions.finallies[position]? = some clause) :
    clause.handler.contains clause.handler.start = true := by
  have order := wellFormed.finallies clause (List.mem_of_getElem? found)
  rw [Span.contains_iff]
  exact ⟨Nat.le_refl _, order.2.2⟩

theorem contextsKept_step (wellFormed : routine.regions.WellFormed)
    (closed : routine.FinalliesClosed) (linear : before.Linear [])
    (turns : Turns routine limits start before)
    (takesUp : TakesUp routine limits before pending after none)
    (kept : ContextsKept routine limits start before) :
    ContextsKept routine limits start after := by
  have grows := takesUp.outgrows linear
  intro queued member exit context
  rcases takesUp.waits member with old | ⟨queues, handler | ⟨instruction, found, way⟩⟩
  · obtain ⟨position, clause, isFinally, inside, inCopy, taken⟩ := kept queued old exit context
    refine ⟨position, clause, isFinally, inside, inCopy, fun exception same => ?_⟩
    obtain ⟨entry, entered⟩ := taken exception same
    exact ⟨entry, entered.mono grows⟩
  · cases handler with
    | intoCatch => cases context
    | intoFinally clause entry exception nextStamp listed entered =>
      cases context
      obtain ⟨position, found⟩ := List.getElem?_of_mem listed
      refine ⟨position, clause, found, starts_inside wellFormed found,
        .byException turns takesUp queues rfl entered rfl, ?_⟩
      rintro _ ⟨⟩
      exact ⟨entry, entered⟩
  · cases way with
    | onward leads keeps =>
      have waiting : pending ∈ before.worklist := by
        obtain ⟨rest, _, waiting, _⟩ := takesUp
        rw [waiting]
        exact List.mem_cons_self
      obtain ⟨position, clause, isFinally, inside, inCopy, taken⟩ :=
        kept pending waiting exit (keeps ▸ context)
      have stays : clause.handler.contains queued.offset = true := by
        obtain ⟨targets, next⟩ :=
          closed clause (List.mem_of_getElem? isFinally) pending.offset instruction inside found
        rcases leads with target | ⟨falls, following⟩
        · exact targets _ target
        · exact next falls _ following
      refine ⟨position, clause, isFinally, stays,
        .onward turns takesUp inCopy queues stays keeps, fun exception same => ?_⟩
      obtain ⟨entry, entered⟩ := taken exception same
      exact ⟨entry, entered.mono grows⟩
    | intoFinally target position clause leaves operand runs isFinally starts exits =>
      cases exits.symm.trans context
      refine ⟨position, clause, isFinally, ?_,
        .byLeave turns takesUp found leaves operand runs queues starts exits, ?_⟩
      · rw [starts]
        exact starts_inside wellFormed isFinally
      · intro exception impossible
        cases impossible
    | afterFinally ends entered outside =>
      rw [outside] at context
      cases context

theorem contextsKept (wellFormed : routine.regions.WellFormed) (closed : routine.FinalliesClosed)
    (linear : start.Linear []) (initial : ∀ pending ∈ start.worklist, pending.finallyExit = none)
    (turns : Turns routine limits start before) : ContextsKept routine limits start before := by
  induction turns with
  | refl =>
    intro pending member exit context
    rw [initial pending member] at context
    cases context
  | tail turns turn inductionHypothesis =>
    obtain ⟨pending, takesUp⟩ := turn
    exact contextsKept_step wellFormed closed (Turns.linear turns linear) turns takesUp
      inductionHypothesis

/-! ### Where no handler is -/

section Unguarded

variable {walk : Walk}

theorem worklist_openNode (unguarded : routine.regions.exceptionTarget? walk.offset = none)
    (kind : NodeKind) : (walk.openNode routine kind).1.worklist = walk.worklist := by
  unfold openNode addBlockNode attachHandler
  split
  · rfl
  · simp only [unguarded]

/-- A jump queues one path, which goes on from the node of the current block. -/
theorem jump_of_unguarded (walk : Walk)
    (unguarded : routine.regions.exceptionTarget? walk.offset = none)
    (target : Offset) :
    ∃ node queued, (walk.jump routine target).current = some node ∧
      (walk.jump routine target).worklist = queued :: walk.worklist ∧ queued.offset = target ∧
      queued.previous = node ∧
      (queued.continuation = .append node ∨ queued.continuation = .newBlock) ∧
      queued.finallyExit = walk.finallyExit := by
  refine ⟨(walk.openNode routine .join).2, _, current_openNode routine walk .join,
    congrArg (_ :: ·) (worklist_openNode unguarded .join), rfl, rfl, ?_,
    finallyExit_openNode routine walk .join⟩
  dsimp only [snapshot]
  split
  · exact .inr rfl
  · exact .inl rfl

/-- A throw puts the exception into the return slot and goes to the sink. -/
theorem raise_of_unguarded {base : Walk} (underway : base.Underway walk [walk.owner])
    (unguarded : routine.regions.exceptionTarget? walk.offset = none) (exception : Value) :
    ∃ node, (walk.raise routine exception).current = some node ∧
      (walk.raise routine exception).worklist = walk.worklist ∧
      (walk.raise routine exception).procedure.successorsOf node = [Procedure.sink] ∧
      (walk.raise routine exception).procedure.commandsOf node =
        (walk.openNode routine .statement).1.procedure.commandsOf node ++
          [.store .returnSlot (.thrown exception.expr) exception.typ walk.location] := by
  let command : Command :=
    .store .returnSlot (.thrown exception.expr) exception.typ walk.location
  let emitted := walk.emit routine command
  let node := (walk.openNode routine .statement).2
  have current : emitted.current = some node := current_openNode routine walk .statement
  have opened : emitted.currentNode routine = (emitted, node) := by
    unfold currentNode openNode
    rw [current]
  have nowhere : emitted.exceptionDestination routine = (emitted, Procedure.sink) := by
    have added : Adds routine (fun _ => True) walk emitted := .emit walk command
    have offset : emitted.offset = walk.offset := added.offset
    unfold exceptionDestination
    rw [offset, unguarded]
  have raised : walk.raise routine exception =
      { emitted with procedure := emitted.procedure.link node Procedure.sink } := by
    unfold raise
    simp only [opened, nowhere, emitted, command]
  have owned : emitted.owner = node := by
    unfold owner
    rw [current]
    rfl
  obtain ⟨known, closed, -⟩ :=
    (underway.emit routine command).linear.loose emitted.owner List.mem_cons_self
  rw [owned] at known closed
  have openedKnown : node < (walk.openNode routine .statement).1.procedure.size := by
    rwa [← Procedure.size_append _ node [command]]
  rw [raised]
  refine ⟨node, current, worklist_openNode unguarded .statement, ?_, ?_⟩
  · rw [Procedure.successorsOf_link_self known (by rw [closed]; exact List.not_mem_nil), closed]
    rfl
  · rw [Procedure.commandsOf_link]
    exact Procedure.commandsOf_append_self openedKnown [command]

end Unguarded

/-! ### The end of a body -/

/-- How a turn goes on from the end of the body of a finally. The node that holds the end is the
current one of the turn. -/
inductive Routed (routine : Routine) (limits : Limits) (start : Walk) (position : Nat)
    (clause : FinallyClause) (before : Walk) (pending : Pending) (after : Walk) : Prop
  /-- The copy was entered by a leave, and the only path that is queued leads to its target. -/
  | continues (node : NodeIndex) (target : Offset) (queued : Pending)
    (holds : after.current = some node)
    (context : pending.finallyExit = some (.continue target))
    (inCopy : InCopy routine limits start position clause (.continue target) pending)
    (only : after.worklist = queued :: before.worklist.tail) (leads : queued.offset = target)
    (follows : queued.previous = node)
    (continued : queued.continuation = .append node ∨ queued.continuation = .newBlock)
    (outside : queued.finallyExit = none)
  /-- The copy was entered by an exception, which the entry of the clause took and which is thrown
  again; the node leads to the sink and nowhere else. -/
  | rethrows (node entry : NodeIndex) (exception : Ident) (location : Location)
    (holds : after.current = some node)
    (context : pending.finallyExit = some (.rethrow exception))
    (inCopy : InCopy routine limits start position clause (.rethrow exception) pending)
    (entered : after.FinallyEntered clause entry exception)
    (stores : (after.procedure.commandsOf node).getLast? =
      some (.store .returnSlot (.thrown (.var exception)) .object location))
    (only : after.worklist = before.worklist.tail)
    (leads : ∀ later, Turns routine limits after later →
      later.procedure.successorsOf node = [Procedure.sink])

theorem routed_of_endfinally (wellFormed : routine.regions.WellFormed)
    (disjoint : groupsAreDisjoint routine.regions.catches routine.regions.finallies = true)
    (contexts : ContextsKept routine limits start before) (linear : before.Linear [])
    (takesUp : TakesUp routine limits before pending after none) {instruction : Instruction}
    (found : routine.instructionAt? pending.offset = some instruction)
    (ends : instruction.opcode = .endfinally)
    (isFinally : routine.regions.finallies[position]? = some clause)
    (inside : clause.handler.contains pending.offset = true) :
    Routed routine limits start position clause before pending after := by
  have unguarded := Regions.exceptionTarget?_of_finally wellFormed disjoint isFinally inside
  have grows := takesUp.outgrows linear
  have ended := takesUp.linear linear
  obtain ⟨rest, left, waiting, turned, -, -⟩ := takesUp.underway linear
  have inOrder := arrive_underway linear waiting
  have tail : before.worklist.tail = rest := by
    rw [waiting]
    rfl
  have member : pending ∈ before.worklist := by
    rw [waiting]
    exact List.mem_cons_self
  cases turned with
  | joined node shared =>
    obtain ⟨-, -, outside, -⟩ := reusableNode?_eq_some shared
    have handler := Regions.isHandlerOffset_of_finally wellFormed disjoint isFinally inside
    exact absurd (handler.symm.trans outside) (by decide)
  | performed actual resolved _ fresh valid handled actualFound resolves goesOn _ =>
    cases actualFound.symm.trans found
    obtain rfl : (⟨.endFinally, (before.arrive pending rest).stack⟩ : Resolved) = resolved := by
      unfold Operation.resolve at resolves
      rw [ends] at resolves
      cases resolves
      rfl
    let ready := (before.arrive pending rest).ready routine instruction
      (before.arrive pending rest).stack
    have performed : ready.perform routine .endFinally = ready.endFinally routine := rfl
    have context : ready.finallyExit = pending.finallyExit := rfl
    cases exit? : pending.finallyExit with
    | none =>
      rw [performed, endFinally, context, exit?] at goesOn
      exact absurd (goesOn.mp rfl) (Option.some_ne_none _)
    | some exit =>
      obtain ⟨other, otherClause, otherFound, otherInside, inCopy, taken⟩ :=
        contexts pending member exit exit?
      cases Regions.finally_of_contains wellFormed disjoint otherFound isFinally otherInside inside
      cases otherFound.symm.trans isFinally
      cases exit with
      | «continue» target =>
        have routed : ready.perform routine .endFinally =
            jump { ready with stack := [], finallyExit := none } routine target := by
          rw [performed, endFinally, context, exit?]
        obtain ⟨node, queued, current, worklist, leads, follows, continued, outside⟩ :=
          jump_of_unguarded { ready with stack := [], finallyExit := none } unguarded target
        rw [← routed] at current worklist
        exact .continues node target queued current exit? inCopy (by rw [tail]; exact worklist)
          leads follows continued outside
      | rethrow exception =>
        have routed : ready.perform routine .endFinally =
            raise { ready with finallyExit := none } routine ⟨.var exception, .object⟩ := by
          rw [performed, endFinally, context, exit?]
        obtain ⟨entry, entered⟩ := taken exception rfl
        have cleared : (before.arrive pending rest).Underway { ready with finallyExit := none }
            [ready.owner] := inOrder.of_fields rfl rfl rfl rfl rfl rfl
        obtain ⟨node, current, worklist, leads, commands⟩ :=
          raise_of_unguarded cleared unguarded ⟨.var exception, .object⟩
        rw [← routed] at current worklist leads commands
        refine .rethrows node entry exception ready.location current exit? inCopy
          (entered.mono grows) ?_ (by rw [tail]; exact worklist) fun later further => ?_
        · rw [commands]
          exact List.getLast?_concat ..
        · have closed : (ready.perform routine .endFinally).procedure.successorsOf node ≠ [] := by
            rw [leads]
            exact List.cons_ne_nil _ _
          rw [Procedure.successorsOf_congr (Turns.kept_of_closed further ended closed)]
          exact leads

end Walk

namespace Lowered

variable {program : Program} {declaring : TypeDef} {method : MethodDef} {body : MethodBody}
  {limits : Limits}

/-- The end of a finally body routes control by the context in which its copy was entered
(`Walk.Routed`): after a leave to the target of the leave, and after an exception to the sink with
the exception that the entry took. -/
theorem endfinally_routes (wellFormed : ∀ entry ∈ body.handlers, entry.WellFormed)
    (valid : (Routine.ofBody declaring.name method body).regions.valid = true)
    (closed : (Routine.ofBody declaring.name method body).FinalliesClosed)
    {before after : Walk} {pending : Pending} {instruction : Instruction} {position : Nat}
    {clause : FinallyClause}
    (turns : Walk.Turns (Routine.ofBody declaring.name method body) limits
      (seeded program declaring method body) before)
    (takesUp : Walk.TakesUp (Routine.ofBody declaring.name method body) limits before pending after
      none)
    (found : (Routine.ofBody declaring.name method body).instructionAt? pending.offset =
      some instruction)
    (ends : instruction.opcode = .endfinally)
    (isFinally : (Routine.ofBody declaring.name method body).regions.finallies[position]? =
      some clause)
    (inside : clause.handler.contains pending.offset = true) :
    Walk.Routed (Routine.ofBody declaring.name method body) limits
      (seeded program declaring method body) position clause before pending after := by
  have linear := seeded_linear program declaring method
    (code_of_takesUp turns takesUp)
  have ordered : (Routine.ofBody declaring.name method body).regions.WellFormed :=
    Regions.wellFormed_analyze wellFormed body.instructions
  exact Walk.routed_of_endfinally ordered (Regions.groupsAreDisjoint_of_valid valid)
    (Walk.contextsKept ordered closed linear (fun _ => seeded_contexts) turns)
    (Walk.Turns.linear turns linear) takesUp found ends isFinally inside

/-- A body that leaves a protected region, whose finally does nothing. -/
def leavingBody : MethodBody where
  locals := []
  instructions :=
    [⟨0, "leave", .target 2, none⟩, ⟨1, "endfinally", .none, none⟩, ⟨2, "ret", .none, none⟩]
  handlers := [⟨.finally, 0, 1, some 1, some 2, none⟩]

def leavingRoutine : Routine := .ofBody plainType.name plainMethod leavingBody

theorem leavingRoutine_closed : leavingRoutine.FinalliesClosed := by
  have finallies : leavingRoutine.regions.finallies = [⟨⟨0, 1⟩, ⟨1, 2⟩⟩] := by decide +kernel
  have ending : leavingRoutine.instructionAt? 1 = some ⟨1, "endfinally", .none, none⟩ := by
    decide +kernel
  intro clause member offset instruction inside found
  rw [finallies] at member
  cases List.mem_singleton.mp member
  have only : offset = 1 := by
    obtain ⟨least, most⟩ := Span.contains_iff.mp inside
    exact UInt32.toNat_inj.mp (Nat.le_antisymm (Nat.le_of_lt_succ most) least)
  subst only
  cases ending.symm.trans found
  refine ⟨fun target member => ?_, fun falls => ?_⟩
  · cases member
  · exact absurd falls (by decide)

/-- The first turn over the body enters the finally by the leave, and the next one ends it. -/
theorem endfinally_routes_leaving :
    ∃ after, Walk.Routed leavingRoutine .standard (seeded .empty plainType plainMethod leavingBody)
      0 ⟨⟨0, 1⟩, ⟨1, 2⟩⟩
      ((seeded .empty plainType plainMethod leavingBody).afterTurns leavingRoutine .standard 1)
      ⟨1, 3, [], 1, .newBlock, some (.continue 2)⟩ after := by
  let before := (seeded .empty plainType plainMethod leavingBody).afterTurns leavingRoutine
    .standard 1
  have waiting : before.worklist.head? = some ⟨1, 3, [], 1, .newBlock, some (.continue 2)⟩ := by
    decide +kernel
  have goesOn : (before.nextTurn leavingRoutine .standard).2 = none := by decide +kernel
  have takesUp := goesOn ▸ Walk.takesUp_nextTurn leavingRoutine .standard waiting
  exact ⟨_, endfinally_routes (by decide +kernel) (by decide +kernel) leavingRoutine_closed
    (Walk.turns_afterTurns ..) takesUp
    (show leavingRoutine.instructionAt? 1 = some ⟨1, "endfinally", .none, none⟩ by decide +kernel)
    (by decide +kernel) (by decide +kernel) (by decide +kernel)⟩

end Lowered

end BytecodeFlow

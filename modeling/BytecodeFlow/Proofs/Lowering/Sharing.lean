/-
This file proves that no node is opened where one could be shared. A path looks
for a node when its block starts, but the node of the block is recorded only
when something is first emitted, which may be many instructions later. Until
then the path is always the next one to be taken up: blocks that have no node
yet wait at the head of the worklist and nowhere else (`Unrecorded`). So what
was not there when the path looked is still not there when its node is recorded
(`Sparing`).
-/

import BytecodeFlow.Proofs.Lowering.Seeding
import BytecodeFlow.Proofs.Walk.Moves

namespace BytecodeFlow

/-! ### Operand stacks that agree -/

theorem Const.agrees_refl (const : Const) : const.agrees const = true := by
  cases const with
  | float number => simp [agrees, Binary64.sameValue]
  | _ => exact beq_self_eq_true _

theorem Expr.agrees_refl (expr : Expr) : expr.agrees expr = true := by
  induction expr with
  | const const => exact const.agrees_refl
  | _ => simp [agrees, *]

theorem Value.agrees_refl (value : Value) : value.agrees value = true := by
  simp [agrees, Expr.agrees_refl]

namespace Walk

/-- An operand stack is the top part of another: `Value.agrees` holds value by value. Stacks have
their top first. -/
def IsTopOf (recorded stack : List Value) : Prop :=
  ∃ top, top <+: stack ∧
    List.Forall₂ (fun left right : Value => left.agrees right = true) recorded top

theorem topAgrees_iff {recorded stack : List Value} :
    topAgrees recorded stack = true ↔ IsTopOf recorded stack := by
  induction recorded generalizing stack with
  | nil => exact iff_of_true rfl ⟨[], List.nil_prefix, .nil⟩
  | cons value recorded inductionHypothesis =>
    cases stack with
    | nil =>
      refine iff_of_false Bool.false_ne_true ?_
      rintro ⟨top, within, agree⟩
      rw [List.prefix_nil.mp within] at agree
      cases agree
    | cons first stack =>
      rw [topAgrees, Bool.and_eq_true, inductionHypothesis]
      constructor
      · rintro ⟨agrees, top, within, agree⟩
        exact ⟨first :: top, List.prefix_cons_inj first |>.mpr within, .cons agrees agree⟩
      · rintro ⟨top, within, agree⟩
        cases agree with
        | @cons _ other _ top agrees agree =>
          obtain ⟨rfl, shorter⟩ := List.cons_prefix_cons.mp within
          exact ⟨agrees, top, shorter, agree⟩

theorem topAgrees_self (stack : List Value) : topAgrees stack stack = true := by
  induction stack with
  | nil => rfl
  | cons value stack inductionHypothesis =>
    rw [topAgrees, value.agrees_refl, inductionHypothesis]
    rfl

/-! ### What is recorded -/

variable {routine : Routine} {limits : Limits}

/-- The current block, which has no node, could not share a node of its start. -/
def Unrecorded (routine : Routine) (walk : Walk) (start : Offset) (stack : List Value) : Prop :=
  routine.regions.isHandlerOffset start = false →
    ∀ record ∈ walk.opened.getD start [], topAgrees record.2 stack = false

/-- No node is recorded that could have shared an earlier one. Blocks without a node wait at the
head of the worklist only, and are `Unrecorded`. -/
structure Sparing (routine : Routine) (walk : Walk) : Prop where
  apart : ∀ offset, routine.regions.isHandlerOffset offset = false →
    (walk.opened.getD offset []).Pairwise fun earlier later => topAgrees earlier.2 later.2 = false
  next : ∀ pending ∈ walk.worklist.head?, ∀ start stack,
    pending.continuation = .deferred start stack → Unrecorded routine walk start stack
  later : ∀ pending ∈ walk.worklist.tail, ∀ start stack,
    pending.continuation ≠ .deferred start stack

namespace Working

variable {base walk : Walk} {own : List NodeIndex}

/-- An operation records at most one node, for the current block. -/
theorem opened (working : Working routine base own walk) :
    walk.opened = base.opened ∧ walk.current = base.current ∨
      base.current = none ∧ ∃ node, walk.current = some node ∧
        walk.opened = base.opened.insert base.blockStart
          (base.opened.getD base.blockStart [] ++ [(node, base.blockStack)]) := by
  induction working with
  | start => exact .inl ⟨rfl, rfl⟩
  | @enter own walk working target handles inductionHypothesis =>
    obtain ⟨_, _, _, _, _, same⟩ := (@Equipped.handlerEntry routine walk target).rest
    rw [same]
    exact inductionHypothesis
  | @record node walk working closed inductionHypothesis =>
    obtain ⟨_, _, _, _, _, _, _, _, _, same⟩ := working.rest
    rcases inductionHypothesis with ⟨opened, current⟩ | ⟨_, _, current, _⟩
    · refine .inr ⟨current.symm.trans closed, node, rfl, ?_⟩
      dsimp only
      rw [opened, same]
    · rw [closed] at current
      cases current
  | adjust _ _ _ _ _ _ inductionHypothesis | place _ _ _ _ inductionHypothesis
  | fork _ _ _ _ _ inductionHypothesis | guard _ _ _ inductionHypothesis
  | write _ _ _ inductionHypothesis | lead _ _ _ inductionHypothesis
  | queue _ _ _ _ inductionHypothesis => exact inductionHypothesis

/-- An operation queues no path whose block has no node yet. -/
theorem queued (working : Working routine base own walk) :
    ∃ pushed, walk.worklist = pushed ++ base.worklist ∧
      ∀ pending ∈ pushed, ∀ start stack, pending.continuation ≠ .deferred start stack := by
  induction working with
  | start => exact ⟨[], rfl, fun _ member => absurd member List.not_mem_nil⟩
  | @enter own walk working target handles inductionHypothesis =>
    obtain ⟨pushed, worklist, plain⟩ := inductionHypothesis
    obtain ⟨more, grown, starts⟩ := (@Equipped.handlerEntry routine walk target).queued
    refine ⟨more ++ pushed, by rw [grown, worklist, List.append_assoc], fun pending member => ?_⟩
    rcases List.mem_append.mp member with new | old
    · intro start stack deferred
      cases starts pending new <;> cases deferred
    · exact plain pending old
  | @queue own walk working pending follows continues drawn inductionHypothesis =>
    obtain ⟨pushed, worklist, plain⟩ := inductionHypothesis
    refine ⟨pending :: pushed, by rw [Walk.queue, worklist]; rfl, fun other member => ?_⟩
    rcases List.mem_cons.mp member with rfl | old
    · intro start stack deferred
      rcases continues with new | ⟨append, _⟩
      · cases new.symm.trans deferred
      · cases append.symm.trans deferred
    · exact plain other old
  | adjust _ _ _ _ _ _ inductionHypothesis | place _ _ _ _ inductionHypothesis
  | record _ _ inductionHypothesis | fork _ _ _ _ _ inductionHypothesis
  | guard _ _ _ inductionHypothesis | write _ _ _ inductionHypothesis
  | lead _ _ _ inductionHypothesis => exact inductionHypothesis

end Working

/-! ### One turn -/

section Turn

variable {before after : Walk} {pending : Pending} {rest : List Pending}
  {outcome : Option Outcome}

/-- A path that starts a block outside of handlers shares the first node whose recorded stack
`topAgrees`. -/
theorem reusableNode?_arrive (rest : List Pending) (begins : pending.continuation = .newBlock)
    (outside : routine.regions.isHandlerOffset pending.offset = false) :
    (before.arrive pending rest).reusableNode? routine =
      ((before.opened.getD pending.offset []).find? fun record =>
        topAgrees record.2 pending.stack).map Prod.fst := by
  unfold arrive resume visit reusableNode?
  simp only [begins, outside, Option.isSome_none, bne_self_eq_false, Bool.or_self,
    Bool.false_eq_true, if_false]

/-- A path that finds no node to share has a block that is `Unrecorded`. -/
theorem Sparing.unrecorded (sparing : Sparing routine before)
    (waiting : before.worklist = pending :: rest)
    (fresh : (before.arrive pending rest).reusableNode? routine = none)
    (closed : (before.arrive pending rest).current = none) :
    Unrecorded routine before (before.arrive pending rest).blockStart
      (before.arrive pending rest).blockStack := by
  cases continuation : pending.continuation with
  | newBlock =>
    have begins : (before.arrive pending rest).blockStart = pending.offset ∧
        (before.arrive pending rest).blockStack = pending.stack := by
      unfold arrive resume visit
      rw [continuation]
      exact ⟨rfl, rfl⟩
    rw [begins.1, begins.2]
    intro outside record member
    rw [reusableNode?_arrive rest continuation outside, Option.map_eq_none_iff] at fresh
    exact Bool.eq_false_iff.mpr (List.find?_eq_none.mp fresh record member)
  | append node =>
    unfold arrive resume visit at closed
    rw [continuation] at closed
    cases closed
  | deferred start stack =>
    have goesOn : (before.arrive pending rest).blockStart = start ∧
        (before.arrive pending rest).blockStack = stack := by
      unfold arrive resume visit
      rw [continuation]
      exact ⟨rfl, rfl⟩
    rw [goesOn.1, goesOn.2]
    exact sparing.next pending (by rw [waiting]; rfl) start stack continuation

/-- What becomes of the records of an offset: nothing, or one is added for the current block. -/
theorem Worked.records {arrived : Walk} (worked : Worked routine arrived after) (offset : Offset) :
    after.opened.getD offset [] = arrived.opened.getD offset [] ∨
      arrived.reusableNode? routine = none ∧ arrived.current = none ∧
        arrived.blockStart = offset ∧ ∃ node, after.opened.getD offset [] =
          arrived.opened.getD offset [] ++ [(node, arrived.blockStack)] := by
  cases worked with
  | joined | halted | deferred => exact .inl rfl
  | performed location stack own after fresh working =>
    rcases working.opened with ⟨same, -⟩ | ⟨closed, node, -, added⟩
    · exact .inl (by rw [same])
    · rw [added, Std.ExtTreeMap.getD_insert]
      by_cases here : arrived.blockStart = offset
      · subst here
        refine .inr ⟨fresh, closed, rfl, node, if_pos ?_⟩
        exact Std.ReflCmp.compare_self
      · exact .inl (if_neg fun same => here (Std.LawfulEqCmp.eq_of_compare same))

theorem TakesUp.records_prefix (takesUp : TakesUp routine limits before pending after outcome)
    (offset : Offset) : before.opened.getD offset [] <+: after.opened.getD offset [] := by
  obtain ⟨rest, -, worked⟩ := takesUp.worked
  rcases worked.records offset with same | ⟨-, -, -, node, added⟩
  · rw [same]
    exact List.prefix_refl _
  · rw [added]
    exact List.prefix_append _ _

/-- Every turn keeps a walk `Sparing`. -/
theorem Sparing.takesUp (sparing : Sparing routine before)
    (takesUp : TakesUp routine limits before pending after outcome) : Sparing routine after := by
  obtain ⟨rest, waiting, worked⟩ := takesUp.worked
  have settled : ∀ other ∈ rest, ∀ start stack, other.continuation ≠ .deferred start stack := by
    intro other member
    refine sparing.later other ?_
    rw [waiting]
    exact member
  have apart : ∀ offset, routine.regions.isHandlerOffset offset = false →
      (after.opened.getD offset []).Pairwise fun earlier later =>
        topAgrees earlier.2 later.2 = false := by
    intro offset outside
    rcases worked.records offset with same | ⟨fresh, closed, rfl, node, added⟩
    · rw [same]
      exact sparing.apart offset outside
    · rw [added, List.pairwise_append]
      refine ⟨sparing.apart _ outside, List.pairwise_singleton .., fun earlier old last new => ?_⟩
      rw [List.mem_singleton.mp new]
      exact sparing.unrecorded waiting fresh closed outside earlier old
  cases worked with
  | joined | halted =>
    exact ⟨apart, fun other head start stack deferred =>
      absurd deferred (settled other (List.mem_of_mem_head? head) start stack),
      fun other member => settled other (List.mem_of_mem_tail member)⟩
  | deferred location stack next fresh closed =>
    refine ⟨apart, fun other head start blockStack deferred => ?_, settled⟩
    cases head
    cases deferred
    exact sparing.unrecorded waiting fresh closed
  | performed location stack own after fresh working =>
    obtain ⟨pushed, worklist, plain⟩ := working.queued
    have none : ∀ other ∈ after.worklist, ∀ start stack,
        other.continuation ≠ .deferred start stack := by
      intro other member
      rw [worklist] at member
      rcases List.mem_append.mp member with new | old
      · exact plain other new
      · exact settled other old
    exact ⟨apart, fun other head start stack deferred =>
      absurd deferred (none other (List.mem_of_mem_head? head) start stack),
      fun other member => none other (List.mem_of_mem_tail member)⟩

end Turn

theorem Turns.records_prefix {walk before : Walk} (turns : Turns routine limits walk before)
    (offset : Offset) : walk.opened.getD offset [] <+: before.opened.getD offset [] := by
  induction turns with
  | refl => exact List.prefix_refl _
  | tail _ turn inductionHypothesis =>
    obtain ⟨pending, takesUp⟩ := turn
    exact inductionHypothesis.trans (takesUp.records_prefix offset)

end Walk

namespace Lowered

variable {program : Program} {declaring : TypeDef} {method : MethodDef} {body : MethodBody}
  {limits : Limits}

/-- At first nothing is recorded, and the only waiting path starts a block. -/
theorem seeded_sparing :
    (seeded program declaring method body).Sparing (Routine.ofBody declaring.name method body) := by
  have begins : ∀ pending ∈ (seeded program declaring method body).worklist, ∀ start stack,
      pending.continuation ≠ .deferred start stack := by
    intro pending member start stack deferred
    obtain ⟨first, -, -, rfl⟩ := mem_seeded_worklist member
    cases deferred
  refine ⟨fun offset _ => ?_, fun pending head start stack deferred => ?_,
    fun pending member => begins pending (List.mem_of_mem_tail member)⟩
  · rw [opened_seeded, Std.ExtTreeMap.getD_empty]
    exact .nil
  · exact absurd deferred (begins pending (List.mem_of_mem_head? head) start stack)

/-- Outside of handlers, no node is ever recorded at an offset whose start shows, on top of its
operand stack, the stack of a node recorded there before (`Walk.IsTopOf`). A path that starts a
block there with such a stack joins the first such node: the run goes on with one edge more, and
nothing else is added. -/
theorem blocks_share_first_agreeing {offset : Offset}
    (outside : (Routine.ofBody declaring.name method body).regions.isHandlerOffset offset =
      false) :
    (∀ walk, Walk.Reached (Routine.ofBody declaring.name method body) limits
        (seeded program declaring method body) walk →
      (walk.opened.getD offset []).Pairwise fun earlier later =>
        ¬ Walk.IsTopOf earlier.2 later.2 ∧ earlier.2 ≠ later.2) ∧
    ∀ walk before after pending outcome earlier node recorded later,
      Walk.Turns (Routine.ofBody declaring.name method body) limits
        (seeded program declaring method body) walk →
      Walk.Turns (Routine.ofBody declaring.name method body) limits walk before →
      Walk.TakesUp (Routine.ofBody declaring.name method body) limits before pending after
        outcome →
      pending.offset = offset → pending.continuation = .newBlock →
      walk.opened.getD offset [] = earlier ++ (node, recorded) :: later →
      (∀ record ∈ earlier, ¬ Walk.IsTopOf record.2 pending.stack) →
      Walk.IsTopOf recorded pending.stack →
      outcome = none ∧ after.worklist = before.worklist.tail ∧ after.opened = before.opened ∧
        after.entries = before.entries ∧
        after.procedure = before.procedure.link pending.previous node ∧
        after.procedure.size = before.procedure.size ∧
        (∀ index, after.procedure.commandsOf index = before.procedure.commandsOf index) ∧
        before.procedure.successorsOf pending.previous = [] ∧
        after.procedure.successorsOf pending.previous = [node] := by
  constructor
  · intro walk reached
    have sparing := reached.keep (Walk.Sparing (Routine.ofBody declaring.name method body))
      (fun holds takesUp => holds.takesUp takesUp) seeded_sparing
    refine (sparing.apart offset outside).imp fun {earlier later} differ => ⟨fun top => ?_, ?_⟩
    · rw [Walk.topAgrees_iff.mpr top] at differ
      cases differ
    · intro same
      rw [same, Walk.topAgrees_self] at differ
      cases differ
  · rintro walk before after pending outcome earlier node recorded later toWalk turns takesUp rfl
      begins records skipped top
    have linear := Walk.Turns.linear (toWalk.trans turns)
      (seeded_linear program declaring method (code_of_takesUp (toWalk.trans turns) takesUp))
    obtain ⟨more, grown⟩ := Walk.Turns.records_prefix turns pending.offset
    obtain ⟨rest, overdue, waiting, turned⟩ := takesUp
    have shared : (before.arrive pending rest).reusableNode?
        (Routine.ofBody declaring.name method body) = some node := by
      rw [Walk.reusableNode?_arrive rest begins outside, ← grown, records, List.append_assoc,
        List.find?_append]
      have passed : (earlier.find? fun record => Walk.topAgrees record.2 pending.stack) = none :=
        List.find?_eq_none.mpr fun record member agrees =>
          skipped record member (Walk.topAgrees_iff.mp agrees)
      rw [passed, Option.none_or, List.cons_append,
        List.find?_cons_of_pos (by exact Walk.topAgrees_iff.mpr top)]
      rfl
    rw [Walk.turn_of_shared shared] at turned
    cases turned
    obtain ⟨known, closed, -, -⟩ := linear.loose pending.previous (by
      unfold Walk.looseEnds
      rw [waiting]
      exact List.mem_cons_self)
    refine ⟨rfl, by rw [waiting]; rfl, rfl, rfl, rfl, Procedure.size_link .., fun index => ?_,
      closed, ?_⟩
    · exact Procedure.commandsOf_link ..
    · show (before.procedure.link pending.previous node).successorsOf pending.previous = [node]
      rw [Procedure.successorsOf_link_self known (by rw [closed]; exact List.not_mem_nil), closed]
      rfl

/-- A loop whose head emits nothing until the jump back. -/
def backwardBody : MethodBody where
  locals := []
  instructions :=
    [⟨0, "ldc.i4.1", .none, none⟩, ⟨1, "pop", .none, none⟩, ⟨2, "br", .target 0, none⟩]
  handlers := []

def backwardRoutine : Routine := .ofBody plainType.name plainMethod backwardBody

/-- The node of the loop is recorded three turns after its block started, and the jump back to
its head then leads to it. -/
theorem blocks_share_first_agreeing_backward :
    ∃ after : Walk, after.worklist = [] ∧ after.procedure.size = 4 ∧
      after.procedure.successorsOf 3 = [3] := by
  let walk := (seeded .empty plainType plainMethod backwardBody).afterTurns backwardRoutine
    .standard 3
  have waiting : walk.worklist.head? = some ⟨0, 3, [], 0, .newBlock, none⟩ := by decide +kernel
  have records : walk.opened.getD 0 [] = [] ++ (3, []) :: [] := by decide +kernel
  have outside : backwardRoutine.regions.isHandlerOffset 0 = false := by decide +kernel
  obtain ⟨-, joins⟩ := @blocks_share_first_agreeing .empty plainType plainMethod backwardBody
    .standard 0 outside
  obtain ⟨-, worklist, -, -, -, size, -, -, leads⟩ := joins walk walk _ _ _ [] 3 [] []
    (Walk.turns_afterTurns ..) .refl (Walk.takesUp_nextTurn backwardRoutine .standard waiting) rfl
    rfl records (fun _ member => absurd member List.not_mem_nil) ⟨[], List.nil_prefix, .nil⟩
  exact ⟨_, worklist.trans (by decide +kernel), size.trans (by decide +kernel), leads⟩

end Lowered

end BytecodeFlow

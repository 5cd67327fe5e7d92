/-
This file proves that what is lowered for the code of handlers is never shared
(`CopiesApart`). Each time a path enters a handler it gets nodes of its own, to
each of which exactly one edge leads. Several edges lead only to the exit, the
sink, the entries of handlers, and nodes opened for blocks outside of handlers.
-/

import BytecodeFlow.Proofs.Lowering.Seeding
import BytecodeFlow.Proofs.Walk.Entering

namespace BytecodeFlow

namespace Walk

/-- How often normal edges lead to the nodes of a procedure: once to a prune and to a node that
`Records` keeps for code in a handler, and several times only to the exit, the sink, entries of
handlers and nodes for other code. -/
structure CopiesApart (routine : Routine) (walk : Walk) (procedure : Procedure) : Prop where
  copies : ∀ offset node, routine.regions.isHandlerOffset offset = true →
    walk.Records offset node → procedure.indegree node = 1
  prunes : ∀ index branch kind, procedure.kind? index = some (.prune branch kind) →
    procedure.indegree index = 1
  several : ∀ index, 2 ≤ procedure.indegree index →
    index = Procedure.exit ∨ index = Procedure.sink ∨ procedure.kind? index = some .handler ∨
      ∃ offset, routine.regions.isHandlerOffset offset = false ∧ walk.Records offset index

namespace Entered

variable {routine : Routine} {walk : Walk}

/-- A node that is added for code and is not `Sharable` has `indegree` one. -/
theorem indegree_eq_one (entered : Entered routine walk) {index : NodeIndex} {kind : NodeKind}
    (found : walk.procedure.kind? index = some kind) (inner : kind.IsInner)
    (alone : ∀ offset, routine.regions.isHandlerOffset offset = false →
      ¬ walk.Records offset index) : walk.procedure.indegree index = 1 := by
  refine Nat.le_antisymm (Nat.le_of_not_lt fun many => ?_)
    (entered.atLeastOne index kind found inner)
  rcases entered.several index many with rfl | rfl | handler | ⟨offset, outside, recorded⟩
  · cases found.symm.trans entered.exitKind
    exact inner
  · cases found.symm.trans entered.sinkKind
    exact inner
  · cases found.symm.trans handler
    exact inner
  · exact alone offset outside recorded

theorem copiesApart (entered : Entered routine walk) :
    CopiesApart routine walk walk.procedure where
  copies offset node inside recorded := by
    have alone : ∀ other, routine.regions.isHandlerOffset other = false →
        ¬ walk.Records other node := by
      intro other outside again
      rw [entered.apart other offset node again recorded, inside] at outside
      cases outside
    rcases entered.records offset node recorded with kind | kind
    · exact entered.indegree_eq_one kind trivial alone
    · exact entered.indegree_eq_one kind trivial alone
  prunes index branch kind found := by
    refine entered.indegree_eq_one found trivial fun offset _ recorded => ?_
    rcases entered.records offset index recorded with other | other
    · cases found.symm.trans other
    · cases found.symm.trans other
  several := entered.several

end Entered

/-- `Procedure.finish` adds edges to the exit, which may be shared. -/
theorem CopiesApart.finish {routine : Routine} {walk : Walk} {procedure : Procedure}
    (apart : CopiesApart routine walk procedure)
    (exitKind : procedure.kind? Procedure.exit = some .exit)
    (records : ∀ offset node, walk.Records offset node → node ≠ Procedure.exit) :
    CopiesApart routine walk procedure.finish where
  copies offset node inside recorded := by
    rw [Procedure.indegree_finish (records offset node recorded)]
    exact apart.copies offset node inside recorded
  prunes index branch kind found := by
    rw [Procedure.kind?_finish] at found
    rw [Procedure.indegree_finish]
    · exact apart.prunes index branch kind found
    · rintro rfl
      cases found.symm.trans exitKind
  several index many := by
    rw [Procedure.kind?_finish]
    by_cases isExit : index = Procedure.exit
    · exact .inl isExit
    · rw [Procedure.indegree_finish isExit] at many
      exact apart.several index many

end Walk

namespace Lowered

variable {program : Program} {declaring : TypeDef} {method : MethodDef} {body : MethodBody}
  {limits : Limits}

theorem entered_begin (routine : Routine) (id : Nat) (signature : Signature) (firstNodeId : Nat) :
    (Walk.begin (.begin id signature firstNodeId)).Entered routine := by
  have unused : ∀ index, (Procedure.begin id signature firstNodeId).indegree index = 0 := by
    intro index
    refine Procedure.indegree_eq_zero fun source => ?_
    rw [Procedure.successorsOf_begin]
    exact List.not_mem_nil
  have unrecorded : ∀ offset node,
      ¬ (Walk.begin (.begin id signature firstNodeId)).Records offset node := by
    rintro offset node ⟨stack, member⟩
    have nothing : (Walk.begin (.begin id signature firstNodeId)).opened.getD offset [] = [] :=
      Std.ExtTreeMap.getD_empty
    rw [nothing] at member
    cases member
  refine ⟨rfl, rfl, ?_, ?_, ?_, ?_, ?_, ?_, ?_⟩
  · intro source target edge
    rw [show (Walk.begin (.begin id signature firstNodeId)).procedure.successorsOf source = [] from
      Procedure.successorsOf_begin ..] at edge
    cases edge
  · intro index kind found inner
    obtain rfl | rfl | rfl := Procedure.kind_of_begin found
    all_goals exact inner.elim
  · intro index many
    rw [show (Walk.begin (.begin id signature firstNodeId)).procedure.indegree index = 0 from
      unused index] at many
    exact absurd many (by decide)
  · intro start entry found
    have nothing : (Walk.begin (.begin id signature firstNodeId)).entries[start]? = none :=
      Std.ExtTreeMap.getElem?_empty
    rw [nothing] at found
    cases found
  · exact fun offset node recorded => absurd recorded (unrecorded offset node)
  · exact fun first second node recorded => absurd recorded (unrecorded first node)
  · intro offset
    rw [show (Walk.begin (.begin id signature firstNodeId)).opened.getD offset [] = [] from
      Std.ExtTreeMap.getD_empty]
    exact List.nodup_nil

theorem seeded_entered (routine : Routine) :
    (seeded program declaring method body).Entered routine := by
  have begun := entered_begin routine program.nextProcedureId (signatureOf declaring method body)
    program.nextNodeId
  have prepared : (prepared program declaring method body).1.Entered routine := by
    unfold prepared constructorPrologue
    dsimp only
    split
    · exact begun
    · exact (begun.addNode_link rfl (Nat.succ_pos 2)).of_fields rfl rfl rfl
  unfold seeded Walk.seed
  split
  · exact prepared.of_fields rfl rfl rfl
  · exact prepared

/-- Wherever the run over a method comes, its walk is `Entered`. -/
theorem entered_of_reached {walk : Walk}
    (reached : Walk.Reached (Routine.ofBody declaring.name method body) limits
      (seeded program declaring method body) walk) :
    walk.Entered (Routine.ofBody declaring.name method body) := by
  have step : ∀ {before after : Walk} {pending : Pending} {outcome : Option Outcome},
      Walk.Turns (Routine.ofBody declaring.name method body) limits
        (seeded program declaring method body) before →
      before.Entered (Routine.ofBody declaring.name method body) →
      Walk.TakesUp (Routine.ofBody declaring.name method body) limits before pending after
        outcome → after.Entered (Routine.ofBody declaring.name method body) := by
    intro before after pending outcome turns entered takesUp
    have linear := seeded_linear program declaring method (code_of_takesUp turns takesUp)
    exact entered.takesUp (Walk.Turns.linear turns linear) takesUp
  have all : ∀ {before : Walk}, Walk.Turns (Routine.ofBody declaring.name method body) limits
      (seeded program declaring method body) before →
      before.Entered (Routine.ofBody declaring.name method body) := by
    intro before turns
    induction turns with
    | refl => exact seeded_entered _
    | tail turns turn inductionHypothesis =>
      obtain ⟨pending, takesUp⟩ := turn
      exact step turns inductionHypothesis takesUp
  rcases reached with turns | ⟨last, pending, outcome, turns, takesUp⟩
  · exact all turns
  · exact step turns (all turns) takesUp

/-- In every walk that the run over a method comes to, and in the procedure that it results in,
`Walk.CopiesApart` holds: one edge leads to each node that was opened for a block in a handler, and
one to each prune. Two or more edges lead only to the exit, the sink, entries of handlers, and nodes
opened for blocks outside of handlers. -/
theorem handler_copies_unshared (program : Program) (declaring : TypeDef) (method : MethodDef)
    (body : MethodBody) (limits : Limits) :
    (∀ walk, Walk.Reached (Routine.ofBody declaring.name method body) limits
        (seeded program declaring method body) walk →
      walk.CopiesApart (Routine.ofBody declaring.name method body) walk.procedure) ∧
    Walk.CopiesApart (Routine.ofBody declaring.name method body)
      (Walk.run (Routine.ofBody declaring.name method body) limits limits.iterations
        (seeded program declaring method body)).1
      (ofMethod program declaring method body limits).procedure := by
  refine ⟨fun walk reached => (entered_of_reached reached).copiesApart, ?_⟩
  have entered := entered_of_reached (Walk.run_ends limits.iterations
    (rfl : Walk.run (Routine.ofBody declaring.name method body) limits limits.iterations
      (seeded program declaring method body) = _)).reached
  have kept : (ofMethod program declaring method body limits).procedure =
      if (ofMethod program declaring method body limits).isKept then
        (Walk.run (Routine.ofBody declaring.name method body) limits limits.iterations
          (seeded program declaring method body)).1.procedure.finish
      else (Walk.run (Routine.ofBody declaring.name method body) limits limits.iterations
        (seeded program declaring method body)).1.procedure := rfl
  rw [kept]
  split
  · refine entered.copiesApart.finish entered.exitKind fun offset node recorded same => ?_
    rcases entered.records offset node recorded with kind | kind
    · cases kind.symm.trans (same ▸ entered.exitKind)
    · cases kind.symm.trans (same ▸ entered.exitKind)
  · exact entered.copiesApart

end Lowered

end BytecodeFlow

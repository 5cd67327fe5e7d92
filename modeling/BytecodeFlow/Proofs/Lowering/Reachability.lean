/-
This file proves that the procedure of a method has no orphans, whether the
method was lowered completely or given up on the way: everything but the exit
and the sink is `Reachable` from the start. Exceptions go to the sink or to the
entry of a handler.
-/

import BytecodeFlow.Proofs.Lowering.Branching
import BytecodeFlow.Proofs.Lowering.Guarding
import BytecodeFlow.Proofs.Walk.Descent

namespace BytecodeFlow

namespace Lowered

theorem prepared_rooted (program : Program) (declaring : TypeDef) (method : MethodDef)
    (body : MethodBody) : (prepared program declaring method body).1.procedure.Rooted := by
  have begun := Procedure.rooted_begin program.nextProcedureId (signatureOf declaring method body)
    program.nextNodeId
  unfold prepared constructorPrologue
  dsimp only
  split
  · exact begun
  · refine begun.sprouts ((Procedure.Sprouts.addNode _ ?_).adopt_link ?_)
    · rfl
    · exact ⟨Nat.succ_pos 2, by decide, by decide⟩

theorem seeded_rooted (program : Program) (declaring : TypeDef) (method : MethodDef)
    (body : MethodBody) : (seeded program declaring method body).Rooted where
  rooted := by
    rw [procedure_seeded]
    exact prepared_rooted program declaring method body
  apart := seeded_entriesApart

theorem rooted_of_ends {program : Program} {declaring : TypeDef} {method : MethodDef}
    {body : MethodBody} {limits : Limits} {final : Walk} {outcome : Outcome}
    (ends : Walk.Ends (Routine.ofBody declaring.name method body) limits
      (seeded program declaring method body) final outcome) : final.procedure.Rooted := by
  by_cases code : body.instructions = []
  · have nothing : (seeded program declaring method body).worklist = [] := by
      rw [seeded_of_nil code]
      exact (prepared_linear program declaring method body).2
    rw [ends.of_worklist_nil nothing]
    exact (seeded_rooted program declaring method body).rooted
  · exact (ends.rooted (seeded_linear program declaring method code)
      (seeded_rooted program declaring method body)).rooted

/-- Whatever comes out, every node of the procedure of a method but the exit and the sink is
`Reachable` from the start, and the exceptions of every node but the start and the sink go to the
sink or to the entry of a handler. -/
theorem ofMethod_reachable (program : Program) (declaring : TypeDef) (method : MethodDef)
    (body : MethodBody) (limits : Limits) :
    let procedure := (ofMethod program declaring method body limits).procedure
    (∀ index < procedure.nodes.size, index ≠ Procedure.exit → index ≠ Procedure.sink →
      procedure.Reachable index) ∧
    ∀ source target, source ≠ Procedure.start → source ≠ Procedure.sink →
      target ∈ procedure.exceptionsOf source →
      target = Procedure.sink ∨ procedure.kind? target = some .handler := by
  intro procedure
  obtain ⟨final, ends, built⟩ := ofMethod_ends program declaring method body limits
  have rooted := rooted_of_ends ends
  have chosen : procedure = final.procedure.finish ∨ procedure = final.procedure := by
    rw [show procedure = _ from built]
    split
    · exact .inl rfl
    · exact .inr rfl
  rcases chosen with same | same <;> rw [same]
  · exact ⟨fun index known notExit notSink => rooted.reachable_finish ⟨known, notExit, notSink⟩,
      fun source target notStart notSink edge => rooted.receives_finish notStart notSink edge⟩
  · exact ⟨fun index known notExit notSink => rooted.reachable ⟨known, notExit, notSink⟩,
      fun source target _ _ edge => rooted.receives source target edge⟩

/-- A method that is given up after two turns: its graph is cut off behind the entry of a catch, but
the way on which the exception is missed can be reached, through the exceptions of the node that the
catch guards. -/
theorem ofMethod_reachable_straddling :
    let lowered := ofMethod .empty plainType plainMethod straddlingBody ⟨1, 2⟩
    (∃ remaining, lowered.outcome = .abandoned .timeout remaining) ∧
    (lowered.procedure.nodes.size = 7 ∧ lowered.procedure.Reachable 6) ∧
    (4 ∈ lowered.procedure.exceptionsOf 3 ∧ lowered.procedure.kind? 4 = some .handler) := by
  intro lowered
  obtain ⟨reachable, received⟩ :=
    ofMethod_reachable .empty plainType plainMethod straddlingBody ⟨1, 2⟩
  have size : lowered.procedure.nodes.size = 7 := by decide +kernel
  have guarded : 4 ∈ lowered.procedure.exceptionsOf 3 := by decide +kernel
  refine ⟨⟨7, by decide +kernel⟩, ⟨size, ?_⟩, guarded, ?_⟩
  · exact reachable 6 (size ▸ (by decide)) (by decide) (by decide)
  · exact (received 3 4 (by decide) (by decide) guarded).resolve_left (by decide)

end Lowered

end BytecodeFlow

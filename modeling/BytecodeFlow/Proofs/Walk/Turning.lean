/-
This file follows the loose ends of a walk through whole runs. A turn takes up
the path that waits after one node, and changes no node but this one and those
that it adds; when the run goes on, the walk is `Linear` again: every loose end
is one after which exactly one path waits. So a node that has a way out is
never changed again.
-/

import BytecodeFlow.Proofs.Walk.Performing
import BytecodeFlow.Proofs.Walk.Turns

namespace BytecodeFlow

namespace Walk

variable {routine : Routine} {limits : Limits} {before after : Walk} {pending : Pending}
  {rest : List Pending} {outcome : Option Outcome}

/-! ### One turn -/

/-- A turn that has a current node from its start continues this node. -/
theorem continuation_of_arrive {node : NodeIndex}
    (current : (before.arrive pending rest).current = some node) :
    pending.continuation = .append node := by
  unfold arrive resume visit at current
  cases continuation : pending.continuation with
  | newBlock =>
    rw [continuation] at current
    cases current
  | append other =>
    rw [continuation] at current
    cases current
    rfl
  | deferred blockStart blockStack =>
    rw [continuation] at current
    cases current

/-- A path that is taken up has the node that it follows in hand. -/
theorem arrive_underway (linear : before.Linear [])
    (waiting : before.worklist = pending :: rest) :
    (before.arrive pending rest).Underway (before.arrive pending rest)
      [(before.arrive pending rest).owner] := by
  have taken : (before.arrive pending rest).Linear [pending.previous] :=
    (linear.take waiting).of_fields rfl rfl rfl rfl
  have continued : ∀ node, (before.arrive pending rest).current = some node →
      node = pending.previous := fun node current =>
    linear.appends pending (by rw [waiting]; exact List.mem_cons_self) node
      (continuation_of_arrive current)
  have owns : (before.arrive pending rest).owner = pending.previous := by
    unfold owner
    cases current : (before.arrive pending rest).current with
    | none => rfl
    | some node => exact continued node current
  rw [owns]
  exact .start taken continued

/-- A node that `reusableNode?` gives was opened at the offset, for a block that starts there, with
an operand stack that `topAgrees` with the current one. -/
theorem reusableNode?_eq_some {walk : Walk} {node : NodeIndex}
    (shared : walk.reusableNode? routine = some node) :
    walk.current = none ∧ walk.blockStart = walk.offset ∧
      routine.regions.isHandlerOffset walk.offset = false ∧
      ∃ recorded, (node, recorded) ∈ walk.opened.getD walk.offset [] ∧
        topAgrees recorded walk.stack = true := by
  unfold reusableNode? at shared
  split at shared
  · cases shared
  · rename_i plain
    simp only [Bool.or_eq_true, Option.isSome_iff_ne_none, ne_eq, bne_iff_ne, not_or, not_not,
      Bool.not_eq_true] at plain
    obtain ⟨⟨current, starts⟩, outside⟩ := plain
    obtain ⟨⟨found, recorded⟩, first, rfl⟩ := Option.map_eq_some_iff.mp shared
    have agrees := List.find?_some first
    exact ⟨current, starts, outside, recorded, List.mem_of_find?_eq_some first, agrees⟩

/-- After a turn that was `Underway` nothing is in hand, if the run goes on. -/
theorem Turned.underway {arrived : Walk} (start : arrived.Underway arrived [arrived.owner])
    (turned : Turned routine pending.offset arrived after outcome) :
    ∃ left, arrived.Underway after left ∧ (outcome = none → left = []) := by
  cases turned with
  | joined node shared =>
    obtain ⟨current, -, -, recorded, opened, -⟩ := reusableNode?_eq_some shared
    rw [owner, current] at start
    exact ⟨[], start.join (start.linear.opened _ _ opened), fun _ => rfl⟩
  | halted location reason remaining =>
    exact ⟨_, start.of_fields rfl rfl rfl rfl rfl rfl, fun impossible => by cases impossible⟩
  | performed instruction resolved outcome fresh valid handled found resolves goesOn ends =>
    have ready : arrived.Underway (arrived.ready routine instruction resolved.stack)
        [(arrived.ready routine instruction resolved.stack).owner] :=
      start.of_fields rfl rfl rfl rfl rfl rfl
    obtain ⟨left, underway, settled⟩ := ready.perform routine resolved.operation
    exact ⟨left, underway, fun goes => settled (goesOn.mp goes)⟩

namespace TakesUp

theorem underway (takesUp : TakesUp routine limits before pending after outcome)
    (linear : before.Linear []) :
    ∃ rest left, before.worklist = pending :: rest ∧
      Turned routine pending.offset (before.arrive pending rest) after outcome ∧
      (before.arrive pending rest).Underway after left ∧ (outcome = none → left = []) := by
  obtain ⟨rest, overdue, waiting, turned⟩ := takesUp
  obtain ⟨left, underway, settled⟩ :=
    (turn_turned turned).underway (arrive_underway linear waiting)
  exact ⟨rest, left, waiting, turn_turned turned, underway, settled⟩

theorem linear (takesUp : TakesUp routine limits before pending after none)
    (linear : before.Linear []) : after.Linear [] := by
  obtain ⟨rest, left, -, -, underway, settled⟩ := takesUp.underway linear
  rw [settled rfl] at underway
  exact underway.linear

/-- A turn changes no node that was there but the one that its path follows. -/
theorem kept (takesUp : TakesUp routine limits before pending after outcome)
    (linear : before.Linear []) {index : NodeIndex} (known : index < before.procedure.size)
    (other : index ≠ pending.previous) :
    after.procedure.node? index = before.procedure.node? index := by
  obtain ⟨rest, left, -, -, underway, -⟩ := takesUp.underway linear
  exact underway.others index known other

/-- A node with a way out is not changed. -/
theorem kept_of_closed (takesUp : TakesUp routine limits before pending after outcome)
    (linear : before.Linear []) {index : NodeIndex}
    (closed : before.procedure.successorsOf index ≠ []) :
    after.procedure.node? index = before.procedure.node? index := by
  obtain ⟨rest, left, waiting, -, underway, -⟩ := takesUp.underway linear
  refine underway.others index ?_ ?_
  · by_contra beyond
    exact closed (Procedure.successorsOf_of_size_le (Nat.le_of_not_lt beyond))
  · rintro rfl
    refine closed (linear.loose _ ?_).2.1
    unfold looseEnds
    rw [waiting]
    exact List.mem_cons_self

theorem outgrows (takesUp : TakesUp routine limits before pending after outcome)
    (linear : before.Linear []) : after.Outgrows before := by
  obtain ⟨rest, left, -, -, underway, -⟩ := takesUp.underway linear
  refine ⟨?_, underway.entriesKept⟩
  intro index node found
  have known := Procedure.node?_isSome.mp ⟨node, found⟩
  by_cases own : index = pending.previous
  · subst own
    obtain ⟨commands, successors, led, -⟩ := underway.own node found
    exact ⟨_, led, rfl, List.prefix_append _ _, List.prefix_append _ _⟩
  · exact ⟨node, (underway.others index known own).trans found, .refl node⟩

end TakesUp

/-! ### Runs -/

namespace Turns

/-- Where no path waits there is no turn. -/
theorem of_worklist_nil (turns : Turns routine limits before after)
    (nothing : before.worklist = []) : after = before := by
  induction turns with
  | refl => rfl
  | tail _ turn inductionHypothesis =>
    obtain ⟨pending, rest, overdue, waiting, -⟩ := turn
    rw [inductionHypothesis, nothing] at waiting
    cases waiting

theorem linear (turns : Turns routine limits before after) (linear : before.Linear []) :
    after.Linear [] :=
  turns.keep (fun walk => walk.Linear []) (fun kept takesUp => takesUp.linear kept)
    linear

theorem outgrows (turns : Turns routine limits before after) (linear : before.Linear []) :
    after.Outgrows before := by
  induction turns with
  | refl => exact .refl _
  | tail turns turn inductionHypothesis =>
    obtain ⟨pending, takesUp⟩ := turn
    exact inductionHypothesis.trans (takesUp.outgrows (Turns.linear turns linear))

theorem kept_of_closed (turns : Turns routine limits before after) (linear : before.Linear [])
    {index : NodeIndex} (closed : before.procedure.successorsOf index ≠ []) :
    after.procedure.node? index = before.procedure.node? index := by
  induction turns with
  | refl => rfl
  | tail turns turn inductionHypothesis =>
    obtain ⟨pending, takesUp⟩ := turn
    rw [← inductionHypothesis]
    refine takesUp.kept_of_closed (Turns.linear turns linear) ?_
    rw [Procedure.successorsOf_congr inductionHypothesis]
    exact closed

end Turns

end Walk

end BytecodeFlow

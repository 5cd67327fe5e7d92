/-
This file follows a waiting path through a run that leaves no path waiting. It
is taken up in a turn of its own; until then the node that it follows is not
changed. A path that does not continue the block of this node (`Pending.Fresh`)
never adds a command to it, so what the node holds when the path is queued is
what it holds in the end.
-/

import BytecodeFlow.Proofs.Walk.Turning

namespace BytecodeFlow

/-- A path does not continue the block of a node. -/
def Pending.Fresh (pending : Pending) : Prop :=
  ∀ node, pending.continuation ≠ .append node

namespace Walk

variable {routine : Routine} {limits : Limits} {walk before after final : Walk}
  {pending other : Pending} {rest : List Pending}

theorem current_of_fresh (before : Walk) (rest : List Pending) (fresh : pending.Fresh) :
    (before.arrive pending rest).current = none := by
  cases current : (before.arrive pending rest).current with
  | none => rfl
  | some node => exact absurd (continuation_of_arrive current) (fresh node)

theorem fresh_of_current (current : (before.arrive pending rest).current = none) :
    pending.Fresh := by
  intro node continued
  unfold arrive resume visit at current
  rw [continued] at current
  cases current

theorem current_of_append (before : Walk) (rest : List Pending) {node : NodeIndex}
    (continued : pending.continuation = .append node) :
    (before.arrive pending rest).current = some node := by
  unfold arrive resume visit
  rw [continued]

theorem Linear.loose_of_waiting (linear : walk.Linear []) (waits : pending ∈ walk.worklist) :
    pending.previous < walk.procedure.size ∧
      walk.procedure.successorsOf pending.previous = [] ∧
      pending.previous ≠ Procedure.exit ∧ pending.previous ≠ Procedure.sink :=
  linear.loose _ (List.mem_map_of_mem waits)

/-- Two waiting paths follow different nodes. -/
theorem Linear.previous_ne (linear : walk.Linear []) (waiting : walk.worklist = pending :: rest)
    (waits : other ∈ rest) : other.previous ≠ pending.previous := by
  have distinct := linear.distinct
  unfold looseEnds at distinct
  rw [waiting] at distinct
  intro same
  exact (List.nodup_cons.mp distinct).1 (same ▸ List.mem_map_of_mem waits)

theorem TakesUp.mem_worklist {outcome : Option Outcome}
    (takesUp : TakesUp routine limits before pending after outcome) :
    pending ∈ before.worklist := by
  obtain ⟨rest, overdue, waiting, -⟩ := takesUp
  rw [waiting]
  exact List.mem_cons_self

/-- A path that is not taken up waits on, and the node that it follows is not changed. -/
theorem TakesUp.waits_on (takesUp : TakesUp routine limits before pending after none)
    (linear : before.Linear []) (waits : other ∈ before.worklist) (untouched : other ≠ pending) :
    other ∈ after.worklist ∧
      after.procedure.node? other.previous = before.procedure.node? other.previous := by
  obtain ⟨rest, left, waiting, -, underway, -⟩ := takesUp.underway linear
  rw [waiting] at waits
  rcases List.mem_cons.mp waits with same | later
  · exact absurd same untouched
  obtain ⟨pushed, worklist, -⟩ := underway.queued
  have known := (linear.loose_of_waiting (by rw [waiting]; exact waits)).1
  refine ⟨?_, takesUp.kept linear known (linear.previous_ne waiting later)⟩
  rw [worklist]
  exact List.mem_append_right _ later

/-- Every waiting path is taken up in one of the `Turns` until none waits. -/
theorem Turns.takenUp (turns : Turns routine limits walk final) (finished : final.worklist = [])
    (linear : walk.Linear []) (waits : pending ∈ walk.worklist) :
    ∃ before after, Turns routine limits walk before ∧
      TakesUp routine limits before pending after none ∧ Turns routine limits after final ∧
      before.procedure.node? pending.previous = walk.procedure.node? pending.previous := by
  induction turns using Relation.ReflTransGen.head_induction_on with
  | refl =>
    rw [finished] at waits
    cases waits
  | @head walk next turn rest inductionHypothesis =>
    obtain ⟨first, takesUp⟩ := turn
    by_cases same : pending = first
    · subst same
      exact ⟨walk, next, .refl, takesUp, rest, rfl⟩
    · obtain ⟨waitsOn, kept⟩ := takesUp.waits_on linear waits same
      obtain ⟨before, after, reached, takes, ends, unchanged⟩ :=
        inductionHypothesis (takesUp.linear linear) waitsOn
      exact ⟨before, after, .head ⟨first, takesUp⟩ reached, takes, ends, unchanged.trans kept⟩

/-- A `Fresh` path that is taken up adds no command to the node that it follows. If the node gets no
way out, another `Fresh` path waits after it. -/
theorem TakesUp.fresh (takesUp : TakesUp routine limits before pending after none)
    (linear : before.Linear []) (fresh : pending.Fresh) :
    after.procedure.commandsOf pending.previous = before.procedure.commandsOf pending.previous ∧
      (after.procedure.successorsOf pending.previous ≠ [] ∨
        ∃ next ∈ after.worklist, next.previous = pending.previous ∧ next.Fresh) := by
  obtain ⟨rest, left, waiting, -, underway, settled⟩ := takesUp.underway linear
  rw [settled rfl] at underway
  obtain ⟨known, -, notExit, notSink⟩ := linear.loose_of_waiting takesUp.mem_worklist
  have current : (before.arrive pending rest).current = none :=
    current_of_fresh before rest fresh
  obtain ⟨node, found⟩ := Procedure.node?_isSome.mpr known
  obtain ⟨commands, successors, led, quiet⟩ := underway.own node found
  refine ⟨?_, ?_⟩
  · change after.procedure.node? pending.previous = _ at led
    rw [Procedure.commandsOf, Procedure.commandsOf, led, found, quiet current]
    exact List.append_nil _
  · by_cases closed : after.procedure.successorsOf pending.previous = []
    · right
      have stillKnown := Nat.lt_of_lt_of_le known underway.grown
      obtain ⟨next, member, follows⟩ := List.mem_map.mp
        (underway.linear.whole _ stillKnown notExit notSink closed)
      refine ⟨next, member, follows, ?_⟩
      obtain ⟨pushed, worklist, own⟩ := underway.queued
      rw [worklist] at member
      rcases List.mem_append.mp member with new | old
      · exact (own next new).2 follows current
      · exact absurd follows (linear.previous_ne waiting old)
    · exact .inl closed

/-- What a node holds when a `Fresh` path after it waits is what it holds in the end. -/
theorem Turns.commandsOf_followed (turns : Turns routine limits walk final)
    (linear : walk.Linear []) (waits : pending ∈ walk.worklist) (fresh : pending.Fresh) :
    final.procedure.commandsOf pending.previous = walk.procedure.commandsOf pending.previous := by
  induction turns using Relation.ReflTransGen.head_induction_on generalizing pending with
  | refl => rfl
  | @head walk next turn rest inductionHypothesis =>
    obtain ⟨first, takesUp⟩ := turn
    have stillLinear := takesUp.linear linear
    by_cases same : pending = first
    · subst same
      obtain ⟨commands, ⟨closed⟩ | ⟨onward, member, follows, freshStill⟩⟩ :=
        takesUp.fresh linear fresh
      · rw [← commands]
        exact Procedure.commandsOf_congr (Turns.kept_of_closed rest stillLinear closed)
      · rw [← commands, ← follows]
        exact inductionHypothesis stillLinear member freshStill
    · obtain ⟨waitsOn, kept⟩ := takesUp.waits_on linear waits same
      rw [← Procedure.commandsOf_congr kept]
      exact inductionHypothesis stillLinear waitsOn fresh

end Walk

end BytecodeFlow

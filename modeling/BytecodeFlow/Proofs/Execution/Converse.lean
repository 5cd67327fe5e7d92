/-
This file goes the other way: an execution of the procedure that reaches the
exit comes from an execution of the routine. The ways out of a node are tested
by opposite conditions, so an execution that reaches the exit has no choice,
and it passes through every `Point` that the stack machine leads to. The
machine makes only finitely many transitions without a `Step` of the procedure,
since each of them leads to a later turn or closer to a node that was joined.
-/

import BytecodeFlow.Proofs.Execution.Simulation

namespace BytecodeFlow

variable {V W : Type}

namespace Procedure

variable {interpretation : Interpretation V W} {procedure : Procedure}

/-! ### Executions that reach the exit -/

/-- An execution reaches the exit in a number of `Step`s, and leaves a store there. -/
inductive Arrives (interpretation : Interpretation V W) (procedure : Procedure)
    (store : Store V W) : Nat → Point V W → Prop
  | here : Arrives interpretation procedure store 0 ⟨exit, 0, store⟩
  | step {count : Nat} {point next : Point V W}
    (step : procedure.Step interpretation point next)
    (arrives : Arrives interpretation procedure store count next) :
    Arrives interpretation procedure store (count + 1) point

theorem arrives_of_steps {store : Store V W} {point : Point V W}
    (steps : procedure.Steps interpretation point ⟨exit, 0, store⟩) :
    ∃ count, Arrives interpretation procedure store count point := by
  induction steps using Relation.ReflTransGen.head_induction_on with
  | refl => exact ⟨0, .here⟩
  | head step _ inductionHypothesis =>
    obtain ⟨count, arrives⟩ := inductionHypothesis
    exact ⟨count + 1, .step step arrives⟩

theorem Arrives.steps {store : Store V W} {count : Nat} {point : Point V W}
    (arrives : Arrives interpretation procedure store count point) :
    procedure.Steps interpretation point ⟨exit, 0, store⟩ := by
  induction arrives with
  | here => exact .refl
  | step step _ inductionHypothesis => exact .head step inductionHypothesis

/-- A `Step` leads on from a point that is right before a prune. -/
def Passable (interpretation : Interpretation V W) (procedure : Procedure) (point : Point V W) :
    Prop :=
  procedure.IsPrune point.node → point.position = 0 →
    ∃ next, procedure.Step interpretation point next

/-- A `Step` executes the next command or follows an edge. -/
theorem Step.cases_on_point {point next : Point V W}
    (step : procedure.Step interpretation point next) :
    (∃ command after, (procedure.commandsOf point.node)[point.position]? = some command ∧
        point.store.run? interpretation command = some after ∧
        next = ⟨point.node, point.position + 1, after⟩) ∨
      ∃ target ∈ procedure.successorsOf point.node,
        point.position = (procedure.commandsOf point.node).length ∧
        next = ⟨target, 0, point.store⟩ := by
  cases step with
  | command found runs => exact .inl ⟨_, _, found, runs, rfl⟩
  | edge leads => exact .inr ⟨_, leads, rfl, rfl⟩

theorem Prunes.truth {node : NodeIndex} {condition : Expr} {branch : Bool} {kind : BranchKind}
    (prunes : procedure.Prunes node condition branch kind) {store : Store V W} {next : Point V W}
    (step : procedure.Step interpretation ⟨node, 0, store⟩ next) :
    ∃ value, store.eval? interpretation condition = some value ∧
      interpretation.truth value = true := by
  obtain ⟨-, location, head⟩ := prunes
  rcases step.cases_on_point with ⟨command, after, found, runs, -⟩ | ⟨target, -, atEnd, -⟩
  · rw [← List.head?_eq_getElem?, head] at found
    cases found
    rw [Store.run?] at runs
    cases evaluates : store.eval? interpretation condition with
    | none =>
      rw [evaluates] at runs
      cases runs
    | some value =>
      refine ⟨value, rfl, ?_⟩
      by_contra notTrue
      rw [evaluates] at runs
      simp [notTrue] at runs
  · rw [List.eq_nil_of_length_eq_zero atEnd.symm] at head
    cases head

/-- The two branches of a condition are not both passed. -/
theorem not_both_pass {taken notTaken : NodeIndex} {condition : Expr} {kind : BranchKind}
    (holds : procedure.Prunes taken condition true kind)
    (fails : procedure.Prunes notTaken (.not condition) false kind) {store : Store V W}
    (passes : Passable interpretation procedure ⟨taken, 0, store⟩) :
    ¬ Passable interpretation procedure ⟨notTaken, 0, store⟩ := by
  intro otherPasses
  obtain ⟨next, step⟩ := passes holds.isPrune rfl
  obtain ⟨other, otherStep⟩ := otherPasses fails.isPrune rfl
  obtain ⟨value, evaluates, truth⟩ := holds.truth step
  obtain ⟨negated, otherEvaluates, otherTruth⟩ := fails.truth otherStep
  cases (Expr.eval?_unary evaluates .not).symm.trans otherEvaluates
  rw [interpretation.truth_not, truth] at otherTruth
  cases otherTruth

/-- Of the ways out of a node only one leads to a point that is `Passable`. -/
theorem WellBranched.way_unique (branched : procedure.WellBranched) {node first second : NodeIndex}
    {store : Store V W} (one : first ∈ procedure.successorsOf node)
    (other : second ∈ procedure.successorsOf node)
    (passes : Passable interpretation procedure ⟨first, 0, store⟩)
    (otherPasses : Passable interpretation procedure ⟨second, 0, store⟩) : first = second := by
  have few := branched.atMostTwo node
  have forks := branched.forks node
  cases ways : procedure.successorsOf node with
  | nil =>
    rw [ways] at one
    cases one
  | cons taken rest =>
    cases rest with
    | nil =>
      rw [ways] at one other
      exact (List.mem_singleton.mp one).trans (List.mem_singleton.mp other).symm
    | cons notTaken rest =>
      rw [ways, List.length_cons, List.length_cons] at few
      have noMore : rest = [] := List.eq_nil_of_length_eq_zero (by omega)
      subst noMore
      obtain ⟨condition, kind, holds, fails, -⟩ := forks taken notTaken ways
      rw [ways] at one other
      simp only [List.mem_cons, List.not_mem_nil, or_false] at one other
      rcases one with rfl | rfl <;> rcases other with rfl | rfl
      · rfl
      · exact absurd otherPasses (not_both_pass holds fails passes)
      · exact absurd passes (not_both_pass holds fails otherPasses)
      · rfl

/-- A `Step` to a point that is `Passable` is the only such step. -/
theorem WellBranched.step_unique (branched : procedure.WellBranched)
    {point first second : Point V W} (one : procedure.Step interpretation point first)
    (other : procedure.Step interpretation point second)
    (passes : Passable interpretation procedure first)
    (otherPasses : Passable interpretation procedure second) : first = second := by
  rcases one.cases_on_point with
      ⟨command, after, found, runs, rfl⟩ | ⟨target, leads, atEnd, rfl⟩ <;>
    rcases other.cases_on_point with
      ⟨otherCommand, otherAfter, otherFound, otherRuns, rfl⟩ |
      ⟨otherTarget, otherLeads, otherAtEnd, rfl⟩
  · cases found.symm.trans otherFound
    cases runs.symm.trans otherRuns
    rfl
  · rw [otherAtEnd, List.getElem?_eq_none (Nat.le_refl _)] at found
    cases found
  · rw [atEnd, List.getElem?_eq_none (Nat.le_refl _)] at otherFound
    cases otherFound
  · rw [branched.way_unique leads otherLeads passes otherPasses]

/-- Nothing follows the exit. -/
def ExitEnds (procedure : Procedure) : Prop :=
  procedure.commandsOf exit = [] ∧ procedure.successorsOf exit = [] ∧
    ¬ procedure.IsPrune exit

theorem ExitEnds.no_step (exitEnds : procedure.ExitEnds) {store : Store V W} {next : Point V W} :
    ¬ procedure.Step interpretation ⟨exit, 0, store⟩ next := by
  intro step
  rcases step.cases_on_point with ⟨_, _, found, -⟩ | ⟨_, leads, -⟩
  · change (procedure.commandsOf exit)[0]? = _ at found
    rw [exitEnds.1] at found
    cases found
  · change _ ∈ procedure.successorsOf exit at leads
    rw [exitEnds.2.1] at leads
    cases leads

theorem Arrives.passable {store : Store V W} {count : Nat} {point : Point V W}
    (arrives : Arrives interpretation procedure store count point)
    (exitEnds : procedure.ExitEnds) : Passable interpretation procedure point := by
  cases arrives with
  | here => exact fun prune => absurd prune exitEnds.2.2
  | step step => exact fun _ _ => ⟨_, step⟩

/-- An execution that `Arrives` takes every step to a point that is `Passable`. -/
theorem Arrives.next (branched : procedure.WellBranched) (exitEnds : procedure.ExitEnds)
    {store : Store V W} {point next : Point V W} {count : Nat}
    (arrives : Arrives interpretation procedure store count point)
    (step : procedure.Step interpretation point next)
    (passes : Passable interpretation procedure next) :
    ∃ left < count, Arrives interpretation procedure store left next := by
  cases arrives with
  | here => exact absurd step exitEnds.no_step
  | step otherStep arrives =>
    cases branched.step_unique step otherStep passes (arrives.passable exitEnds)
    exact ⟨_, Nat.lt_succ_self _, arrives⟩

/-- An execution that `Arrives` passes through every `Passable` point to which there are `Steps`. -/
theorem Arrives.later (branched : procedure.WellBranched) (exitEnds : procedure.ExitEnds)
    {store : Store V W} {point later : Point V W} {count : Nat}
    (arrives : Arrives interpretation procedure store count point)
    (steps : procedure.Steps interpretation point later)
    (passes : Passable interpretation procedure later) :
    ∃ left ≤ count, Arrives interpretation procedure store left later ∧
      (later = point ∨ left < count) := by
  induction steps using Relation.ReflTransGen.head_induction_on generalizing count with
  | refl => exact ⟨count, Nat.le_refl _, arrives, .inl rfl⟩
  | @head point next step rest inductionHypothesis =>
    have nextPasses : Passable interpretation procedure next := by
      rcases Relation.ReflTransGen.cases_head rest with rfl | ⟨after, onward, -⟩
      · exact passes
      · exact fun _ _ => ⟨after, onward⟩
    obtain ⟨between, fewer, onward⟩ := arrives.next branched exitEnds step nextPasses
    obtain ⟨left, few, arrived, -⟩ := inductionHypothesis onward
    have less := Nat.lt_of_le_of_lt few fewer
    exact ⟨left, Nat.le_of_lt less, arrived, .inr less⟩

/-- Two executions that reach the exit from one point leave the same store. -/
theorem Arrives.unique (branched : procedure.WellBranched) (exitEnds : procedure.ExitEnds)
    {first second : Store V W} {point : Point V W} {count : Nat}
    (arrives : Arrives interpretation procedure first count point)
    (steps : procedure.Steps interpretation point ⟨exit, 0, second⟩) : first = second := by
  obtain ⟨left, -, arrived, -⟩ := arrives.later branched exitEnds steps
    fun prune => absurd prune exitEnds.2.2
  cases arrived with
  | here => rfl
  | step step => exact absurd step exitEnds.no_step

end Procedure

/-! ### The stack machine comes to an end -/

namespace Walk

variable {routine : Routine} {limits : Limits} {start walk final : Walk}
  {interpretation : Interpretation V W} {earlier : List (Effect String V)} {offset : Offset}
  {stack : List (V × Typ)} {scene : Scene Slot V W} {point : Point V W} {store : Store V W}
  {count : Nat}

theorem Course.branched (course : Course routine limits start final) :
    final.procedure.finish.WellBranched :=
  (course.linearAt course.turns).shaped.finish_wellBranched

theorem Course.exitEnds (course : Course routine limits start final) :
    final.procedure.finish.ExitEnds := by
  refine ⟨course.commandsOf_terminal (.inl rfl), course.branched.exitCloses, ?_⟩
  rintro ⟨branch, kind, prune⟩
  rw [Procedure.kind?_finish, (course.linearAt course.turns).shaped.exitKind] at prune
  cases prune

theorem Clear.passable {procedure : Procedure}
    (clear : Clear procedure point.node point.position) :
    procedure.Passable interpretation point := by
  intro prune atStart
  exact absurd (clear prune) (by omega)

theorem Simulated.clear (simulated : Simulated routine limits interpretation earlier start final
    walk offset stack scene point) :
    Clear final.procedure.finish point.node point.position := by
  cases simulated with
  | ahead _ follows => exact follows.agrees.clear
  | aside _ _ agrees => exact agrees.clear

/-- The stack machine comes to an end from a state: `Bytecode.Runs` gives some result. -/
def Terminates (interpretation : Interpretation V W) (routine : Routine) (offset : Offset)
    (stack : List (V × Typ)) (scene : Scene Slot V W) : Prop :=
  ∃ result last, Bytecode.Runs interpretation routine offset stack scene result last

/-- The machine `Terminates` from every state that is `Simulated` by a point from which the exit is
reached in fewer steps. -/
def TerminatesBefore (routine : Routine) (limits : Limits) (interpretation : Interpretation V W)
    (earlier : List (Effect String V)) (start final : Walk) (store : Store V W) (count : Nat) :
    Prop :=
  ∀ less < count, ∀ walk offset stack scene point, Turns routine limits start walk →
    Simulated routine limits interpretation earlier start final walk offset stack scene point →
    Procedure.Arrives interpretation final.procedure.finish store less point →
    Terminates interpretation routine offset stack scene

/-- A path that joined the node of a turn comes closer to it with every instruction. -/
theorem terminates_aside {turn : Performance routine limits} {symbolic : List Value}
    (course : Course routine limits start final)
    (fewer : TerminatesBefore routine limits interpretation earlier start final store count)
    (reached : Turns routine limits start turn.before)
    (quiet : routine.Quiet (offset, symbolic) (turn.pending.offset, turn.pending.stack))
    (agrees : Agrees routine interpretation earlier final.procedure.finish symbolic stack scene
      point)
    (fresh : turn.pending.Fresh) (acts : turn.operation ≠ .proceed)
    (leads : turn.before.procedure.size ∈ final.procedure.finish.successorsOf point.node)
    (ends : point.position = (final.procedure.finish.commandsOf point.node).length)
    (arrives : Procedure.Arrives interpretation final.procedure.finish store count point) :
    Terminates interpretation routine offset stack scene := by
  generalize here : (offset, symbolic) = place at quiet
  induction quiet using Relation.ReflTransGen.head_induction_on generalizing offset symbolic stack
    with
  | refl =>
    cases here
    have follows := Follows.of_entered course reached agrees fresh acts
    obtain ⟨left, less, arrived⟩ := arrives.next course.branched course.exitEnds
      (step_of_leads leads ends) follows.agrees.clear.passable
    exact fewer left less _ _ _ _ _ reached (.ahead .refl follows) arrived
  | head combining _ inductionHypothesis =>
    cases here
    obtain ⟨instruction, found, combines, following⟩ := combining
    obtain ⟨operands, executes, covers⟩ :=
      Operation.execute_of_combines following combines agrees.covers
    obtain ⟨result, last, runs⟩ := inductionHypothesis { agrees with covers } rfl
    exact ⟨result, last,
      .next ((Bytecode.step_of_found found stack scene).trans executes) runs⟩

/-- A turn leads to a later point or to a later turn. -/
theorem terminates_ahead {turn : Performance routine limits}
    (course : Course routine limits start final)
    (fewer : TerminatesBefore routine limits interpretation earlier start final store count)
    (follows : Follows interpretation earlier start final turn stack scene point)
    (arrives : Procedure.Arrives interpretation final.procedure.finish store count point)
    (onward : ∀ offset stack scene, Simulated routine limits interpretation earlier start final
        turn.after offset stack scene point →
      Terminates interpretation routine offset stack scene) :
    Terminates interpretation routine turn.pending.offset stack scene := by
  obtain ⟨transition, steps, matched⟩ := follows.step course
  cases matched with
  | ended => exact ⟨_, _, .ended steps⟩
  | next goes simulated =>
    obtain ⟨left, -, arrived, same | less⟩ := arrives.later course.branched course.exitEnds goes
      simulated.clear.passable
    · subst same
      obtain ⟨result, last, runs⟩ := onward _ _ _ simulated
      exact ⟨result, last, .next steps runs⟩
    · obtain ⟨result, last, runs⟩ := fewer left less _ _ _ _ _
        (follows.reached.tail ⟨turn.pending, turn.takesUp⟩) simulated arrived
      exact ⟨result, last, .next steps runs⟩

/-- The turns that are left are used up. -/
theorem terminates_of_fewer (course : Course routine limits start final)
    (fewer : TerminatesBefore routine limits interpretation earlier start final store count)
    (arrives : Procedure.Arrives interpretation final.procedure.finish store count point)
    (left : Turns routine limits walk final)
    (simulated : Simulated routine limits interpretation earlier start final walk offset stack
      scene point) :
    Terminates interpretation routine offset stack scene := by
  induction left using Relation.ReflTransGen.head_induction_on generalizing offset stack scene with
  | refl =>
    cases simulated with
    | @ahead turn _ _ _ later =>
      have waits := turn.takenWaits
      rw [Turns.of_worklist_nil later course.finished, course.finished] at waits
      cases waits
    | aside reached quiet agrees fresh acts leads ends =>
      exact terminates_aside course fewer reached quiet agrees fresh acts leads ends arrives
  | @head walk next turn rest inductionHypothesis =>
    cases simulated with
    | @ahead ahead _ _ _ later follows =>
      obtain ⟨pending, takesUp⟩ := turn
      rcases Relation.ReflTransGen.cases_head later with rfl | ⟨other, otherTurn, later⟩
      · cases takesUp.functional ahead.takesUp
        exact terminates_ahead course fewer follows arrives fun _ _ _ => inductionHypothesis
      · obtain ⟨otherPending, otherTakesUp⟩ := otherTurn
        cases takesUp.functional otherTakesUp
        exact inductionHypothesis (.ahead later follows)
    | aside reached quiet agrees fresh acts leads ends =>
      exact terminates_aside course fewer reached quiet agrees fresh acts leads ends arrives

/-- Where the procedure `Arrives` at the exit, the stack machine that is `Simulated` by it
`Terminates`. -/
theorem Simulated.terminates (course : Course routine limits start final) (count : Nat) :
    ∀ walk offset stack scene point, Turns routine limits start walk →
      Simulated routine limits interpretation earlier start final walk offset stack scene point →
      Procedure.Arrives interpretation final.procedure.finish store count point →
      Terminates interpretation routine offset stack scene := by
  induction count using Nat.strongRecOn with
  | ind count inductionHypothesis =>
    intro walk offset stack scene point reached simulated arrives
    exact terminates_of_fewer course inductionHypothesis arrives (course.onward reached) simulated

/-- Every execution of the procedure that `Arrives` at the exit matches one of the routine by
`Bytecode.Runs`. -/
theorem Simulated.converse (course : Course routine limits start final)
    (simulated : Simulated routine limits interpretation earlier start final start offset stack
      scene point)
    (steps : final.procedure.finish.Steps interpretation point ⟨Procedure.exit, 0, store⟩) :
    ∃ last, Bytecode.Runs interpretation routine offset stack scene store.result last ∧
      last.Mirrors routine earlier store.scene := by
  obtain ⟨count, arrives⟩ := Procedure.arrives_of_steps steps
  obtain ⟨result, last, runs⟩ :=
    Simulated.terminates course count start offset stack scene point .refl simulated arrives
  obtain ⟨other, otherSteps, rfl, mirrors⟩ := simulated.runs course runs
  cases arrives.unique course.branched course.exitEnds otherSteps
  exact ⟨last, runs, mirrors⟩

end Walk

end BytecodeFlow

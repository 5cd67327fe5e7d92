/-
This file takes the run of a walk apart into turns (`Turns`). A turn takes up
the first waiting path (`TakesUp`); it ends in one of three ways, which `Turn`
says once: the path joins a node that is there already, it comes to a halt
before anything is built, or an operation is performed. A run is a sequence of
turns, so whatever every turn keeps holds of every walk that a run reaches.
-/

import Mathlib.Logic.Relation
import BytecodeFlow.Proofs.Graph.Building
import BytecodeFlow.Walk.Run

namespace BytecodeFlow

namespace Walk

/-! ### The ways a turn ends -/

/-- The walk on which the turn of a waiting path starts. -/
def arrive (walk : Walk) (pending : Pending) (rest : List Pending) : Walk :=
  ({ walk with worklist := rest }.resume pending).visit pending.offset

/-- The walk on which an operation is performed: the position of the instruction is taken, and the
operands are off the stack. -/
def ready (walk : Walk) (routine : Routine) (instruction : Instruction) (stack : List Value) :
    Walk :=
  { walk.setLocation routine instruction with stack }

/-- What a turn at an offset makes of the walk on which it starts, and how the run ends with it, if
it does. -/
inductive Turned (routine : Routine) (offset : Offset) (arrived : Walk) :
    Walk → Option Outcome → Prop
  /-- The path joins a node that was opened before. -/
  | joined (node : NodeIndex) (shared : arrived.reusableNode? routine = some node) :
    Turned routine offset arrived (arrived.linkPrevious node) none
  /-- Nothing is built, and the run ends. -/
  | halted (location : Location) (reason : Abandonment) (remaining : Nat) :
    Turned routine offset arrived { arrived with location } (some (.abandoned reason remaining))
  | performed (instruction : Instruction) (resolved : Resolved) (outcome : Option Outcome)
    (fresh : arrived.reusableNode? routine = none)
    (valid : routine.regions.valid = true) (handled : routine.regions.unhandled = false)
    (found : routine.instructionAt? offset = some instruction)
    (resolves : Operation.resolve routine instruction arrived.stack = .ok (some resolved))
    (goesOn : outcome = none ↔
      ((arrived.ready routine instruction resolved.stack).perform routine
        resolved.operation).fault = none)
    (ends : ∀ result, outcome = some result → result ≠ .complete) :
    Turned routine offset arrived
      ((arrived.ready routine instruction resolved.stack).perform routine resolved.operation)
      outcome

theorem refusal?_eq_none {routine : Routine} {limits : Limits} {visits : Nat} {overdue : Bool}
    (allowed : refusal? routine limits visits overdue = none) :
    routine.regions.valid = true ∧ routine.regions.unhandled = false ∧ overdue = false := by
  unfold refusal? at allowed
  cases valid : routine.regions.valid <;> cases unhandled : routine.regions.unhandled <;>
    cases overdue <;> simp_all

theorem visits_le_of_refusal? {routine : Routine} {limits : Limits} {visits : Nat}
    {overdue : Bool} (allowed : refusal? routine limits visits overdue = none) :
    visits ≤ limits.offsetVisits := by
  obtain ⟨valid, handled, early⟩ := refusal?_eq_none allowed
  by_contra often
  simp [refusal?, valid, handled, Nat.lt_of_not_le often] at allowed

theorem stepAt_turned {routine : Routine} {walk after : Walk} {offset : Offset}
    {outcome : Option Outcome} (fresh : walk.reusableNode? routine = none)
    (valid : routine.regions.valid = true) (handled : routine.regions.unhandled = false)
    (stepped : walk.stepAt routine offset = (after, outcome)) :
    Turned routine offset walk after outcome := by
  unfold stepAt at stepped
  cases found : routine.instructionAt? offset with
  | none =>
    rw [found] at stepped
    cases stepped
    exact .halted walk.location _ _
  | some instruction =>
    rw [found] at stepped
    have resolving : (walk.setLocation routine instruction).stack = walk.stack := rfl
    delta step at stepped
    simp only [resolving] at stepped
    cases resolves : Operation.resolve routine instruction walk.stack with
    | error fault =>
      rw [resolves] at stepped
      cases stepped
      exact .halted _ _ _
    | ok result =>
      cases result with
      | none =>
        rw [resolves] at stepped
        cases stepped
        exact .halted _ _ _
      | some resolved =>
        rw [resolves] at stepped
        have performed := @Turned.performed routine offset walk instruction resolved outcome fresh
          valid handled found resolves
        simp only [ready] at performed
        cases fault : (({ walk.setLocation routine instruction with
            stack := resolved.stack }).perform routine resolved.operation).fault with
        | none =>
          simp only [fault] at stepped
          cases stepped
          exact performed (iff_of_true rfl fault) (fun _ impossible => by cases impossible)
        | some reason =>
          simp only [fault] at stepped
          cases stepped
          refine performed ?_ ?_
          · exact iff_of_false (by simp) (by simp [fault])
          · rintro result known rfl
            cases known

section Turn

variable {routine : Routine} {limits : Limits} {overdue : Bool} {walk : Walk} {pending : Pending}
  {rest : List Pending}

theorem turn_of_shared {node : NodeIndex}
    (shared : (walk.arrive pending rest).reusableNode? routine = some node) :
    { walk with worklist := rest }.turn routine limits overdue pending =
      ((walk.arrive pending rest).linkPrevious node, none) := by
  unfold arrive at shared
  unfold turn
  dsimp only
  rw [shared]
  rfl

theorem turn_of_refused {reason : Abandonment}
    (fresh : (walk.arrive pending rest).reusableNode? routine = none)
    (refused : refusal? routine limits ((walk.arrive pending rest).visitsOf pending.offset)
      overdue = some reason) :
    { walk with worklist := rest }.turn routine limits overdue pending =
      (walk.arrive pending rest, some (.abandoned reason (routine.remaining pending.offset))) := by
  unfold arrive at fresh refused
  unfold turn
  dsimp only
  rw [fresh]
  dsimp only
  rw [refused]
  rfl

theorem turn_of_allowed (fresh : (walk.arrive pending rest).reusableNode? routine = none)
    (allowed : refusal? routine limits ((walk.arrive pending rest).visitsOf pending.offset)
      overdue = none) :
    { walk with worklist := rest }.turn routine limits overdue pending =
      (walk.arrive pending rest).stepAt routine pending.offset := by
  unfold arrive at fresh allowed
  unfold turn
  dsimp only
  rw [fresh]
  dsimp only
  rw [allowed]
  rfl

end Turn

/-- `Walk.turn` ends in one of the three ways of `Turned`. -/
theorem turn_turned {routine : Routine} {limits : Limits} {overdue : Bool} {walk after : Walk}
    {pending : Pending} {rest : List Pending} {outcome : Option Outcome}
    (turned : { walk with worklist := rest }.turn routine limits overdue pending =
      (after, outcome)) :
    Turned routine pending.offset (walk.arrive pending rest) after outcome := by
  cases shared : (walk.arrive pending rest).reusableNode? routine with
  | some node =>
    rw [turn_of_shared shared] at turned
    cases turned
    exact .joined node shared
  | none =>
    cases refused : refusal? routine limits
        ((walk.arrive pending rest).visitsOf pending.offset) overdue with
    | some reason =>
      rw [turn_of_refused shared refused] at turned
      cases turned
      exact .halted (walk.arrive pending rest).location _ _
    | none =>
      rw [turn_of_allowed shared refused] at turned
      obtain ⟨valid, handled, -⟩ := refusal?_eq_none refused
      exact stepAt_turned shared valid handled turned

/-- An overdue turn after which the run goes on only joins a node. -/
theorem turn_overdue {routine : Routine} {limits : Limits} {walk after : Walk}
    {pending : Pending} {rest : List Pending}
    (turned : { walk with worklist := rest }.turn routine limits true pending = (after, none)) :
    ∃ node, (walk.arrive pending rest).reusableNode? routine = some node ∧
      after = (walk.arrive pending rest).linkPrevious node := by
  cases shared : (walk.arrive pending rest).reusableNode? routine with
  | some node =>
    rw [turn_of_shared shared] at turned
    cases turned
    exact ⟨node, rfl, rfl⟩
  | none =>
    cases refused : refusal? routine limits
        ((walk.arrive pending rest).visitsOf pending.offset) true with
    | some reason =>
      rw [turn_of_refused shared refused] at turned
      cases turned
    | none => exact absurd (refusal?_eq_none refused).2.2 (by decide)

theorem turn_outcome_ne_complete {routine : Routine} {limits : Limits} {overdue : Bool}
    {walk after : Walk} {pending : Pending} {rest : List Pending} {outcome : Outcome}
    (turned : { walk with worklist := rest }.turn routine limits overdue pending =
      (after, some outcome)) : outcome ≠ .complete := by
  generalize ended : some outcome = result at turned
  cases turn_turned turned with
  | joined => cases ended
  | halted =>
    cases ended
    exact fun impossible => by cases impossible
  | performed _ _ _ _ _ _ _ _ _ ends => exact ends outcome ended.symm

/-! ### Runs -/

/-- The first waiting path of a walk is taken up by `Walk.turn`. -/
def TakesUp (routine : Routine) (limits : Limits) (before : Walk) (pending : Pending)
    (after : Walk) (outcome : Option Outcome) : Prop :=
  ∃ rest overdue, before.worklist = pending :: rest ∧
    { before with worklist := rest }.turn routine limits overdue pending = (after, outcome)

/-- A turn that `TakesUp` a path and after which the run goes on. -/
def Turn (routine : Routine) (limits : Limits) (before after : Walk) : Prop :=
  ∃ pending, TakesUp routine limits before pending after none

/-- Any number of times a `Turn`, after each of which the run goes on. -/
abbrev Turns (routine : Routine) (limits : Limits) : Walk → Walk → Prop :=
  Relation.ReflTransGen (Turn routine limits)

/-- How a run that starts from a walk ends: with no path left after its `Turns`, or in one that
gives the method up. -/
inductive Ends (routine : Routine) (limits : Limits) (start : Walk) : Walk → Outcome → Prop
  | complete (final : Walk) (turns : Turns routine limits start final)
    (finished : final.worklist = []) : Ends routine limits start final .complete
  | abandoned (last final : Walk) (pending : Pending) (outcome : Outcome)
    (turns : Turns routine limits start last)
    (takesUp : TakesUp routine limits last pending final (some outcome)) :
    Ends routine limits start final outcome

/-- An end of a run after one turn is an end of the run that starts with this turn. -/
theorem Ends.after_turn {routine : Routine} {limits : Limits} {start next final : Walk}
    {outcome : Outcome} (turn : Turn routine limits start next)
    (ends : Ends routine limits next final outcome) : Ends routine limits start final outcome := by
  cases ends with
  | complete _ turns finished => exact .complete final (.head turn turns) finished
  | abandoned last _ pending _ turns takesUp =>
    exact .abandoned last final pending outcome (.head turn turns) takesUp

theorem drain_ends {routine : Routine} {limits : Limits} (waiting : List Pending) {walk : Walk}
    (whole : walk.worklist = waiting) {final : Walk} {outcome : Outcome}
    (drained : drain routine limits waiting walk = (final, outcome)) :
    Ends routine limits walk final outcome := by
  induction waiting generalizing walk with
  | nil =>
    cases drained
    exact .complete _ .refl whole
  | cons pending rest inductionHypothesis =>
    rw [drain] at drained
    split at drained
    · rename_i next turned
      obtain ⟨node, -, joined⟩ := turn_overdue turned
      have left : next.worklist = rest := by rw [joined]; rfl
      exact .after_turn ⟨pending, rest, true, whole, turned⟩ (inductionHypothesis left drained)
    · rename_i turned
      cases drained
      exact .abandoned walk final pending outcome .refl ⟨rest, true, whole, turned⟩

/-- `Walk.run` is a sequence of `Turns` that `Ends`. -/
theorem run_ends {routine : Routine} {limits : Limits} (budget : Nat) {walk final : Walk}
    {outcome : Outcome} (ran : run routine limits budget walk = (final, outcome)) :
    Ends routine limits walk final outcome := by
  induction budget generalizing walk with
  | zero => exact drain_ends walk.worklist rfl ran
  | succ budget inductionHypothesis =>
    rw [run] at ran
    split at ran
    · rename_i finished
      cases ran
      exact .complete _ .refl finished
    · rename_i pending rest waiting
      split at ran
      · rename_i next turned
        exact .after_turn ⟨pending, rest, false, waiting, turned⟩ (inductionHypothesis ran)
      · rename_i turned
        cases ran
        exact .abandoned walk final pending outcome .refl ⟨rest, false, waiting, turned⟩

/-- What holds at the start and is kept by every turn holds of every walk that is reached in
`Turns`. -/
theorem Turns.keep {routine : Routine} {limits : Limits} (property : Walk → Prop)
    (kept : ∀ {before after : Walk} {pending : Pending}, property before →
      TakesUp routine limits before pending after none → property after)
    {start walk : Walk} (turns : Turns routine limits start walk) (holds : property start) :
    property walk := by
  induction turns with
  | refl => exact holds
  | tail _ turn inductionHypothesis =>
    obtain ⟨pending, takesUp⟩ := turn
    exact kept inductionHypothesis takesUp

/-- `TakesUp` has one result, if the run goes on after the turn. -/
theorem TakesUp.functional {routine : Routine} {limits : Limits} {before first second : Walk}
    {pending other : Pending} (one : TakesUp routine limits before pending first none)
    (two : TakesUp routine limits before other second none) : first = second := by
  obtain ⟨rest, overdue, waiting, turned⟩ := one
  obtain ⟨otherRest, otherOverdue, otherWaiting, otherTurned⟩ := two
  cases waiting.symm.trans otherWaiting
  unfold turn at turned otherTurned
  dsimp only at turned otherTurned
  split at turned
  · rename_i node shared
    simp only [shared] at otherTurned
    exact congrArg Prod.fst (turned.symm.trans otherTurned)
  · rename_i fresh
    simp only [fresh] at otherTurned
    split at turned
    · cases turned
    · split at otherTurned
      · cases otherTurned
      · exact congrArg Prod.fst (turned.symm.trans otherTurned)

/-- `Turns` that leave no path waiting pass through every walk that is reached. -/
theorem Turns.to_final {routine : Routine} {limits : Limits} {start walk final : Walk}
    (turns : Turns routine limits start walk) (last : Turns routine limits start final)
    (finished : final.worklist = []) : Turns routine limits walk final := by
  induction turns with
  | refl => exact last
  | tail _ turn inductionHypothesis =>
    obtain ⟨pending, takesUp⟩ := turn
    rcases Relation.ReflTransGen.cases_head inductionHypothesis with rfl | ⟨next, turn, rest⟩
    · obtain ⟨_, _, waiting, _⟩ := takesUp
      rw [finished] at waiting
      cases waiting
    · obtain ⟨other, otherTakesUp⟩ := turn
      rw [takesUp.functional otherTakesUp]
      exact rest

/-! ### Runs that are carried out -/

/-- The next turn of a walk. -/
def nextTurn (routine : Routine) (limits : Limits) (walk : Walk) : Walk × Option Outcome :=
  match walk.worklist with
  | [] => (walk, none)
  | pending :: rest => { walk with worklist := rest }.turn routine limits false pending

/-- The walk after `nextTurn` at most a number of times, as far as the run goes on. -/
def afterTurns (routine : Routine) (limits : Limits) : Nat → Walk → Walk
  | 0, walk => walk
  | count + 1, walk =>
    match walk.nextTurn routine limits with
    | (after, none) => afterTurns routine limits count after
    | (_, some _) => walk

theorem takesUp_nextTurn (routine : Routine) (limits : Limits) {walk : Walk} {pending : Pending}
    (waiting : walk.worklist.head? = some pending) :
    TakesUp routine limits walk pending (walk.nextTurn routine limits).1
      (walk.nextTurn routine limits).2 := by
  obtain ⟨rest, worklist⟩ := List.head?_eq_some_iff.mp waiting
  refine ⟨rest, false, worklist, ?_⟩
  unfold nextTurn
  rw [worklist]

theorem turns_afterTurns (routine : Routine) (limits : Limits) (count : Nat) (walk : Walk) :
    Turns routine limits walk (walk.afterTurns routine limits count) := by
  induction count generalizing walk with
  | zero => exact .refl
  | succ count inductionHypothesis =>
    rw [afterTurns]
    split
    · rename_i after turned
      cases waiting : walk.worklist.head? with
      | none =>
        have same : after = walk := by
          unfold nextTurn at turned
          rw [List.head?_eq_none_iff.mp waiting] at turned
          exact (congrArg Prod.fst turned).symm
        rw [same]
        exact inductionHypothesis walk
      | some pending =>
        have takesUp := takesUp_nextTurn routine limits waiting
        rw [turned] at takesUp
        exact .head ⟨pending, takesUp⟩ (inductionHypothesis after)
    · exact .refl

end Walk

end BytecodeFlow

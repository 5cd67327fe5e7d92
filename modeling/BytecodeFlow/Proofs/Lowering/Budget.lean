/-
This file bounds the work of a `run`. The run is written as a `Loop` of rounds
that counts the paths it takes up and notes every offset at which the rules are
applied to an instruction. No sequence of rounds goes on for ever: a `Round`
uses up a unit of the budget, and once the budget is spent it takes a path off
the worklist and queues none. The loop ends as the run does, and its notes are
bounded by the two limits.
-/

import BytecodeFlow.Proofs.Lowering.Seeding
import BytecodeFlow.Proofs.Walk.Relabeling

namespace BytecodeFlow

namespace Walk

/-- The loop over the waiting paths. -/
structure Loop where
  walk : Walk
  /-- How many paths were taken up. -/
  taken : Nat
  /-- The offsets at which the rules were applied, the last one first. -/
  applied : List Offset
  /-- How the loop ended, if it has. -/
  outcome : Option Outcome

namespace Loop

def begin (walk : Walk) : Loop := ⟨walk, 0, [], none⟩

/-- How the loop ends after a `Verdict` on an instruction, if it does. -/
def outcomeOf (routine : Routine) (offset : Offset) (instruction : Instruction) :
    Verdict → Option Outcome
  | .done => none
  | .unknown =>
    some (.abandoned (.unknownInstruction instruction.mnemonic) (routine.remaining offset))
  | .failed fault => some (.abandoned (.internal fault) routine.instructions.size)

/-- `Walk.step` over the instruction at an offset, and note that the rules were applied there. -/
def apply (loop : Loop) (routine : Routine) (offset : Offset) (instruction : Instruction) : Loop :=
  let (walk, verdict) := (loop.walk.setLocation routine instruction).step routine instruction
  { loop with
    walk
    applied := offset :: loop.applied
    outcome := outcomeOf routine offset instruction verdict }

theorem taken_apply (loop : Loop) (routine : Routine) (offset : Offset)
    (instruction : Instruction) :
    (loop.apply routine offset instruction).taken = loop.taken := by
  unfold apply
  split
  rfl

theorem applied_apply (loop : Loop) (routine : Routine) (offset : Offset)
    (instruction : Instruction) :
    (loop.apply routine offset instruction).applied = offset :: loop.applied := by
  unfold apply
  split
  rfl

/-- Take a path off the worklist. -/
def take (loop : Loop) (pending : Pending) (rest : List Pending) : Loop :=
  { loop with
    walk := loop.walk.arrive pending rest
    taken := loop.taken + 1 }

/-- One round of the `Loop`. -/
def advance (loop : Loop) (routine : Routine) (limits : Limits) : Loop :=
  match loop.walk.worklist with
  | [] => { loop with outcome := some .complete }
  | pending :: rest =>
    let loop := loop.take pending rest
    match loop.walk.reusableNode? routine with
    | some node => { loop with walk := loop.walk.linkPrevious node }
    | none =>
      match refusal? routine limits (loop.walk.visitsOf pending.offset)
          (limits.iterations < loop.taken) with
      | some reason =>
        { loop with outcome := some (.abandoned reason (routine.remaining pending.offset)) }
      | none =>
        match routine.instructionAt? pending.offset with
        | none =>
          { loop with
            outcome := some (.abandoned (.internal (.offsetNotFound pending.offset))
              routine.instructions.size) }
        | some instruction => loop.apply routine pending.offset instruction

/-- A `Loop` that has not ended goes through `advance`. -/
def Round (routine : Routine) (limits : Limits) (before after : Loop) : Prop :=
  before.outcome = none ∧ after = before.advance routine limits

abbrev Rounds (routine : Routine) (limits : Limits) : Loop → Loop → Prop :=
  Relation.ReflTransGen (Round routine limits)

variable {routine : Routine} {limits : Limits} {loop : Loop} {pending : Pending}
  {rest : List Pending}

/-! ### One round -/

theorem advance_of_nil (finished : loop.walk.worklist = []) :
    loop.advance routine limits = { loop with outcome := some .complete } := by
  unfold advance
  rw [finished]

/-- The ways an `advance` ends that takes up a path: it joins a node, it ends the loop without
applying the rules, or it applies them within the limits. -/
inductive Advanced (routine : Routine) (limits : Limits) (loop : Loop) (pending : Pending)
    (rest : List Pending) : Loop → Prop
  | joined (node : NodeIndex)
    (shared : (loop.walk.arrive pending rest).reusableNode? routine = some node) :
    Advanced routine limits loop pending rest { loop.take pending rest with
      walk := (loop.walk.arrive pending rest).linkPrevious node }
  | stopped (reason : Abandonment) (remaining : Nat) :
    Advanced routine limits loop pending rest { loop.take pending rest with
      outcome := some (.abandoned reason remaining) }
  | applied (instruction : Instruction)
    (seldom : (loop.walk.arrive pending rest).visitsOf pending.offset ≤ limits.offsetVisits)
    (early : loop.taken < limits.iterations) :
    Advanced routine limits loop pending rest
      ((loop.take pending rest).apply routine pending.offset instruction)

theorem advance_advanced (waiting : loop.walk.worklist = pending :: rest) :
    Advanced routine limits loop pending rest (loop.advance routine limits) := by
  unfold advance
  rw [waiting]
  dsimp only
  cases shared : (loop.take pending rest).walk.reusableNode? routine with
  | some node => exact .joined node shared
  | none =>
    dsimp only
    cases refused : refusal? routine limits
        ((loop.take pending rest).walk.visitsOf pending.offset)
        (limits.iterations < (loop.take pending rest).taken) with
    | some reason => exact .stopped reason _
    | none =>
      dsimp only
      cases routine.instructionAt? pending.offset with
      | none => exact .stopped _ _
      | some instruction =>
        have early := of_decide_eq_false (refusal?_eq_none refused).2.2
        exact .applied instruction (visits_le_of_refusal? refused) (Nat.not_lt.mp early)

/-- An `advance` that takes up a path is a `turn`. -/
theorem advance_turn (running : loop.outcome = none)
    (waiting : loop.walk.worklist = pending :: rest) :
    { loop.walk with worklist := rest }.turn routine limits
        (decide (limits.iterations ≤ loop.taken)) pending =
      ((loop.advance routine limits).walk, (loop.advance routine limits).outcome) := by
  have overdue : decide (limits.iterations < (loop.take pending rest).taken) =
    decide (limits.iterations ≤ loop.taken) := decide_eq_decide.mpr Nat.lt_succ_iff
  unfold advance
  rw [waiting]
  dsimp only
  rw [overdue]
  cases shared : (loop.take pending rest).walk.reusableNode? routine with
  | some node =>
    rw [turn_of_shared shared]
    exact congrArg (_, ·) running.symm
  | none =>
    dsimp only
    cases refused : refusal? routine limits
        ((loop.take pending rest).walk.visitsOf pending.offset)
        (decide (limits.iterations ≤ loop.taken)) with
    | some reason => exact turn_of_refused shared refused
    | none =>
      rw [turn_of_allowed shared refused]
      unfold stepAt
      cases routine.instructionAt? pending.offset with
      | none => rfl
      | some instruction =>
        dsimp only [apply]
        have same : (loop.take pending rest).walk = loop.walk.arrive pending rest := rfl
        rw [same]
        generalize ((loop.walk.arrive pending rest).setLocation routine instruction).step routine
          instruction = stepped
        obtain ⟨after, verdict⟩ := stepped
        cases verdict <;> rfl

theorem Advanced.taken {after : Loop} (advanced : Advanced routine limits loop pending rest after) :
    after.taken = loop.taken + 1 := by
  cases advanced with
  | joined => rfl
  | stopped => rfl
  | applied => exact taken_apply ..

/-- Where the rules are applied, the limits are not reached yet. -/
theorem Advanced.applied_cases {after : Loop}
    (advanced : Advanced routine limits loop pending rest after) :
    after.applied = loop.applied ∨
      (after.applied = pending.offset :: loop.applied ∧
        (loop.walk.arrive pending rest).visitsOf pending.offset ≤ limits.offsetVisits ∧
        loop.taken < limits.iterations) := by
  cases advanced with
  | joined => exact .inl rfl
  | stopped => exact .inl rfl
  | applied instruction seldom early => exact .inr ⟨applied_apply .., seldom, early⟩

theorem visits_advance (running : loop.outcome = none)
    (waiting : loop.walk.worklist = pending :: rest) :
    (loop.advance routine limits).walk.visits = (loop.walk.arrive pending rest).visits := by
  have turned := congrArg Prod.fst (@advance_turn routine limits loop pending rest running waiting)
  dsimp only at turned
  rw [← turned]
  exact visits_turn ..

/-! ### The limits -/

/-- The rules were applied at no offset more often than it was visited, and not more often than
paths were taken up; both stay within the limits. -/
structure Within (limits : Limits) (loop : Loop) : Prop where
  visited : ∀ offset, loop.applied.count offset ≤ loop.walk.visitsOf offset
  offsetVisits : ∀ offset, loop.applied.count offset ≤ limits.offsetVisits
  taken : loop.applied.length ≤ loop.taken
  iterations : loop.applied.length ≤ limits.iterations

theorem within_begin (limits : Limits) (walk : Walk) : Within limits (begin walk) where
  visited _ := Nat.zero_le _
  offsetVisits _ := Nat.zero_le _
  taken := Nat.zero_le _
  iterations := Nat.zero_le _

theorem visitsOf_arrive (walk : Walk) (pending : Pending) (rest : List Pending) (offset : Offset) :
    (walk.arrive pending rest).visitsOf offset =
      if pending.offset = offset then walk.visitsOf offset + 1 else walk.visitsOf offset := by
  have inserted : (walk.arrive pending rest).visits =
    walk.visits.insert pending.offset (walk.visitsOf pending.offset + 1) := rfl
  unfold visitsOf
  rw [inserted, Std.ExtTreeMap.getD_insert]
  by_cases same : pending.offset = offset
  · subst same
    simp [visitsOf]
  · simp [same, Std.LawfulEqCmp.compare_eq_iff_eq]

theorem Within.round {before after : Loop} (within : Within limits before)
    (round : Round routine limits before after) : Within limits after := by
  obtain ⟨running, rfl⟩ := round
  cases waiting : before.walk.worklist with
  | nil =>
    rw [advance_of_nil waiting]
    exact ⟨within.visited, within.offsetVisits, within.taken, within.iterations⟩
  | cons pending rest =>
    have counted : ∀ offset, (before.advance routine limits).walk.visitsOf offset =
        if pending.offset = offset then before.walk.visitsOf offset + 1
        else before.walk.visitsOf offset := by
      intro offset
      rw [← visitsOf_arrive before.walk pending rest, visitsOf, visitsOf,
        visits_advance running waiting]
    have advanced := @advance_advanced routine limits before pending rest waiting
    have taken := advanced.taken
    rcases advanced.applied_cases with applied | ⟨applied, seldom, early⟩
    · constructor
      · intro offset
        rw [applied, counted]
        exact Nat.le_trans (within.visited offset) (by split <;> omega)
      · intro offset
        rw [applied]
        exact within.offsetVisits offset
      · rw [applied, taken]
        exact Nat.le_succ_of_le within.taken
      · rw [applied]
        exact within.iterations
    · rw [visitsOf_arrive, if_pos rfl] at seldom
      constructor
      · intro offset
        rw [applied, counted, List.count_cons]
        have visited := within.visited offset
        by_cases same : pending.offset = offset <;> simp [same, visited]
      · intro offset
        rw [applied, List.count_cons]
        by_cases same : pending.offset = offset
        · subst same
          have visited := within.visited pending.offset
          simp only [BEq.rfl, if_true]
          omega
        · simpa [same] using within.offsetVisits offset
      · rw [applied, taken]
        exact Nat.succ_le_succ within.taken
      · rw [applied]
        exact Nat.le_trans (Nat.succ_le_succ within.taken) early

theorem Within.rounds {start : Loop} (within : Within limits start)
    (rounds : Rounds routine limits start loop) : Within limits loop := by
  induction rounds with
  | refl => exact within
  | tail _ round inductionHypothesis => exact inductionHypothesis.round round

/-! ### Termination -/

/-- A `Loop` that has ended goes through no `Round`. -/
theorem acc_of_ended (ended : loop.outcome ≠ none) :
    Acc (fun after before => Round routine limits before after) loop :=
  ⟨loop, fun _ round => absurd round.1 ended⟩

/-- Once the budget is spent, a `Round` after which the loop goes on shortens the worklist. -/
theorem advance_spent (spent : limits.iterations ≤ loop.taken) (running : loop.outcome = none)
    (waiting : loop.walk.worklist = pending :: rest)
    (goesOn : (loop.advance routine limits).outcome = none) :
    ∃ node, (loop.walk.arrive pending rest).reusableNode? routine = some node ∧
      (loop.advance routine limits).walk = (loop.walk.arrive pending rest).linkPrevious node := by
  have turned := @advance_turn routine limits loop pending rest running waiting
  rw [goesOn, decide_eq_true spent] at turned
  exact turn_overdue turned

theorem acc_of_spent (spent : limits.iterations ≤ loop.taken) :
    Acc (fun after before => Round routine limits before after) loop := by
  induction length : loop.walk.worklist.length generalizing loop with
  | zero =>
    refine ⟨loop, fun after round => ?_⟩
    obtain ⟨running, rfl⟩ := round
    rw [advance_of_nil (List.length_eq_zero_iff.mp length)]
    exact acc_of_ended (by simp)
  | succ count inductionHypothesis =>
    obtain ⟨pending, rest, waiting⟩ := List.exists_cons_of_length_eq_add_one length
    refine ⟨loop, fun after round => ?_⟩
    obtain ⟨running, rfl⟩ := round
    by_cases goesOn : (loop.advance routine limits).outcome = none
    · obtain ⟨node, -, joined⟩ := advance_spent spent running waiting goesOn
      refine inductionHypothesis ?_ ?_
      · rw [(advance_advanced waiting).taken]
        exact Nat.le_succ_of_le spent
      · rw [joined]
        rw [waiting] at length
        exact Nat.succ.inj length
    · exact acc_of_ended goesOn

/-- No sequence of `Round`s goes on for ever. -/
theorem acc_round (routine : Routine) (limits : Limits) (loop : Loop) :
    Acc (fun after before => Round routine limits before after) loop := by
  induction budget : limits.iterations - loop.taken generalizing loop with
  | zero => exact acc_of_spent (Nat.sub_eq_zero_iff_le.mp budget)
  | succ budget inductionHypothesis =>
    refine ⟨loop, fun after round => ?_⟩
    obtain ⟨running, rfl⟩ := round
    cases waiting : loop.walk.worklist with
    | nil =>
      rw [advance_of_nil waiting]
      exact acc_of_ended (by simp)
    | cons pending rest =>
      refine inductionHypothesis _ ?_
      rw [(advance_advanced waiting).taken]
      omega

/-! ### The loop and the run -/

theorem ends_of_spent (spent : limits.iterations ≤ loop.taken) (running : loop.outcome = none)
    {waiting : List Pending} (whole : loop.walk.worklist = waiting) :
    ∃ final, Rounds routine limits loop final ∧
      (final.walk, final.outcome) =
        ((drain routine limits waiting loop.walk).1,
          some (drain routine limits waiting loop.walk).2) := by
  induction waiting generalizing loop with
  | nil => exact ⟨_, .single ⟨running, rfl⟩, by rw [advance_of_nil whole]; rfl⟩
  | cons pending rest inductionHypothesis =>
    have turned := @advance_turn routine limits loop pending rest running whole
    rw [decide_eq_true spent] at turned
    rw [drain, turned]
    cases goesOn : (loop.advance routine limits).outcome with
    | some outcome => exact ⟨_, .single ⟨running, rfl⟩, by rw [goesOn]⟩
    | none =>
      obtain ⟨node, -, joined⟩ := advance_spent spent running whole goesOn
      have later : limits.iterations ≤ (loop.advance routine limits).taken := by
        rw [(advance_advanced whole).taken]
        exact Nat.le_succ_of_le spent
      obtain ⟨final, rounds, ends⟩ := inductionHypothesis later goesOn (by rw [joined]; rfl)
      exact ⟨final, .head ⟨running, rfl⟩ rounds, ends⟩

/-- The `Loop` ends where `Walk.run` does. -/
theorem ends_as_run {budget : Nat} (left : loop.taken + budget = limits.iterations)
    (running : loop.outcome = none) :
    ∃ final, Rounds routine limits loop final ∧
      (final.walk, final.outcome) =
        ((run routine limits budget loop.walk).1,
          some (run routine limits budget loop.walk).2) := by
  induction budget generalizing loop with
  | zero => exact ends_of_spent (Nat.le_of_eq left.symm) running rfl
  | succ budget inductionHypothesis =>
    rw [run]
    cases waiting : loop.walk.worklist with
    | nil => exact ⟨_, .single ⟨running, rfl⟩, by rw [advance_of_nil waiting]⟩
    | cons pending rest =>
      have turned := @advance_turn routine limits loop pending rest running waiting
      rw [decide_eq_false (by omega)] at turned
      dsimp only
      rw [turned]
      cases goesOn : (loop.advance routine limits).outcome with
      | some outcome => exact ⟨_, .single ⟨running, rfl⟩, by rw [goesOn]⟩
      | none =>
        have later : (loop.advance routine limits).taken + budget = limits.iterations := by
          rw [(advance_advanced waiting).taken]
          omega
        obtain ⟨final, rounds, ends⟩ := inductionHypothesis later goesOn
        exact ⟨final, .head ⟨running, rfl⟩ rounds, ends⟩

/-- The walk of a `Loop` that goes on is reached in `Turns`. -/
theorem Rounds.turns {start : Loop} (rounds : Rounds routine limits start loop)
    (running : loop.outcome = none) : Turns routine limits start.walk loop.walk := by
  induction rounds with
  | refl => exact .refl
  | tail _ round inductionHypothesis =>
    rename_i middle _ _
    obtain ⟨goesOn, rfl⟩ := round
    refine .tail (inductionHypothesis goesOn) ?_
    cases waiting : middle.walk.worklist with
    | nil =>
      rw [advance_of_nil waiting] at running
      cases running
    | cons pending rest =>
      have turned := @advance_turn routine limits middle pending rest goesOn waiting
      rw [running] at turned
      exact ⟨pending, rest, _, waiting, turned⟩

/-! ### Draining -/

/-- What a `Round` can still do once the budget is spent: find that nothing waits, connect the node
before a waiting path with one that is there, or give the method up. -/
inductive Drains (loop : Loop) : Loop → Prop
  | complete (finished : loop.walk.worklist = []) :
    Drains loop { loop with outcome := some .complete }
  | joined {after : Loop} (pending : Pending) (rest : List Pending) (node : NodeIndex)
    (waiting : loop.walk.worklist = pending :: rest) (built : node < loop.walk.procedure.size)
    (linked : after.walk.procedure = loop.walk.procedure.link pending.previous node)
    (left : after.walk.worklist = rest) (applied : after.applied = loop.applied)
    (goesOn : after.outcome = none) : Drains loop after
  | abandoned {after : Loop} (pending : Pending) (rest : List Pending) (reason : Abandonment)
    (remaining : Nat) (waiting : loop.walk.worklist = pending :: rest)
    (kept : after.walk.procedure = loop.walk.procedure) (left : after.walk.worklist = rest)
    (applied : after.applied = loop.applied)
    (ended : after.outcome = some (.abandoned reason remaining)) : Drains loop after

/-- Nodes that are shared were built before, since every recorded node is in the graph. -/
theorem drains_of_spent (linear : loop.walk.worklist ≠ [] → loop.walk.Linear [])
    (spent : limits.iterations ≤ loop.taken) (running : loop.outcome = none) :
    Drains loop (loop.advance routine limits) := by
  cases waiting : loop.walk.worklist with
  | nil =>
    rw [advance_of_nil waiting]
    exact .complete waiting
  | cons pending rest =>
    generalize ended : loop.advance routine limits = after
    have advanced := @advance_advanced routine limits loop pending rest waiting
    rw [ended] at advanced
    cases advanced with
    | joined node shared =>
      have linear := linear (by rw [waiting]; exact List.cons_ne_nil _ _)
      obtain ⟨-, -, -, recorded, opened, -⟩ := reusableNode?_eq_some shared
      exact .joined pending rest node waiting (linear.opened _ _ opened).known rfl rfl rfl running
    | stopped reason remaining =>
      exact .abandoned pending rest reason remaining waiting rfl rfl rfl rfl
    | applied instruction seldom early => exact absurd early (Nat.not_lt.mpr spent)

end Loop

end Walk

namespace Lowered

open Walk

/-- Lowering a method is bounded work. The `Loop` over its waiting paths cannot go on for ever, and
ends as `ofMethod` does. At no time were the rules applied more often at one offset than
`Limits.offsetVisits`, nor more often in all than `Limits.iterations`; and a loop that has taken up
so many paths applies no rules any more and queues no path (`Loop.Drains`). -/
theorem ofMethod_bounded (program : Program) (declaring : TypeDef) (method : MethodDef)
    (body : MethodBody) (limits : Limits) :
    let routine := Routine.ofBody declaring.name method body
    let start := Loop.begin (seeded program declaring method body)
    let lowered := ofMethod program declaring method body limits
    Acc (fun after before => Loop.Round routine limits before after) start ∧
    (∃ final, Loop.Rounds routine limits start final ∧ final.outcome = some lowered.outcome ∧
      lowered.procedure =
        if lowered.isKept then final.walk.procedure.finish else final.walk.procedure) ∧
    ∀ loop, Loop.Rounds routine limits start loop →
      (∀ offset, loop.applied.count offset ≤ limits.offsetVisits) ∧
      loop.applied.length ≤ limits.iterations ∧
      ∀ after, limits.iterations ≤ loop.taken → Loop.Round routine limits loop after →
        loop.Drains after := by
  intro routine start lowered
  refine ⟨Loop.acc_round routine limits start, ?_, ?_⟩
  · obtain ⟨final, rounds, ends⟩ :=
      @Loop.ends_as_run routine limits start limits.iterations (Nat.zero_add _) rfl
    obtain ⟨walk, outcome⟩ := Prod.mk.inj ends
    exact ⟨final, rounds, outcome, by rw [walk]; rfl⟩
  · intro loop rounds
    have within := (Loop.within_begin limits _).rounds rounds
    refine ⟨within.offsetVisits, within.iterations, ?_⟩
    rintro after spent ⟨running, rfl⟩
    have turns := rounds.turns running
    refine Loop.drains_of_spent (fun waiting => ?_) spent running
    exact turns.linear (seeded_linear program declaring method (code_of_waiting turns waiting))

end Lowered

end BytecodeFlow

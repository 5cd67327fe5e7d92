/-
This file compares two runs over one method, of which the second has higher
`Limits`. As long as the first does not time out (`Outcome.TimedOut`), both
take the same turns: a limit is looked at only after the layout of the regions,
and never where a path joins a node that is there already. Once the budget of
the first run is spent, the second one still has turns to take, but every turn
of the first is one that needs no budget.
-/

import BytecodeFlow.Proofs.Lowering.Concatenation

namespace BytecodeFlow

/-- The method was given up because a limit was exceeded. -/
def Outcome.TimedOut (outcome : Outcome) : Prop :=
  ∃ remaining, outcome = .abandoned .timeout remaining

namespace Walk

variable {routine : Routine} {limits raised : Limits}

/-! ### One turn -/

theorem refusal?_raised (higher : limits.offsetVisits ≤ raised.offsetVisits) {visits : Nat}
    {overdue still : Bool} (later : still = true → overdue = true)
    (inTime : refusal? routine limits visits overdue ≠ some .timeout) :
    refusal? routine raised visits still = refusal? routine limits visits overdue := by
  unfold refusal? at inTime ⊢
  split
  · rfl
  next valid =>
    split
    · rfl
    next handled =>
      rw [if_neg valid, if_neg handled] at inTime
      have within : ¬ (limits.offsetVisits < visits || overdue) = true :=
        fun exceeded => inTime (if_pos exceeded)
      have withinRaised : ¬ (raised.offsetVisits < visits || still) = true := by
        simp only [Bool.or_eq_true, decide_eq_true_eq] at within ⊢
        rintro (often | late)
        · exact within (.inl (Nat.lt_of_le_of_lt higher often))
        · exact within (.inr (later late))
      rw [if_neg within, if_neg withinRaised]

/-- A `turn` that does not time out is the same under higher limits, and no later in the run. -/
theorem turn_raised (higher : limits.offsetVisits ≤ raised.offsetVisits) {overdue still : Bool}
    (later : still = true → overdue = true) {walk after : Walk} {pending : Pending}
    {outcome : Option Outcome}
    (turned : walk.turn routine limits overdue pending = (after, outcome))
    (inTime : ∀ ended ∈ outcome, ¬ ended.TimedOut) :
    walk.turn routine raised still pending = (after, outcome) := by
  rw [← turned]
  unfold turn at turned ⊢
  dsimp only at turned ⊢
  cases shared : ((walk.resume pending).visit pending.offset).reusableNode? routine with
  | some node => rfl
  | none =>
    dsimp only
    rw [refusal?_raised higher later]
    intro refused
    rw [shared, refused] at turned
    cases turned
    exact inTime _ rfl ⟨_, rfl⟩

/-! ### The whole run -/

/-- What `drain` does without a budget, `run` does with any. -/
theorem run_of_drain (higher : limits.offsetVisits ≤ raised.offsetVisits)
    {waiting : List Pending} {walk : Walk} (whole : walk.worklist = waiting)
    (inTime : ¬ (drain routine limits waiting walk).2.TimedOut) (budget : Nat) :
    run routine raised budget walk = drain routine limits waiting walk := by
  induction waiting generalizing walk budget with
  | nil => cases budget <;> rw [run, whole] <;> rfl
  | cons pending rest inductionHypothesis =>
    obtain ⟨⟨after, outcome⟩, turned⟩ : ∃ result,
      { walk with worklist := rest }.turn routine limits true pending = result := ⟨_, rfl⟩
    rw [drain, turned] at inTime ⊢
    cases outcome with
    | some outcome =>
      have same (still : Bool) :
          { walk with worklist := rest }.turn routine raised still pending =
            (after, some outcome) := by
        refine turn_raised higher (fun _ => rfl) turned ?_
        rintro _ ⟨⟩
        exact inTime
      cases budget with
      | zero => rw [run, whole, drain, same]
      | succ budget =>
        rw [run, whole]
        dsimp only
        rw [same]
    | none =>
      have same (still : Bool) :
          { walk with worklist := rest }.turn routine raised still pending = (after, none) :=
        turn_raised higher (fun _ => rfl) turned fun ended known =>
          absurd known (Option.not_mem_none ended)
      obtain ⟨node, -, joined⟩ := turn_overdue turned
      have left : after.worklist = rest := by
        rw [joined]
        rfl
      cases budget with
      | zero =>
        have drained := inductionHypothesis left inTime 0
        rw [run, left] at drained
        rw [run, whole, drain, same]
        exact drained
      | succ budget =>
        rw [run, whole]
        dsimp only
        rw [same]
        exact inductionHypothesis left inTime budget

/-- A `run` that does not time out is the same under higher limits. -/
theorem run_raised (higher : limits.offsetVisits ≤ raised.offsetVisits) {budget more : Nat}
    (enough : budget ≤ more) {walk : Walk}
    (inTime : ¬ (run routine limits budget walk).2.TimedOut) :
    run routine raised more walk = run routine limits budget walk := by
  induction budget generalizing more walk with
  | zero => exact run_of_drain higher rfl inTime more
  | succ budget inductionHypothesis =>
    obtain ⟨more, rfl⟩ := Nat.exists_eq_add_one.mpr (Nat.lt_of_lt_of_le (Nat.succ_pos _) enough)
    rw [run] at inTime ⊢
    rw [run]
    cases waiting : walk.worklist with
    | nil => rfl
    | cons pending rest =>
      rw [waiting] at inTime
      dsimp only at inTime ⊢
      split at inTime
      next next turned =>
        rw [turn_raised higher (fun late => late) turned fun ended known =>
          absurd known (Option.not_mem_none ended)]
        exact inductionHypothesis (Nat.le_of_succ_le_succ enough) inTime
      next turned =>
        rw [turn_raised higher (fun late => late) turned]
        rintro _ ⟨⟩
        exact inTime

end Walk

namespace Lowered

/-- A method that does not time out (`Outcome.TimedOut`) is lowered to the same procedure under
higher `Limits`, with the same outcome; and a method that times out under higher limits has timed
out before. -/
theorem ofMethod_raised (program : Program) (declaring : TypeDef) (method : MethodDef)
    (body : MethodBody) {limits raised : Limits}
    (offsetVisits : limits.offsetVisits ≤ raised.offsetVisits)
    (iterations : limits.iterations ≤ raised.iterations) :
    let lowered := ofMethod program declaring method body limits
    let further := ofMethod program declaring method body raised
    (¬ lowered.outcome.TimedOut → further = lowered) ∧
      (further.outcome.TimedOut → lowered.outcome.TimedOut) := by
  intro lowered further
  have same : ¬ lowered.outcome.TimedOut → further = lowered := by
    intro inTime
    have ran := Walk.run_raised offsetVisits iterations inTime
    exact congrArg (ofRun method) ran
  refine ⟨same, fun late => ?_⟩
  by_contra inTime
  rw [same inTime] at late
  exact inTime late

/-- A body that goes back to its beginning. -/
def loopingBody : MethodBody where
  locals := []
  instructions := [⟨0, "nop", .none, none⟩, ⟨1, "br", .target 0, none⟩]
  handlers := []

/-- Two turns suffice for the loop, since the third one only joins the beginning; a third turn and
further visits change nothing, while one turn is not enough. -/
theorem ofMethod_raised_looping :
    let within limits := ofMethod .empty plainType plainMethod loopingBody limits
    (within ⟨1, 2⟩).outcome = .complete ∧ within .standard = within ⟨1, 2⟩ ∧
      (within ⟨1, 1⟩).outcome.TimedOut := by
  intro within
  have complete : (within ⟨1, 2⟩).outcome = .complete := by decide +kernel
  have inTime : ¬ (within ⟨1, 2⟩).outcome.TimedOut := by
    rw [complete]
    rintro ⟨_, impossible⟩
    cases impossible
  refine ⟨complete, ?_, ?_⟩
  · exact (ofMethod_raised .empty plainType plainMethod loopingBody (by decide)
      (by decide)).1 inTime
  · exact ⟨1, by decide +kernel⟩

end Lowered

end BytecodeFlow

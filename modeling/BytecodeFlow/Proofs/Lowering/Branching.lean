/-
This file states the branching discipline of lowered methods,
`Procedure.WellBranched`. No edge of the normal flow enters the start or leaves
the exit; a node leads to at most two others, and to two only if these are the
branches of one condition that can be reached from nowhere else. In a method
that was lowered completely every node but the exit leads on, so no path comes
to a dead end.
-/

import BytecodeFlow.Proofs.Graph.Finishing
import BytecodeFlow.Proofs.Lowering.Seeding

namespace BytecodeFlow

/-! ### The discipline -/

/-- The branching discipline of the normal flow. -/
structure Procedure.WellBranched (procedure : Procedure) : Prop where
  startUnentered : ∀ source, start ∉ procedure.successorsOf source
  exitCloses : procedure.successorsOf exit = []
  atMostTwo : ∀ source, (procedure.successorsOf source).length ≤ 2
  /-- Two ways out are the branches of one condition, and nothing else leads to them. -/
  forks : ∀ source first second, procedure.successorsOf source = [first, second] →
    ∃ condition kind, procedure.Prunes first condition true kind ∧
      procedure.Prunes second (.not condition) false kind ∧
      ∀ other, first ∈ procedure.successorsOf other ∨ second ∈ procedure.successorsOf other →
        other = source

namespace Procedure.Shaped

variable {procedure : Procedure}

theorem wellBranched (shaped : procedure.Shaped) : procedure.WellBranched where
  startUnentered source edge := (shaped.leadsOn source start edge).1 rfl
  exitCloses := shaped.exitCloses
  atMostTwo source := (shaped.waysOut source).length_le
  forks source first second fork := by
    have ways := shaped.waysOut source
    rw [fork] at ways
    cases ways with
    | two _ _ condition kind holds fails =>
      refine ⟨condition, kind, holds, fails, fun other edge => ?_⟩
      rcases edge with edge | edge
      · exact shaped.oneSource first holds.isPrune other source edge (by simp [fork])
      · exact shaped.oneSource second fails.isPrune other source edge (by simp [fork])

/-- `Procedure.finish` adds only the edge from the sink to the exit. -/
theorem successorsOf_finish_sink (shaped : procedure.Shaped) :
    procedure.finish.successorsOf sink = [exit] := by
  rw [successorsOf_finish shaped.sink_lt, shaped.sinkCloses]
  rfl

theorem prunes_finish {index : NodeIndex} {condition : Expr} {branch : Bool} {kind : BranchKind} :
    procedure.finish.Prunes index condition branch kind ↔
      procedure.Prunes index condition branch kind := by
  unfold Prunes
  rw [kind?_finish, commandsOf_finish]

theorem finish_wellBranched (shaped : procedure.Shaped) : procedure.finish.WellBranched := by
  have branched := shaped.wellBranched
  have prunes_ne_exit : ∀ {index condition branch kind},
      procedure.Prunes index condition branch kind → index ≠ exit := by
    rintro index condition branch kind ⟨prune, -⟩ rfl
    rw [shaped.exitKind] at prune
    cases prune
  constructor
  · intro source edge
    by_cases atSink : source = sink
    · subst atSink
      rw [shaped.successorsOf_finish_sink] at edge
      exact absurd (List.mem_singleton.mp edge) (by decide)
    · rw [successorsOf_finish_of_ne atSink] at edge
      exact branched.startUnentered source edge
  · rw [successorsOf_finish_of_ne (by decide)]
    exact shaped.exitCloses
  · intro source
    by_cases atSink : source = sink
    · subst atSink
      rw [shaped.successorsOf_finish_sink]
      exact Nat.le_succ 1
    · rw [successorsOf_finish_of_ne atSink]
      exact branched.atMostTwo source
  · intro source first second fork
    by_cases atSink : source = sink
    · subst atSink
      rw [shaped.successorsOf_finish_sink] at fork
      cases fork
    · rw [successorsOf_finish_of_ne atSink] at fork
      obtain ⟨condition, kind, holds, fails, alone⟩ := branched.forks source first second fork
      refine ⟨condition, kind, prunes_finish.mpr holds, prunes_finish.mpr fails, ?_⟩
      intro other edge
      by_cases otherSink : other = sink
      · subst otherSink
        rw [shaped.successorsOf_finish_sink] at edge
        rcases edge with edge | edge
        · exact absurd (List.mem_singleton.mp edge) (prunes_ne_exit holds)
        · exact absurd (List.mem_singleton.mp edge) (prunes_ne_exit fails)
      · rw [successorsOf_finish_of_ne otherSink] at edge
        exact alone other edge

end Procedure.Shaped

/-! ### Lowered methods -/

namespace Walk

variable {routine : Routine} {limits : Limits} {start final : Walk} {outcome : Outcome}

theorem Ends.shaped (ends : Ends routine limits start final outcome) (linear : start.Linear []) :
    final.procedure.Shaped := by
  cases ends with
  | complete _ turns finished => exact (Turns.linear turns linear).shaped
  | abandoned last _ pending _ turns takesUp =>
    obtain ⟨_, _, -, -, underway, -⟩ := takesUp.underway (Turns.linear turns linear)
    exact underway.linear.shaped

theorem Ends.of_worklist_nil (ends : Ends routine limits start final outcome)
    (nothing : start.worklist = []) : final = start := by
  cases ends with
  | complete _ turns finished => exact Turns.of_worklist_nil turns nothing
  | abandoned last _ pending _ turns takesUp =>
    obtain ⟨rest, overdue, waiting, -⟩ := takesUp
    rw [Turns.of_worklist_nil turns nothing, nothing] at waiting
    cases waiting

end Walk

namespace Lowered

/-- The graph of a run over a method is `Shaped`, however the run ends. -/
theorem shaped_of_ends {program : Program} {declaring : TypeDef} {method : MethodDef}
    {body : MethodBody} {limits : Limits} {final : Walk} {outcome : Outcome}
    (ends : Walk.Ends (Routine.ofBody declaring.name method body) limits
      (seeded program declaring method body) final outcome) : final.procedure.Shaped := by
  by_cases empty : body.instructions = []
  · obtain ⟨linear, nothing⟩ := prepared_linear program declaring method body
    rw [seeded_of_nil empty] at ends
    rw [ends.of_worklist_nil nothing]
    exact linear.shaped
  · exact ends.shaped (seeded_linear program declaring method empty)

/-- The normal flow of a lowered method is well branched (`Procedure.WellBranched`), and if the
method has code and was lowered completely, every node but the exit leads on. -/
theorem ofMethod_wellBranched (program : Program) (declaring : TypeDef) (method : MethodDef)
    (body : MethodBody) (limits : Limits) :
    (ofMethod program declaring method body limits).procedure.WellBranched ∧
      ((ofMethod program declaring method body limits).outcome = .complete →
        body.instructions ≠ [] →
        ∀ index < (ofMethod program declaring method body limits).procedure.size,
          index ≠ Procedure.exit →
          (ofMethod program declaring method body limits).procedure.successorsOf index ≠ []) := by
  obtain ⟨final, ends, procedure⟩ := ofMethod_ends program declaring method body limits
  have shaped := shaped_of_ends ends
  constructor
  · rw [procedure]
    split
    · exact shaped.finish_wellBranched
    · exact shaped.wellBranched
  · intro complete code index known notExit
    obtain ⟨last, turns, finished, finish⟩ := ofMethod_complete complete
    have linear := Walk.Turns.linear turns (seeded_linear program declaring method code)
    rw [finish, Procedure.size_finish] at known
    rw [finish]
    by_cases atSink : index = Procedure.sink
    · subst atSink
      rw [linear.shaped.successorsOf_finish_sink]
      exact List.cons_ne_nil _ _
    · rw [Procedure.successorsOf_finish_of_ne atSink]
      intro closed
      have loose := linear.whole index known notExit atSink closed
      unfold Walk.looseEnds at loose
      rw [finished] at loose
      exact List.not_mem_nil loose

/-- A body that returns on both sides of a condition. -/
def choosingBody : MethodBody where
  locals := []
  instructions :=
    [⟨0, "ldc.i4.1", .none, none⟩, ⟨1, "brtrue", .target 3, none⟩, ⟨2, "ret", .none, none⟩,
      ⟨3, "ret", .none, none⟩]
  handlers := []

/-- The condition stands in the first node that is added, and both branches go on. -/
theorem ofMethod_wellBranched_choosing :
    (ofMethod .empty plainType plainMethod choosingBody .standard).procedure.WellBranched ∧
      (ofMethod .empty plainType plainMethod choosingBody .standard).procedure.successorsOf 3 =
        [4, 5] ∧
      (ofMethod .empty plainType plainMethod choosingBody .standard).procedure.successorsOf 4 ≠
        [] := by
  obtain ⟨wellBranched, goesOn⟩ :=
    ofMethod_wellBranched .empty plainType plainMethod choosingBody .standard
  exact ⟨wellBranched, by decide +kernel,
    goesOn (by decide +kernel) (by decide) 4 (by decide +kernel) (by decide)⟩

end Lowered

end BytecodeFlow

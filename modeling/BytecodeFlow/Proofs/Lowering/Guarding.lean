/-
This file follows the exceptional flow of lowered methods. The exceptions of a
node are fixed when the node is opened: they go to the handler of the offset at
which this happens. Commands that later turns add to the node (`EmittedAt`) do
not change that, so a command has the handler of its own offset (`HandledFor`)
exactly if this is also the handler of the offset at which its node was opened.
-/

import BytecodeFlow.Proofs.Graph.Finishing
import BytecodeFlow.Proofs.Lowering.Seeding
import BytecodeFlow.Proofs.Walk.Additions

namespace BytecodeFlow

namespace Walk

variable {routine : Routine} {limits : Limits} {start before after walk final : Walk}
  {pending : Pending} {offset : Offset} {node : NodeIndex}

/-! ### Exceptions over a run -/

theorem TakesUp.exceptionsKept (takesUp : TakesUp routine limits before pending after none)
    {index : NodeIndex} (known : index < before.procedure.size) :
    after.procedure.exceptionsOf index = before.procedure.exceptionsOf index :=
  takesUp.adds.exceptionsKept index known

theorem Turns.exceptionsKept (turns : Turns routine limits before after)
    (linear : before.Linear []) {index : NodeIndex} (known : index < before.procedure.size) :
    after.procedure.exceptionsOf index = before.procedure.exceptionsOf index := by
  induction turns with
  | refl => rfl
  | tail turns turn inductionHypothesis =>
    obtain ⟨pending, takesUp⟩ := turn
    rw [← inductionHypothesis]
    exact takesUp.exceptionsKept
      (Nat.lt_of_lt_of_le known (Turns.outgrows turns linear).extended.size_le)

theorem Turns.entriesApart (turns : Turns routine limits before after)
    (apart : before.EntriesApart) : after.EntriesApart :=
  turns.keep EntriesApart
    (fun kept takesUp => takesUp.adds.apart (kept.mono rfl (.refl _))) apart

/-! ### The turn that adds a node -/

/-- A node was added on the way to a walk, by a turn at an offset. -/
def AddedAt (routine : Routine) (limits : Limits) (start walk : Walk) (offset : Offset)
    (node : NodeIndex) : Prop :=
  ∃ before after pending, Turns routine limits start before ∧
    TakesUp routine limits before pending after none ∧ Turns routine limits after walk ∧
    pending.offset = offset ∧ before.procedure.size ≤ node ∧ node < after.procedure.size

theorem AddedAt.later (added : AddedAt routine limits start walk offset node)
    (turns : Turns routine limits walk final) : AddedAt routine limits start final offset node := by
  obtain ⟨before, after, pending, earlier, takesUp, further, rest⟩ := added
  exact ⟨before, after, pending, earlier, takesUp, further.trans turns, rest⟩

/-- Every node that a waiting path continues is one that is `AddedAt` some offset. -/
def ContinuesAdded (routine : Routine) (limits : Limits) (start walk : Walk) : Prop :=
  ∀ pending ∈ walk.worklist, ∀ node, pending.continuation = .append node →
    ∃ offset, AddedAt routine limits start walk offset node

theorem continuesAdded_step (linear : before.Linear []) (turns : Turns routine limits start before)
    (takesUp : TakesUp routine limits before pending after none)
    (continues : ContinuesAdded routine limits start before) :
    ContinuesAdded routine limits start after := by
  have turn : Turns routine limits before after := .single ⟨pending, takesUp⟩
  obtain ⟨rest, left, waiting, -, underway, -⟩ := takesUp.underway linear
  have ended := takesUp.linear linear
  intro queued member node continued
  obtain ⟨pushed, worklist, owned⟩ := underway.queued
  rw [worklist] at member
  rcases List.mem_append.mp member with new | old
  · have follows : node = queued.previous :=
      ended.appends queued (by rw [worklist]; exact member) node continued
    obtain ⟨own, quiet⟩ := owned queued new
    rcases own with same | added
    · -- The path goes on in the node that this turn continued.
      cases current : (before.arrive pending rest).current with
      | none => exact absurd continued (quiet same current node)
      | some other =>
        have continuation := continuation_of_arrive current
        have followed := linear.appends pending (by rw [waiting]; exact List.mem_cons_self) other
          continuation
        have this : node = other := follows.trans (same.trans followed.symm)
        subst this
        obtain ⟨offset, added⟩ := continues pending (by rw [waiting]; exact List.mem_cons_self) node
          continuation
        exact ⟨offset, added.later turn⟩
    · have known : node < after.procedure.size := by
        refine (ended.loose node ?_).1
        unfold looseEnds
        rw [follows]
        exact List.mem_map_of_mem (by rw [worklist]; exact member)
      rw [← follows] at added
      exact ⟨pending.offset, before, after, pending, turns, takesUp, .refl, rfl, added, known⟩
  · obtain ⟨offset, added⟩ := continues queued
      (by rw [waiting]; exact List.mem_cons_of_mem _ old) node continued
    exact ⟨offset, added.later turn⟩

theorem continuesAdded (linear : start.Linear [])
    (initial : ∀ pending ∈ start.worklist, ∀ node, pending.continuation ≠ .append node)
    (turns : Turns routine limits start walk) : ContinuesAdded routine limits start walk := by
  induction turns with
  | refl =>
    exact fun pending member node continued => absurd continued (initial pending member node)
  | tail turns turn inductionHypothesis =>
    obtain ⟨pending, takesUp⟩ := turn
    exact continuesAdded_step (Turns.linear turns linear) turns takesUp inductionHypothesis

/-! ### Commands -/

/-- A turn emits a command into a node: the command is new there, and the node is not
`HandlerMade`. -/
def Emits (before after : Walk) (node : NodeIndex) (command : Command) : Prop :=
  ¬ after.procedure.HandlerMade node ∧
    ∃ position : Nat, (before.procedure.commandsOf node)[position]? = none ∧
      (after.procedure.commandsOf node)[position]? = some command

/-- A turn at an offset `Emits` a command into a node. -/
def EmittedAt (routine : Routine) (limits : Limits) (start : Walk) (offset : Offset)
    (node : NodeIndex) (command : Command) : Prop :=
  ∃ before after pending, Turns routine limits start before ∧
    TakesUp routine limits before pending after none ∧ pending.offset = offset ∧
    Emits before after node command

/-- The node into which a turn `Emits` a command is `AddedAt` an offset, by this turn or by an
earlier one. -/
theorem addedAt_of_emits {command : Command} (linear : before.Linear [])
    (continues : ContinuesAdded routine limits start before)
    (turns : Turns routine limits start before)
    (takesUp : TakesUp routine limits before pending after none)
    (emits : Emits before after node command) :
    ∃ offset, AddedAt routine limits start after offset node := by
  obtain ⟨-, position, absent, present⟩ := emits
  obtain ⟨rest, left, waiting, -, underway, -⟩ := takesUp.underway linear
  by_cases old : node < before.procedure.size
  · have changed : after.procedure.node? node ≠ before.procedure.node? node := by
      intro same
      rw [Procedure.commandsOf_congr same, absent] at present
      cases present
    have follows : node = pending.previous := by
      by_contra other
      exact changed (underway.others node old other)
    obtain ⟨found, known⟩ := Procedure.node?_isSome.mpr old
    cases current : (before.arrive pending rest).current with
    | none =>
      -- Nothing is added to a node that is only followed.
      subst follows
      obtain ⟨commands, successors, led, quiet⟩ := underway.own found known
      rw [quiet current, List.append_nil] at led
      have same : after.procedure.commandsOf pending.previous =
          before.procedure.commandsOf pending.previous := by
        rw [Procedure.commandsOf, Procedure.commandsOf, known,
          show after.procedure.node? pending.previous = _ from led]
        rfl
      rw [same, absent] at present
      cases present
    | some other =>
      have member : pending ∈ before.worklist := by
        rw [waiting]
        exact List.mem_cons_self
      have continuation := continuation_of_arrive current
      rw [← linear.appends pending member other continuation] at follows
      subst follows
      obtain ⟨offset, added⟩ := continues pending member node continuation
      exact ⟨offset, added.later (.single ⟨pending, takesUp⟩)⟩
  · have known : node < after.procedure.size := by
      by_contra beyond
      rw [Procedure.commandsOf, Procedure.node?_eq_none.mpr (Nat.le_of_not_lt beyond)] at present
      cases present
    exact ⟨pending.offset, before, after, pending, turns, takesUp, .refl, rfl,
      Nat.le_of_not_lt old, known⟩

/-- A node that is not `HandlerMade` stays `GuardedFor` the offset where it is `AddedAt`. -/
theorem AddedAt.guardedFor (added : AddedAt routine limits start walk offset node)
    (linear : start.Linear []) (code : ¬ walk.procedure.HandlerMade node) :
    GuardedFor routine walk offset node := by
  obtain ⟨before, after, pending, earlier, takesUp, further, rfl, new, known⟩ := added
  have ended := takesUp.linear (Turns.linear earlier linear)
  have grows := Turns.outgrows further ended
  rcases takesUp.adds.made node new known with handler | guarded
  · exact absurd (handler.mono grows.extended) code
  · exact guarded.mono grows (Turns.exceptionsKept further ended known)

/-- Only a turn that performs an operation `Emits` commands, and it does so only for valid
tables. -/
theorem valid_of_emits {command : Command} (linear : before.Linear [])
    (takesUp : TakesUp routine limits before pending after none)
    (emits : Emits before after node command) : routine.regions.valid = true := by
  obtain ⟨rest, left, -, turned, -, -⟩ := takesUp.underway linear
  cases turned with
  | joined other shared =>
    obtain ⟨-, position, absent, present⟩ := emits
    have same : ((before.arrive pending rest).linkPrevious other).procedure.commandsOf node =
        before.procedure.commandsOf node := Procedure.commandsOf_link ..
    rw [same, absent] at present
    cases present
  | performed _ _ _ _ valid => exact valid

/-! ### Finished procedures -/

/-- The exceptions of a node of the finished procedure go to the entry of the handler that
`exceptionTarget?` gives an offset, and nowhere else; if it gives none, they go to the sink. -/
def HandledFor (routine : Routine) (final : Walk) (offset : Offset) (node : NodeIndex) : Prop :=
  match routine.regions.exceptionTarget? offset with
  | none => final.procedure.finish.exceptionsOf node = [Procedure.sink]
  | some target => ∃ start entry, target.start? routine.regions = some start ∧
      final.entries[start]? = some entry ∧ final.procedure.finish.exceptionsOf node = [entry]

theorem GuardedFor.handledFor (guarded : GuardedFor routine final offset node)
    (known : node < final.procedure.size) (beyond : Procedure.sink < node) :
    HandledFor routine final offset node := by
  have notStart : node ≠ Procedure.start := Nat.ne_of_gt (Nat.lt_trans (by decide) beyond)
  have notExit : node ≠ Procedure.exit := Nat.ne_of_gt (Nat.lt_trans (by decide) beyond)
  have notSink : node ≠ Procedure.sink := Nat.ne_of_gt beyond
  unfold GuardedFor at guarded
  unfold HandledFor
  rw [Procedure.exceptionsOf_finish known, Procedure.finishedExceptions, if_neg notStart,
    if_neg notExit, if_neg notSink]
  cases found : routine.regions.exceptionTarget? offset with
  | none =>
    rw [found] at guarded
    dsimp only at guarded ⊢
    rw [guarded]
    rfl
  | some target =>
    rw [found] at guarded
    obtain ⟨start, entry, starts, recorded, goes⟩ := guarded
    refine ⟨start, entry, starts, recorded, ?_⟩
    rw [goes]
    rfl

/-- A node is `HandledFor` two offsets only if `exceptionTarget?` gives them the same handler. -/
theorem HandledFor.iff (handled : HandledFor routine final offset node)
    (wellFormed : routine.regions.WellFormed)
    (disjoint : groupsAreDisjoint routine.regions.catches routine.regions.finallies = true)
    (apart : final.EntriesApart) (shaped : final.procedure.Shaped) (other : Offset) :
    HandledFor routine final other node ↔
      routine.regions.exceptionTarget? other = routine.regions.exceptionTarget? offset := by
  have entry_ne_sink : ∀ {start : Offset} {entry : NodeIndex}, final.entries[start]? = some entry →
      entry ≠ Procedure.sink := by
    rintro start entry recorded rfl
    have kind := apart.kinds start _ recorded
    rw [shaped.sinkKind] at kind
    cases kind
  constructor
  · intro otherHandled
    unfold HandledFor at handled otherHandled
    cases target? : routine.regions.exceptionTarget? offset with
    | none =>
      rw [target?] at handled
      cases otherTarget? : routine.regions.exceptionTarget? other with
      | none => rfl
      | some otherTarget =>
        rw [otherTarget?] at otherHandled
        obtain ⟨start, entry, -, recorded, goes⟩ := otherHandled
        rw [handled] at goes
        exact absurd (List.cons.inj goes).1.symm (entry_ne_sink recorded)
    | some target =>
      rw [target?] at handled
      obtain ⟨start, entry, starts, recorded, goes⟩ := handled
      cases otherTarget? : routine.regions.exceptionTarget? other with
      | none =>
        rw [otherTarget?] at otherHandled
        rw [otherHandled] at goes
        exact absurd (List.cons.inj goes).1.symm (entry_ne_sink recorded)
      | some otherTarget =>
        rw [otherTarget?] at otherHandled
        obtain ⟨otherStart, otherEntry, otherStarts, otherRecorded, otherGoes⟩ := otherHandled
        rw [goes] at otherGoes
        cases (List.cons.inj otherGoes).1
        have sameStart := apart.apart start otherStart entry recorded otherRecorded
        subst sameStart
        rw [Regions.Handles.eq_of_start? wellFormed disjoint
          (Regions.handles_exceptionTarget? otherTarget?)
          (Regions.handles_exceptionTarget? target?) otherStarts starts]
  · intro same
    unfold HandledFor at handled ⊢
    rw [same]
    exact handled

end Walk

namespace Lowered

variable {program : Program} {declaring : TypeDef} {method : MethodDef} {body : MethodBody}
  {limits : Limits}

theorem seeded_continuations {pending : Pending}
    (member : pending ∈ (seeded program declaring method body).worklist) (node : NodeIndex) :
    pending.continuation ≠ .append node := by
  obtain ⟨first, -, -, rfl⟩ := mem_seeded_worklist member
  intro impossible
  cases impossible

theorem seeded_entriesApart : (seeded program declaring method body).EntriesApart := by
  constructor
  · intro offset entry found
    rw [entries_seeded, Std.ExtTreeMap.getElem?_empty] at found
    cases found
  · intro first second entry found
    rw [entries_seeded, Std.ExtTreeMap.getElem?_empty] at found
    cases found

/-- Every command that is emitted at an offset (`Walk.EmittedAt`) stands in a node whose exceptions
go to the handler of the offset at which the node was opened (`Walk.HandledFor`). This is the
handler of the command's own offset if and only if the two offsets have the same
`exceptionTarget?`. -/
theorem emitted_handledFor_iff (wellFormed : ∀ entry ∈ body.handlers, entry.WellFormed)
    (complete : (ofMethod program declaring method body limits).outcome = .complete) :
    ∃ final, Walk.Turns (Routine.ofBody declaring.name method body) limits
        (seeded program declaring method body) final ∧ final.worklist = [] ∧
      (ofMethod program declaring method body limits).procedure = final.procedure.finish ∧
      ∀ offset node command, Walk.EmittedAt (Routine.ofBody declaring.name method body) limits
          (seeded program declaring method body) offset node command →
        ∃ opened, Walk.AddedAt (Routine.ofBody declaring.name method body) limits
            (seeded program declaring method body) final opened node ∧
          Walk.HandledFor (Routine.ofBody declaring.name method body) final opened node ∧
          (Walk.HandledFor (Routine.ofBody declaring.name method body) final offset node ↔
            (Routine.ofBody declaring.name method body).regions.exceptionTarget? offset =
              (Routine.ofBody declaring.name method body).regions.exceptionTarget? opened) := by
  obtain ⟨final, turns, finished, procedure⟩ := ofMethod_complete complete
  refine ⟨final, turns, finished, procedure, ?_⟩
  rintro offset node command ⟨before, after, pending, earlier, takesUp, rfl, emits⟩
  have linear := seeded_linear program declaring method
    (code_of_takesUp earlier takesUp)
  have reached := Walk.Turns.linear earlier linear
  have ended := takesUp.linear reached
  have further := Walk.Turns.to_final (.tail earlier ⟨pending, takesUp⟩) turns finished
  have last := Walk.Turns.linear further ended
  have ordered : (Routine.ofBody declaring.name method body).regions.WellFormed :=
    Regions.wellFormed_analyze wellFormed body.instructions
  have valid := Walk.valid_of_emits reached takesUp emits
  obtain ⟨opened, added⟩ := Walk.addedAt_of_emits reached
    (Walk.continuesAdded linear (fun _ => seeded_continuations) earlier) earlier takesUp emits
  have guarded := added.guardedFor linear emits.1
  obtain ⟨first, second, _, toFirst, opens, toAfter, _, new, known⟩ := id added
  have knownAfter : node < after.procedure.size := Nat.lt_of_lt_of_le known
    (Walk.Turns.outgrows toAfter (opens.linear (Walk.Turns.linear toFirst linear))).extended.size_le
  have grows := Walk.Turns.outgrows further ended
  have lasting := guarded.mono grows (Walk.Turns.exceptionsKept further ended knownAfter)
  have handled := lasting.handledFor
    (Nat.lt_of_lt_of_le knownAfter grows.extended.size_le)
    (Nat.lt_of_lt_of_le (Walk.Turns.linear toFirst linear).shaped.sink_lt new)
  exact ⟨opened, added.later further, handled,
    handled.iff ordered (Regions.groupsAreDisjoint_of_valid valid)
      (Walk.Turns.entriesApart turns seeded_entriesApart) last.shaped pending.offset⟩

/-- A body that leaves a protected region for code to which only this leave leads. -/
def straddlingBody : MethodBody where
  locals := ["System.Int32"]
  instructions :=
    [⟨0, "ldc.i4.1", .none, none⟩, ⟨1, "stloc.0", .none, none⟩, ⟨2, "leave", .target 6, none⟩,
      ⟨3, "pop", .none, none⟩, ⟨4, "leave", .target 5, none⟩, ⟨5, "ret", .none, none⟩,
      ⟨6, "ldc.i4.2", .none, none⟩, ⟨7, "stloc.0", .none, none⟩, ⟨8, "ret", .none, none⟩]
  handlers := [⟨.catch, 0, 3, some 3, some 5, some "System.Exception"⟩]

def straddlingRoutine : Routine := .ofBody plainType.name plainMethod straddlingBody

/-- The store behind the protected region is emitted into the node of the store inside. -/
theorem emittedAt_straddling :
    Walk.EmittedAt straddlingRoutine .standard
      (seeded .empty plainType plainMethod straddlingBody) 7 3
      (.store (.address (.frame "V_0")) (.const (.int 2)) (.int .i32) ⟨none, ""⟩) := by
  let before := (seeded .empty plainType plainMethod straddlingBody).afterTurns straddlingRoutine
    .standard 4
  let pending : Pending :=
    ⟨7, 3, [⟨.const (.int 2), .int .i32⟩], 3, .append 3, none⟩
  have waiting : before.worklist.head? = some pending := by decide +kernel
  have goesOn : (before.nextTurn straddlingRoutine .standard).2 = none := by decide +kernel
  have takesUp := goesOn ▸ Walk.takesUp_nextTurn straddlingRoutine .standard waiting
  have kind : (before.nextTurn straddlingRoutine .standard).1.procedure.kind? 3 =
      some .statement := by decide +kernel
  refine ⟨before, _, pending, Walk.turns_afterTurns .., takesUp, rfl, ?_, 1, by decide +kernel,
    by decide +kernel⟩
  rintro (handler | ⟨branch, branchKind, entry, prune, -, -⟩)
  · cases kind.symm.trans handler
  · cases kind.symm.trans prune

/-- The node of the two stores was opened at the first one, whose handler differs. -/
theorem emitted_handledFor_iff_straddling :
    ∃ final opened, final.worklist = [] ∧
      Walk.AddedAt straddlingRoutine .standard (seeded .empty plainType plainMethod straddlingBody)
        final opened 3 ∧
      Walk.HandledFor straddlingRoutine final opened 3 ∧
      (Walk.HandledFor straddlingRoutine final 7 3 ↔
        straddlingRoutine.regions.exceptionTarget? 7 =
          straddlingRoutine.regions.exceptionTarget? opened) := by
  have wellFormed : ∀ entry ∈ straddlingBody.handlers, entry.WellFormed := by decide +kernel
  have complete : (ofMethod .empty plainType plainMethod straddlingBody .standard).outcome =
      .complete := by decide +kernel
  obtain ⟨final, -, finished, -, emitted⟩ := emitted_handledFor_iff wellFormed complete
  obtain ⟨opened, holds⟩ := emitted 7 3 _ emittedAt_straddling
  exact ⟨final, opened, finished, holds⟩

/-- Without a condition commands need not have the handler of their offset: the store behind the
protected region has no handler, but its node goes to the entry of the catch. -/
theorem not_handledFor_straddling :
    ∃ final command, Walk.Turns straddlingRoutine .standard
        (seeded .empty plainType plainMethod straddlingBody) final ∧ final.worklist = [] ∧
      Walk.EmittedAt straddlingRoutine .standard
        (seeded .empty plainType plainMethod straddlingBody) 7 3 command ∧
      straddlingRoutine.regions.exceptionTarget? 7 = none ∧
      final.entries[(3 : Offset)]? = some 4 ∧
      final.procedure.finish.exceptionsOf 3 = [4] ∧
      ¬ Walk.HandledFor straddlingRoutine final 7 3 := by
  have unguarded : straddlingRoutine.regions.exceptionTarget? 7 = none := by decide +kernel
  let final := (seeded .empty plainType plainMethod straddlingBody).afterTurns straddlingRoutine
    .standard 9
  have goes : final.procedure.finish.exceptionsOf 3 = [4] := by decide +kernel
  refine ⟨final, _, Walk.turns_afterTurns .., by decide +kernel, emittedAt_straddling, unguarded,
    by decide +kernel, goes, ?_⟩
  unfold Walk.HandledFor
  rw [unguarded]
  dsimp only
  rw [goes]
  decide

end Lowered

end BytecodeFlow

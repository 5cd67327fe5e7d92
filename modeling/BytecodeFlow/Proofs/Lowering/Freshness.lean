/-
This file shows that temporaries are fresh when they are taken. Wherever a run
comes, the next stamp is above the stamps of all that the current path carries,
and every waiting path has such a next stamp of its own, so a path that is
taken up again may go on counting from there although others have counted on
meanwhile (`Stamped`). Within a node the stamps of what is assigned rise
(`Rising`), so a node assigns no temporary twice.
-/

import BytecodeFlow.Proofs.Lowering.AssignedFirst
import BytecodeFlow.Proofs.Lowering.Concatenation
import BytecodeFlow.Proofs.Lowering.Scoping
import BytecodeFlow.Proofs.Walk.Stamping

namespace BytecodeFlow

namespace Walk

variable {routine : Routine} {limits : Limits} {before after : Walk} {pending : Pending}
  {rest : List Pending} {outcome : Option Outcome}

/-! ### Turns -/

/-- What is `live` when a path is taken up is what was `live` while it waited. -/
theorem live_arrive (before : Walk) (pending : Pending) (rest : List Pending) :
    (before.arrive pending rest).live = pending.live := by
  unfold live Pending.live Pending.held Pending.blockStack arrive resume visit
  cases pending.continuation <;> rfl

theorem Stamped.arrive (stamped : before.Stamped) (waiting : before.worklist = pending :: rest) :
    (before.arrive pending rest).Stamped := by
  have each := stamped.waiting
  rw [waiting] at each
  obtain ⟨timely, others⟩ := List.forall_mem_cons.mp each
  refine ⟨stamped.rising, ?_, others⟩
  rw [live_arrive]
  exact timely.live

/-- A path that is taken up is the only one that continues its node. -/
theorem Stamping.arrive (stamped : before.Stamped) (linear : before.Linear [])
    (waiting : before.worklist = pending :: rest) :
    Stamping pending.nextStamp (before.arrive pending rest) := by
  refine ⟨stamped.arrive waiting, Nat.le_refl _, fun node current => ?_⟩
  have continues := continuation_of_arrive current
  have member : pending ∈ before.worklist := by
    rw [waiting]
    exact List.mem_cons_self
  refine ⟨(stamped.waiting pending member).continued node continues, ?_⟩
  intro other waits otherContinues
  have previous := linear.appends pending member node continues
  have otherPrevious := linear.appends other
    (by rw [waiting]; exact List.mem_cons_of_mem _ waits) node otherContinues
  have distinct := linear.distinct
  unfold looseEnds at distinct
  rw [waiting, List.nil_append, List.map_cons, List.nodup_cons] at distinct
  refine distinct.1 (List.mem_map.mpr ⟨other, waits, ?_⟩)
  rw [← otherPrevious, previous]

/-- A turn leaves a walk `Stamped`, also if the run ends with it. -/
theorem Stamped.takesUp (stamped : before.Stamped) (linear : before.Linear [])
    (takesUp : TakesUp routine limits before pending after outcome) : after.Stamped := by
  obtain ⟨rest, overdue, waiting, turned⟩ := takesUp
  have arrived := stamped.arrive waiting
  cases turn_turned turned with
  | joined node shared => exact (Advances.link _ _ node).stamped arrived
  | halted location => exact ⟨arrived.rising, arrived.live, arrived.waiting⟩
  | performed instruction resolved _ fresh valid handled found resolves =>
    obtain ⟨-, left⟩ := (Operation.resolves_of_resolve resolves).idents
    have writing := Stamping.arrive stamped linear waiting
    have ready : Stamping pending.nextStamp
        ((before.arrive pending rest).ready routine instruction resolved.stack) := by
      have popped := writing.of_live left (List.Subset.refl _)
      exact ⟨⟨popped.stamped.rising, popped.stamped.live, popped.stamped.waiting⟩, popped.bounded,
        popped.current⟩
    exact ready.perform routine resolved.operation

end Walk

namespace Lowered

variable {program : Program} {declaring : TypeDef} {method : MethodDef} {body : MethodBody}
  {limits : Limits} {walk : Walk}

/-! ### Runs -/

/-- Clearing flags assigns the receiver only. -/
theorem rising_clearFlags (receiver : Ident) (location : Location) (flags : List FieldRef) :
    Rising (clearFlags declaring receiver location flags) := by
  have stores : assignedBy (flags.map fun flag => Command.store
      (Operation.fieldAddress (.var receiver) flag) (.int 0) .boolean location) = [] := by
    refine List.flatMap_eq_nil_iff.mpr fun command member => ?_
    obtain ⟨flag, -, rfl⟩ := List.mem_map.mp member
    rfl
  unfold Rising clearFlags assignedBy
  rw [List.flatMap_cons]
  unfold assignedBy at stores
  rw [stores]
  exact List.pairwise_singleton _ _

theorem prepared_stamped (program : Program) (declaring : TypeDef) (method : MethodDef)
    (body : MethodBody) : (prepared program declaring method body).1.Stamped := by
  have begun : (Walk.begin (program.begin (signatureOf declaring method body))).Stamped := by
    refine ⟨fun index => ?_, .nil _, List.forall_mem_nil _⟩
    have bare : (program.begin (signatureOf declaring method body)).commandsOf index = [] :=
      Procedure.commandsOf_begin ..
    show Rising ((program.begin (signatureOf declaring method body)).commandsOf index)
    rw [bare]
    exact List.Pairwise.nil
  unfold prepared constructorPrologue
  dsimp only
  split
  · exact begun
  · let start := Walk.begin (program.begin (signatureOf declaring method body))
    have rising : Rising (prologueNode declaring ⟨0⟩
      (signatureOf declaring method body).location).commands := rising_clearFlags ..
    have added := (Walk.Advances.addNode start rising).trans
      (.link _ Procedure.start start.procedure.size)
    exact (added.trans (.useIdents _ 1)).stamped begun

theorem seeded_stamped (program : Program) (declaring : TypeDef) (method : MethodDef)
    (body : MethodBody) : (seeded program declaring method body).Stamped := by
  have stamped := prepared_stamped program declaring method body
  unfold seeded Walk.seed
  split
  · exact stamped.queue (.of_newBlock (.nil _) rfl)
  · exact stamped

theorem stamped_of_turns
    (turns : Walk.Turns (Routine.ofBody declaring.name method body) limits
      (seeded program declaring method body) walk) : walk.Stamped := by
  have start := seeded_stamped program declaring method body
  by_cases code : body.instructions = []
  · obtain ⟨-, nothing⟩ := prepared_linear program declaring method body
    rw [seeded_of_nil code] at turns start
    rw [Walk.Turns.of_worklist_nil turns nothing]
    exact start
  · -- A turn keeps the stamps in order because each node is continued by one path at most.
    have both := turns.keep (fun walk => walk.Linear [] ∧ walk.Stamped)
      (fun holds takesUp => ⟨takesUp.linear holds.1, holds.2.takesUp holds.1 takesUp⟩)
      ⟨seeded_linear program declaring method code, start⟩
    exact both.2

theorem stamped_of_reached
    (reached : Walk.Reached (Routine.ofBody declaring.name method body) limits
      (seeded program declaring method body) walk) : walk.Stamped := by
  rcases reached with turns | ⟨last, pending, outcome, turns, takesUp⟩
  · exact stamped_of_turns turns
  · have linear := Walk.Turns.linear turns
      (seeded_linear program declaring method (code_of_takesUp turns takesUp))
    exact (stamped_of_turns turns).takesUp linear takesUp

theorem stamped_of_occurs
    (occurs : Walk.Occurs (Routine.ofBody declaring.name method body) limits
      (seeded program declaring method body) walk) : walk.Stamped := by
  cases occurs with
  | between reached => exact stamped_of_reached reached
  | arrived turns waiting => exact (stamped_of_turns turns).arrive waiting

/-! ### Procedures -/

/-- Finished or not, the commands of each node of a lowered method are `Rising`. -/
theorem ofMethod_rising (program : Program) (declaring : TypeDef) (method : MethodDef)
    (body : MethodBody) (limits : Limits) (index : NodeIndex) :
    Rising ((ofMethod program declaring method body limits).procedure.commandsOf index) := by
  obtain ⟨final, ends, procedure⟩ := ofMethod_ends program declaring method body limits
  have stamped : final.Stamped := stamped_of_reached ends.reached
  rw [procedure]
  split
  · rw [Procedure.commandsOf_finish]
    exact stamped.rising index
  · exact stamped.rising index

end Lowered

theorem Candidate.rising_of_placed {limits : Limits} {id offset : Nat} {methods : List Candidate}
    {name : String} {procedure : Procedure}
    (listed : (name, procedure) ∈ placed limits id offset methods) (index : NodeIndex) :
    Rising (procedure.commandsOf index) := by
  induction methods generalizing id offset with
  | nil => cases listed
  | cons first rest inductionHypothesis =>
    rcases List.mem_cons.mp listed with same | later
    · obtain ⟨-, rfl⟩ := Prod.mk.inj same
      exact Lowered.ofMethod_rising .empty first.declaring first.method first.body limits index
    · exact inductionHypothesis later

theorem Build.ofAssemblies_rising {assemblies : List Assembly} {limits : Limits} {name : String}
    {procedure : Procedure}
    (found : (ofAssemblies assemblies limits).program.procedures[name]? = some procedure)
    (index : NodeIndex) : Rising (procedure.commandsOf index) := by
  have concatenates := continueWith_concatenates (.start limits) .empty assemblies
  exact Candidate.rising_of_placed ((concatenates.holds name procedure).mp found) index

namespace Lowered

/-- Temporaries are fresh when they are taken. Wherever a run over a method comes (`Walk.Occurs`),
also where it gives up, the next stamp is above those of all temporaries on the operand stack, on
the stack at the start of the block and in the context of a finally (`Walk.live`), and every waiting
path has a next stamp that is above those of what it carries (`Pending.live`). So the next temporary
is none of those that are carried. Besides, each node assigns temporaries with rising stamps
(`Rising`), hence none twice: in the graph while it is built, in the procedure of the method, and in
the procedures of whole programs. -/
theorem stamps_fresh :
    (∀ (program : Program) (declaring : TypeDef) (method : MethodDef) (body : MethodBody)
      (limits : Limits),
      (∀ walk, Walk.Occurs (Routine.ofBody declaring.name method body) limits
          (seeded program declaring method body) walk →
        Below walk.nextStamp walk.live ∧ walk.nextIdent ∉ walk.live ∧
        (∀ pending ∈ walk.worklist,
          Below pending.nextStamp pending.live ∧ ⟨pending.nextStamp⟩ ∉ pending.live) ∧
        ∀ index, Rising (walk.procedure.commandsOf index) ∧
          (assignedBy (walk.procedure.commandsOf index)).Nodup) ∧
      ∀ index, Rising ((ofMethod program declaring method body limits).procedure.commandsOf
        index)) ∧
    ∀ (assemblies : List Assembly) (limits : Limits) (name : String) (procedure : Procedure),
      (Build.ofAssemblies assemblies limits).program.procedures[name]? = some procedure →
        ∀ index, Rising (procedure.commandsOf index) ∧
          (assignedBy (procedure.commandsOf index)).Nodup := by
  refine ⟨fun program declaring method body limits => ⟨fun walk occurs => ?_, ?_⟩, ?_⟩
  · have stamped := stamped_of_occurs occurs
    refine ⟨stamped.live, stamped.live.not_mem, fun pending member => ?_, fun index => ?_⟩
    · exact ⟨(stamped.waiting pending member).live, (stamped.waiting pending member).live.not_mem⟩
    · exact ⟨stamped.rising index, (stamped.rising index).nodup⟩
  · exact ofMethod_rising program declaring method body limits
  · intro assemblies limits name procedure found index
    have rising := Build.ofAssemblies_rising found index
    exact ⟨rising, rising.nodup⟩

/-- Code that adds a local variable to itself and catches exceptions meanwhile. -/
def doublingBody : MethodBody where
  locals := ["System.Int32"]
  instructions :=
    [⟨0, "ldloc.0", .none, none⟩, ⟨1, "ldloc.0", .none, none⟩, ⟨2, "add", .none, none⟩,
      ⟨3, "stloc.0", .none, none⟩, ⟨4, "leave", .target 7, none⟩, ⟨5, "pop", .none, none⟩,
      ⟨6, "leave", .target 7, none⟩, ⟨7, "ret", .none, none⟩]
  handlers := [⟨.catch, 0, 5, some 5, some 7, none⟩]

/-- The walk over `doublingBody` after both loads. -/
def doublingWalk : Walk :=
  (seeded .empty plainType plainMethod doublingBody).afterTurns
    (Routine.ofBody plainType.name plainMethod doublingBody) .standard 2

/-- The first load opens a node, for which the entry of the handler takes three stamps. So the
block assigns 0 and 4, while the path into the handler waits with 4 as its next stamp. -/
theorem stamps_fresh_doubling :
    assignedBy (doublingWalk.procedure.commandsOf 3) = [⟨0⟩, ⟨4⟩] ∧
      doublingWalk.worklist.map (fun pending => (pending.nextStamp, pending.live)) =
        [(5, [⟨4⟩, ⟨0⟩, ⟨4⟩, ⟨0⟩]), (4, [⟨2⟩, ⟨2⟩])] ∧
      doublingWalk.nextIdent = ⟨5⟩ ∧ doublingWalk.nextIdent ∉ doublingWalk.live ∧
      Below 5 doublingWalk.live ∧ Rising (doublingWalk.procedure.commandsOf 3) := by
  obtain ⟨below, fresh, -, assigns⟩ := (stamps_fresh.1 .empty plainType plainMethod doublingBody
    .standard).1 doublingWalk (.between (.inl (Walk.turns_afterTurns ..)))
  have next : doublingWalk.nextStamp = 5 := by decide +kernel
  rw [next] at below
  exact ⟨by decide +kernel, by decide +kernel, congrArg Ident.mk next, fresh, below,
    (assigns 3).1⟩

end Lowered

end BytecodeFlow

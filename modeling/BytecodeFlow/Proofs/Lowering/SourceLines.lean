/-
This file says which source lines commands get in methods without exception
handlers. The position in force is part of the `Walk` and not of a `Pending`
path, so an instruction without a line gets the line of the instruction that
was walked over last, whichever path this was on. After a fork all paths but
the first have to wait, so the lines follow the paths if each of the others
starts at an instruction with a line (`MarksForks`). In general they do not.
-/

import BytecodeFlow.Proofs.Lowering.Accounting
import BytecodeFlow.Proofs.Lowering.Seeding
import BytecodeFlow.Proofs.Walk.Additions
import BytecodeFlow.Proofs.Walk.Continuing

namespace BytecodeFlow

/-- Branches that depend on a value, so that control may also go on to the next instruction. -/
def Opcode.forks : Opcode → Bool
  | .brtrue => true
  | .brfalse => true
  | .branch _ => true
  | .switch => true
  | _ => false

namespace Routine

variable {routine : Routine} {first : Location}

/-! ### Positions along instructions -/

/-- The position after some instructions, the latest of which comes first: that of the latest one
with a line, or the given one if there is none. -/
def locationOn (routine : Routine) (first : Location) (walked : List Instruction) : Location :=
  match walked.findSome? Instruction.line with
  | some line => ⟨some line, routine.sourceFile⟩
  | none => first

theorem locationOn_cons (routine : Routine) (first : Location) (instruction : Instruction)
    (walked : List Instruction) :
    routine.locationOn first (instruction :: walked) =
      routine.locationOf instruction (routine.locationOn first walked) := by
  unfold locationOn locationOf
  rw [List.findSome?_cons]
  cases instruction.line <;> rfl

theorem locationOf_of_line {instruction : Instruction} (marked : instruction.line ≠ none)
    (one other : Location) :
    routine.locationOf instruction one = routine.locationOf instruction other := by
  unfold locationOf
  cases line : instruction.line with
  | none => exact absurd line marked
  | some line => rfl

/-! ### Marked forks -/

/-- Where the paths from a fork go on that have to wait: all but the first of the `branchTargets`
and the next offset. -/
def suspended (routine : Routine) (instruction : Instruction) : List Offset :=
  (instruction.branchTargets ++ (routine.nextOffset? instruction.offset).toList).tail

/-- The instruction at an offset, if there is one, has a line. -/
def Marked (routine : Routine) (offset : Offset) : Prop :=
  ∀ instruction ∈ routine.instructionAt? offset, instruction.line ≠ none

instance (routine : Routine) (offset : Offset) : Decidable (routine.Marked offset) :=
  inferInstanceAs (Decidable (∀ instruction ∈ routine.instructionAt? offset, _))

/-- Each path that is `suspended` at a fork starts at an instruction that is `Marked`. -/
def MarksForks (routine : Routine) : Prop :=
  ∀ instruction ∈ routine.instructions.toList, instruction.opcode.forks = true →
    ∀ offset ∈ routine.suspended instruction, routine.Marked offset

-- Offsets are finitely many, so the search for an instance could end in trying them all.
instance (routine : Routine) (instruction : Instruction) :
    Decidable (∀ offset ∈ routine.suspended instruction, routine.Marked offset) :=
  List.decidableBAll routine.Marked (routine.suspended instruction)

instance (routine : Routine) : Decidable routine.MarksForks :=
  inferInstanceAs (Decidable (∀ instruction ∈ routine.instructions.toList, _))

theorem offset_of_instructionAt? {declaringType : String} {method : MethodDef} {body : MethodBody}
    {offset : Offset} {instruction : Instruction}
    (found : (ofBody declaringType method body).instructionAt? offset = some instruction) :
    instruction.offset = offset := by
  obtain ⟨position, placed, listed⟩ := Option.bind_eq_some_iff.mp found
  have held : body.instructions[position]? = some instruction := by
    rw [← List.getElem?_toArray]
    exact listed
  obtain ⟨other, alsoHeld, same⟩ := getElem?_of_positionsOf placed
  cases held.symm.trans alsoHeld
  exact same

end Routine

namespace Walk

variable {routine : Routine} {limits : Limits} {start before walk after : Walk} {pending : Pending}
  {outcome : Option Outcome} {trail history : List Instruction} {trails : List (List Instruction)}

/-! ### Runs with their histories -/

/-- A run that keeps for each waiting path its trail, the instructions that were walked over on the
way to it, and a history of all instructions that were walked over. In both the latest comes
first. -/
inductive Traced (routine : Routine) (limits : Limits) (start : Walk) :
    Walk → List (List Instruction) → List Instruction → Prop
  | start : Traced routine limits start start (start.worklist.map fun _ => []) []
  | joined {before after : Walk} {pending : Pending} {node : NodeIndex}
    {trail history : List Instruction} {trails : List (List Instruction)}
    (traced : Traced routine limits start before (trail :: trails) history)
    (takesUp : TakesUp routine limits before pending after none)
    (shared : (before.arrive pending before.worklist.tail).reusableNode? routine = some node) :
    Traced routine limits start after trails history
  | walked {before after : Walk} {pending : Pending} {instruction : Instruction}
    {trail history : List Instruction} {trails : List (List Instruction)} {pushed : List Pending}
    (traced : Traced routine limits start before (trail :: trails) history)
    (takesUp : TakesUp routine limits before pending after none)
    (fresh : (before.arrive pending before.worklist.tail).reusableNode? routine = none)
    (found : routine.instructionAt? pending.offset = some instruction)
    (worklist : after.worklist = pushed ++ before.worklist.tail) :
    Traced routine limits start after (pushed.map (fun _ => instruction :: trail) ++ trails)
      (instruction :: history)

/-- Every run is `Traced`, with trails and a history. -/
theorem traced_of_turns (turns : Turns routine limits start walk) :
    ∃ trails history, Traced routine limits start walk trails history ∧
      trails.length = walk.worklist.length := by
  induction turns with
  | refl => exact ⟨_, _, .start, List.length_map ..⟩
  | @tail before after turns turn inductionHypothesis =>
    obtain ⟨trails, history, traced, length⟩ := inductionHypothesis
    obtain ⟨pending, takesUp⟩ := turn
    obtain ⟨rest, overdue, waiting, turned⟩ := id takesUp
    rw [waiting] at length
    obtain ⟨trail, others, rfl⟩ := List.exists_cons_of_length_eq_add_one length
    have tail : before.worklist.tail = rest := by rw [waiting]; rfl
    generalize goesOn : (none : Option Outcome) = outcome at turned
    cases turn_turned turned with
    | joined node shared =>
      exact ⟨others, history, traced.joined takesUp (by rw [tail]; exact shared),
        Nat.succ.inj length⟩
    | halted => cases goesOn
    | performed instruction resolved _ fresh valid handled found =>
      obtain ⟨pushed, worklist, -⟩ := takesUp.adds.queued
      refine ⟨_, _, traced.walked takesUp (by rw [tail]; exact fresh) found worklist, ?_⟩
      rw [worklist, List.length_append, List.length_append, List.length_map]
      exact congrArg _ (by rw [Nat.succ.inj length, ← tail]; rfl)

/-- The `nextTurn` of a walk takes up a path, walks over an instruction and queues some paths. -/
def StepsOver (routine : Routine) (limits : Limits) (walk : Walk) (pending : Pending)
    (instruction : Instruction) (pushed : List Pending) : Prop :=
  walk.worklist.head? = some pending ∧ (walk.nextTurn routine limits).2 = none ∧
    (walk.arrive pending walk.worklist.tail).reusableNode? routine = none ∧
    routine.instructionAt? pending.offset = some instruction ∧
    (walk.nextTurn routine limits).1.worklist = pushed ++ walk.worklist.tail

instance (routine : Routine) (limits : Limits) (walk : Walk) (pending : Pending)
    (instruction : Instruction) (pushed : List Pending) :
    Decidable (StepsOver routine limits walk pending instruction pushed) :=
  inferInstanceAs (Decidable (_ ∧ _ ∧ _ ∧ _ ∧ _))

theorem Traced.stepsOver {instruction : Instruction} {pushed : List Pending}
    (traced : Traced routine limits start walk (trail :: trails) history)
    (steps : StepsOver routine limits walk pending instruction pushed) :
    Traced routine limits start (walk.nextTurn routine limits).1
      (pushed.map (fun _ => instruction :: trail) ++ trails) (instruction :: history) := by
  obtain ⟨waiting, goesOn, fresh, found, worklist⟩ := steps
  exact traced.walked (goesOn ▸ takesUp_nextTurn routine limits waiting) fresh found worklist

/-! ### The position in force -/

theorem TakesUp.head?_worklist (takesUp : TakesUp routine limits before pending after outcome) :
    before.worklist.head? = some pending := by
  obtain ⟨rest, _, waiting, _⟩ := takesUp
  rw [waiting]
  rfl

theorem TakesUp.eq_of_shared (takesUp : TakesUp routine limits before pending after outcome)
    {node : NodeIndex}
    (shared : (before.arrive pending before.worklist.tail).reusableNode? routine = some node) :
    after = (before.arrive pending before.worklist.tail).linkPrevious node := by
  obtain ⟨rest, overdue, waiting, turned⟩ := takesUp
  rw [waiting, List.tail_cons] at shared ⊢
  rw [turn_of_shared shared] at turned
  cases turned
  rfl

/-- A turn after which the run goes on, and which does not join a node, performs an operation. -/
theorem TakesUp.continues (unguarded : routine.Unguarded)
    (takesUp : TakesUp routine limits before pending after none)
    (fresh : (before.arrive pending before.worklist.tail).reusableNode? routine = none)
    {instruction : Instruction} (found : routine.instructionAt? pending.offset = some instruction) :
    ∃ (resolved : Resolved) (offsets : List Offset),
      Operation.Resolves routine instruction pending.stack resolved.operation resolved.stack ∧
      Continues ((before.arrive pending before.worklist.tail).ready routine instruction
        resolved.stack) after offsets ∧
      Onward routine ((before.arrive pending before.worklist.tail).ready routine instruction
        resolved.stack) resolved.operation offsets := by
  obtain ⟨rest, overdue, waiting, turned⟩ := takesUp
  rw [waiting, List.tail_cons] at fresh ⊢
  generalize goesOn : (none : Option Outcome) = outcome at turned
  cases turn_turned turned with
  | joined node shared => cases fresh.symm.trans shared
  | halted => cases goesOn
  | performed again resolved _ _ valid handled alsoFound resolves =>
    cases found.symm.trans alsoFound
    obtain ⟨offsets, continues, onward⟩ := perform_continues unguarded
      ((before.arrive pending rest).ready routine instruction resolved.stack) resolved.operation
    exact ⟨resolved, offsets, Operation.resolves_of_resolve resolves, continues, onward⟩

/-- The position in force is `locationOn` the history. -/
theorem Traced.location (unguarded : routine.Unguarded)
    (traced : Traced routine limits start walk trails history) :
    walk.location = routine.locationOn start.location history := by
  induction traced with
  | start => rfl
  | joined traced takesUp shared inductionHypothesis =>
    rw [takesUp.eq_of_shared shared]
    exact inductionHypothesis
  | walked traced takesUp fresh found worklist inductionHypothesis =>
    obtain ⟨resolved, offsets, -, continues, -⟩ := takesUp.continues unguarded fresh found
    rw [continues.location, Routine.locationOn_cons, ← inductionHypothesis]
    rfl

/-- A command is new in a node between two walks. -/
def Writes (before after : Walk) (command : Command) : Prop :=
  ∃ (node : NodeIndex) (position : Nat),
    (before.procedure.commandsOf node)[position]? = none ∧
      (after.procedure.commandsOf node)[position]? = some command

/-- A command that a turn `Writes` has the line of the instruction, or the position that was in
force. -/
theorem TakesUp.location_of_writes (unguarded : routine.Unguarded)
    (takesUp : TakesUp routine limits before pending after outcome) {command : Command}
    (writes : Writes before after command) :
    ∃ instruction, routine.instructionAt? pending.offset = some instruction ∧
      command.location = routine.locationOf instruction before.location := by
  obtain ⟨node, position, absent, present⟩ := writes
  obtain ⟨rest, overdue, waiting, turned⟩ := takesUp
  cases turn_turned turned with
  | joined other shared =>
    have same : ((before.arrive pending rest).linkPrevious other).procedure.commandsOf node =
        before.procedure.commandsOf node := Procedure.commandsOf_link ..
    rw [same, absent] at present
    cases present
  | halted => cases absent.symm.trans present
  | performed instruction resolved _ fresh valid handled found =>
    obtain ⟨offsets, continues, -⟩ := perform_continues unguarded
      ((before.arrive pending rest).ready routine instruction resolved.stack) resolved.operation
    obtain ⟨commands, written, located⟩ := continues.writes node
    refine ⟨instruction, found, located command ?_⟩
    have beyond := List.getElem?_eq_none_iff.mp absent
    rw [written, show ((before.arrive pending rest).ready routine instruction
      resolved.stack).procedure.commandsOf node = before.procedure.commandsOf node from rfl,
      List.getElem?_append_right beyond] at present
    exact List.mem_of_getElem? present

/-! ### Trails -/

theorem suspended_of_onward {instruction : Instruction} {operation : Operation}
    {stack left : List Value} {offsets : List Offset}
    (resolves : Operation.Resolves routine instruction stack operation left)
    (onward : Onward routine walk operation offsets) (same : instruction.offset = walk.offset) :
    ∀ offset ∈ offsets.tail,
      instruction.opcode.forks = true ∧ offset ∈ routine.suspended instruction := by
  intro offset later
  cases onward with
  | nowhere => cases later
  | once => cases later
  | branch condition target next following =>
    have waits : ∀ (forks : instruction.opcode.forks = true)
        (operand : instruction.operand = .target target),
        instruction.opcode.forks = true ∧ offset ∈ routine.suspended instruction := by
      intro forks operand
      have targets : instruction.branchTargets = [target] := by
        rw [Instruction.branchTargets, operand]
      rw [Routine.suspended, targets, same, following]
      exact ⟨forks, later⟩
    cases resolves with
    | @test value stack expected target opcode operand =>
      refine waits ?_ operand
      rw [opcode]
      cases expected <;> rfl
    | branch opcode operand =>
      refine waits ?_ operand
      rw [opcode]
      rfl
  | select value targets next following =>
    cases resolves with
    | switch opcode operand =>
      have listed : instruction.branchTargets = targets := by
        rw [Instruction.branchTargets, operand]
        exact if_pos opcode
      rw [Routine.suspended, listed, same, following, opcode]
      exact ⟨rfl, later⟩

/-- All waiting paths but the first start where instructions are `Marked`. So does the first one, or
the position in force is `locationOn` its trail. -/
structure OnTrail (routine : Routine) (first : Location) (walk : Walk)
    (trails : List (List Instruction)) : Prop where
  next : ∀ pending ∈ walk.worklist.head?, ∀ trail ∈ trails.head?,
    routine.Marked pending.offset ∨ walk.location = routine.locationOn first trail
  others : ∀ pending ∈ walk.worklist.tail, routine.Marked pending.offset

/-- An instruction that is walked over leaves the position of its trail. -/
theorem OnTrail.locationOf {first : Location} {instruction : Instruction}
    (onTrail : OnTrail routine first before (trail :: trails))
    (waiting : before.worklist.head? = some pending)
    (found : routine.instructionAt? pending.offset = some instruction) :
    routine.locationOf instruction before.location =
      routine.locationOn first (instruction :: trail) := by
  rw [Routine.locationOn_cons]
  rcases onTrail.next pending waiting trail rfl with marked | same
  · exact Routine.locationOf_of_line (marked instruction found) _ _
  · rw [same]

end Walk

namespace Lowered

open Walk

variable {program : Program} {declaring : TypeDef} {method : MethodDef} {body : MethodBody}
  {limits : Limits} {before walk after : Walk} {pending : Pending} {outcome : Option Outcome}
  {trail history : List Instruction} {trails : List (List Instruction)}

theorem location_seeded :
    (seeded program declaring method body).location =
      (signatureOf declaring method body).location := by
  unfold seeded prepared constructorPrologue Walk.seed
  dsimp only
  split <;> split <;> rfl

/-- If a routine `MarksForks`, the position in force is that of the path that comes next, unless
this brings its own. -/
theorem onTrail_of_traced (plain : body.handlers = [])
    (marks : (Routine.ofBody declaring.name method body).MarksForks)
    (traced : Traced (Routine.ofBody declaring.name method body) limits
      (seeded program declaring method body) walk trails history) :
    OnTrail (Routine.ofBody declaring.name method body) (signatureOf declaring method body).location
      walk trails := by
  have unguarded := Routine.unguarded_ofBody declaring.name method plain
  induction traced with
  | start =>
    constructor
    · intro pending member trail first
      obtain ⟨_, _, rfl⟩ := List.mem_map.mp (List.mem_of_mem_head? first)
      exact .inr location_seeded
    · intro pending member
      obtain ⟨first, -, worklist, -⟩ := mem_seeded_worklist (List.mem_of_mem_tail member)
      rw [worklist] at member
      cases member
  | @joined before after pending node trail history trails traced takesUp shared onTrail =>
    rw [takesUp.eq_of_shared shared]
    exact ⟨fun next member _ _ => .inl (onTrail.others next (List.mem_of_mem_head? member)),
      fun other member => onTrail.others other (List.mem_of_mem_tail member)⟩
  | @walked before after pending instruction trail history trails pushed traced takesUp fresh found
      worklist onTrail =>
    obtain ⟨resolved, offsets, resolves, continues, onward⟩ :=
      takesUp.continues unguarded fresh found
    obtain ⟨again, alsoWorklist, leads⟩ := continues.queued
    obtain rfl : again = pushed :=
      List.append_cancel_right (alsoWorklist.symm.trans worklist)
    have same := Routine.offset_of_instructionAt? found
    have listed := instructionAt?_mem found
    have location : after.location = (Routine.ofBody declaring.name method body).locationOn
        (signatureOf declaring method body).location (instruction :: trail) :=
      continues.location.trans (onTrail.locationOf takesUp.head?_worklist found)
    cases again with
    | nil =>
      rw [List.nil_append] at worklist
      refine ⟨fun next member _ _ => .inl (onTrail.others next ?_),
        fun other member => onTrail.others other ?_⟩
      · rw [← worklist]
        exact List.mem_of_mem_head? member
      · rw [← worklist]
        exact List.mem_of_mem_tail member
    | cons next waiting =>
      refine ⟨fun _ _ _ first => .inr ?_, fun other member => ?_⟩
      · cases first
        exact location
      · rw [worklist] at member
        rcases List.mem_append.mp member with new | old
        · have later : other.offset ∈ offsets.tail := by
            rw [← leads]
            exact List.mem_map_of_mem new
          obtain ⟨forks, waits⟩ := suspended_of_onward resolves onward same _ later
          exact marks instruction listed forks _ waits
        · exact onTrail.others other old

/-- In a method without exception handlers, a command has the line of its instruction, or else that
of the last instruction with a line that was walked over before (the history that `Traced` keeps),
or else the first line of the method. If each path that has to wait after a fork starts at an
instruction with a line (`MarksForks`), this is the last one on the path on which the command was
reached (its trail). -/
theorem commands_follow_history (plain : body.handlers = []) :
    (∀ walk, Turns (Routine.ofBody declaring.name method body) limits
        (seeded program declaring method body) walk →
      ∃ trails history, Traced (Routine.ofBody declaring.name method body) limits
        (seeded program declaring method body) walk trails history ∧
        trails.length = walk.worklist.length) ∧
    ∀ before trail trails history pending after outcome command,
      Traced (Routine.ofBody declaring.name method body) limits
        (seeded program declaring method body) before (trail :: trails) history →
      TakesUp (Routine.ofBody declaring.name method body) limits before pending after outcome →
      Writes before after command → ∃ instruction,
        (Routine.ofBody declaring.name method body).instructionAt? pending.offset =
          some instruction ∧
        command.location = (Routine.ofBody declaring.name method body).locationOn
          (signatureOf declaring method body).location (instruction :: history) ∧
        ((Routine.ofBody declaring.name method body).MarksForks →
          command.location = (Routine.ofBody declaring.name method body).locationOn
            (signatureOf declaring method body).location (instruction :: trail)) := by
  refine ⟨fun walk turns => traced_of_turns turns, ?_⟩
  intro before trail trails history pending after outcome command traced takesUp writes
  have unguarded := Routine.unguarded_ofBody declaring.name method plain
  obtain ⟨instruction, found, located⟩ := takesUp.location_of_writes unguarded writes
  refine ⟨instruction, found, ?_, fun marks => ?_⟩
  · rw [located, Routine.locationOn_cons, traced.location unguarded, location_seeded]
  · rw [located]
    exact (onTrail_of_traced plain marks traced).locationOf takesUp.head?_worklist found

/-- Read the flag again, in an instruction that may have a line. -/
def forkedRead (marked : Bool) : Instruction :=
  ⟨2, "ldarg.0", .none, if marked then some 11 else none⟩

/-- A fork both ways of which end at once. The way that is taken first has a line. -/
def forkedBody (marked : Bool) : MethodBody where
  locals := []
  instructions :=
    [⟨0, "ldarg.0", .none, some 10⟩, ⟨1, "brtrue", .target 5, none⟩, forkedRead marked,
      ⟨3, "pop", .none, none⟩, ⟨4, "ret", .none, none⟩, ⟨5, "ret", .none, some 20⟩]
  handlers := []

def forkedMethod (marked : Bool) : MethodDef :=
  ⟨"Run", [⟨"flag", "System.Boolean"⟩], voidName, true, false, some "W.cs",
    some (forkedBody marked)⟩

def forkedRoutine (marked : Bool) : Routine :=
  .ofBody plainType.name (forkedMethod marked) (forkedBody marked)

/-- The walk over `forkedBody` after a number of turns. -/
def forkedWalk (marked : Bool) : Nat → Walk
  | 0 => seeded .empty plainType (forkedMethod marked) (forkedBody marked)
  | count + 1 => ((forkedWalk marked count).nextTurn (forkedRoutine marked) .standard).1

/-- The instructions of `forkedBody` up to the fork. -/
def forkedTrail : List Instruction :=
  [⟨1, "brtrue", .target 5, none⟩, ⟨0, "ldarg.0", .none, some 10⟩]

/-- The path of the second way, which waits while the first one is walked over. -/
def forkedPath : Pending := ⟨2, 5, [], 1, .append 5, none⟩

/-- Before the second way is taken up, the end of the first one is walked over. -/
theorem traced_forked (marked : Bool) :
    Walk.Traced (forkedRoutine marked) .standard (forkedWalk marked 0) (forkedWalk marked 3)
      [forkedTrail] (⟨5, "ret", .none, some 20⟩ :: forkedTrail) := by
  have enters : (forkedWalk marked 0).worklist.map (fun _ => ([] : List Instruction)) = [[]] := by
    cases marked <;> decide +kernel
  have reads : StepsOver (forkedRoutine marked) .standard (forkedWalk marked 0)
      ⟨0, 0, [], 0, .newBlock, none⟩ ⟨0, "ldarg.0", .none, some 10⟩
      [⟨1, 3, [⟨.var ⟨0⟩, .boolean⟩], 1, .append 3, none⟩] := by
    cases marked <;> decide +kernel
  have forks : StepsOver (forkedRoutine marked) .standard (forkedWalk marked 1)
      ⟨1, 3, [⟨.var ⟨0⟩, .boolean⟩], 1, .append 3, none⟩ ⟨1, "brtrue", .target 5, none⟩
      [⟨5, 4, [], 1, .append 4, none⟩, forkedPath] := by
    cases marked <;> decide +kernel
  have ends : StepsOver (forkedRoutine marked) .standard (forkedWalk marked 2)
      ⟨5, 4, [], 1, .append 4, none⟩ ⟨5, "ret", .none, some 20⟩ [] := by
    cases marked <;> decide +kernel
  have started : Traced (forkedRoutine marked) .standard (forkedWalk marked 0)
      (forkedWalk marked 0) [[]] [] := enters ▸ .start
  exact ((started.stepsOver reads).stepsOver forks).stepsOver ends

theorem takesUp_forkedPath (marked : Bool) :
    TakesUp (forkedRoutine marked) .standard (forkedWalk marked 3) forkedPath
      (forkedWalk marked 4) none := by
  have waits : (forkedWalk marked 3).worklist.head? = some forkedPath ∧
      ((forkedWalk marked 3).nextTurn (forkedRoutine marked) .standard).2 = none := by
    cases marked <;> decide +kernel
  exact waits.2 ▸ takesUp_nextTurn (forkedRoutine marked) .standard waits.1

theorem instructionAt?_forkedPath (marked : Bool) :
    (forkedRoutine marked).instructionAt? forkedPath.offset = some (forkedRead marked) := by
  cases marked <;> decide +kernel

theorem commands_follow_history_forked :
    (forkedBody true).handlers = [] ∧ (forkedRoutine true).MarksForks ∧
      ∃ command, Writes (forkedWalk true 3) (forkedWalk true 4) command ∧
        command.location = (forkedRoutine true).locationOn ⟨some 10, "W.cs"⟩
          (forkedRead true :: forkedTrail) := by
  have marks : (forkedRoutine true).MarksForks := by decide +kernel
  have plain : (forkedBody true).handlers = [] := rfl
  let command : Command := .load ⟨1⟩ (.address (.frame "flag")) .boolean ⟨some 11, "W.cs"⟩
  have writes : Writes (forkedWalk true 3) (forkedWalk true 4) command :=
    ⟨5, 1, by decide +kernel, by decide +kernel⟩
  obtain ⟨instruction, found, -, onTrail⟩ := (commands_follow_history plain).2 _ _ _ _ _ _ _ _
    (traced_forked true) (takesUp_forkedPath true) writes
  cases (instructionAt?_forkedPath true).symm.trans found
  exact ⟨plain, marks, command, writes, onTrail marks⟩

/-- Without a condition lines need not follow paths: the second way reads the flag in an
instruction without a line, and gets the line of the end of the first way. -/
theorem line_of_other_way :
    (forkedBody false).handlers = [] ∧ ∃ command history,
      Traced (forkedRoutine false) .standard
        (seeded .empty plainType (forkedMethod false) (forkedBody false)) (forkedWalk false 3)
        [forkedTrail] history ∧
      TakesUp (forkedRoutine false) .standard (forkedWalk false 3) forkedPath (forkedWalk false 4)
        none ∧
      (forkedRoutine false).instructionAt? forkedPath.offset =
        some ⟨2, "ldarg.0", .none, none⟩ ∧
      Writes (forkedWalk false 3) (forkedWalk false 4) command ∧
      command.location = ⟨some 20, "W.cs"⟩ ∧
      (forkedRoutine false).locationOn
        (signatureOf plainType (forkedMethod false) (forkedBody false)).location
        (⟨2, "ldarg.0", .none, none⟩ :: forkedTrail) = ⟨some 10, "W.cs"⟩ :=
  ⟨rfl, .load ⟨1⟩ (.address (.frame "flag")) .boolean ⟨some 20, "W.cs"⟩, _, traced_forked false,
    takesUp_forkedPath false, instructionAt?_forkedPath false,
    ⟨5, 1, by decide +kernel, by decide +kernel⟩, rfl, by decide +kernel⟩

end Lowered

end BytecodeFlow

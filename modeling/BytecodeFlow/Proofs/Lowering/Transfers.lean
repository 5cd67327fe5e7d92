/-
This file compares the paths that a walk queues with the edges that can be read
off the code (`StaticEdge`). A path goes on to the next instruction or to a
target of its instruction, it leads into a handler, or it ends a finally that a
leave has run and goes on to the target of the leave. So the leaders, which are
found before the walk, are where blocks start, and whatever goes on with a
block is an offset to which at most one edge leads (`FitsLeaders`).
-/

import BytecodeFlow.Proofs.Block.Leading
import BytecodeFlow.Proofs.Lowering.Accounting
import BytecodeFlow.Proofs.Lowering.Seeding
import BytecodeFlow.Proofs.Walk.Additions
import BytecodeFlow.Proofs.Walk.Moves

namespace BytecodeFlow

/-! ### Boundaries -/

theorem HandlerEntry.mem_boundaries {entry : HandlerEntry} {handler : Span}
    (complete : entry.handlerSpan? = some handler) (handled : entry.isUnhandled = false) :
    handler.start ∈ entry.boundaries := by
  unfold boundaries
  rw [complete, handled]
  simp

/-- Where a handler starts. -/
def Regions.HandlerStartsAt (regions : Regions) (offset : Offset) : Prop :=
  (∃ clause ∈ regions.catches, clause.handler.start = offset) ∨
    ∃ clause ∈ regions.finallies, clause.handler.start = offset

theorem Regions.HandlerStartsAt.mem_boundaries {entries : List HandlerEntry}
    {instructions : List Instruction} {offset : Offset}
    (starts : (analyze entries instructions).HandlerStartsAt offset) :
    offset ∈ (analyze entries instructions).boundaries := by
  rcases starts with ⟨clause, listed, rfl⟩ | ⟨clause, listed, rfl⟩
  · obtain ⟨entry, member, read⟩ := mem_catches_analyze.mp listed
    refine List.mem_flatMap.mpr ⟨entry, member, ?_⟩
    refine HandlerEntry.mem_boundaries (HandlerEntry.of_catchClause? read).1 ?_
    simp [HandlerEntry.isUnhandled, read]
  · obtain ⟨entry, member, read⟩ := mem_finallies_analyze.mp listed
    refine List.mem_flatMap.mpr ⟨entry, member, ?_⟩
    refine HandlerEntry.mem_boundaries (HandlerEntry.of_finallyClause? read).1 ?_
    simp [HandlerEntry.isUnhandled, read]

theorem Routine.contains_leaders {declaringType : String} {method : MethodDef} {body : MethodBody}
    {offset : Offset}
    (starts : (ofBody declaringType method body).regions.HandlerStartsAt offset) :
    (ofBody declaringType method body).leaders.contains offset = true :=
  contains_blockLeaders.mpr (.inl starts.mem_boundaries)

namespace Walk

variable {routine : Routine} {limits : Limits} {start before walk after : Walk} {pending : Pending}
  {outcome : Option Outcome}

theorem HandlerStart.startsAt (handler : HandlerStart routine walk pending) :
    routine.regions.HandlerStartsAt pending.offset ∧ pending.continuation = .newBlock := by
  cases handler with
  | intoCatch clause _ _ _ listed => exact ⟨.inl ⟨clause, listed, rfl⟩, rfl⟩
  | intoFinally clause _ _ _ listed => exact ⟨.inr ⟨clause, listed, rfl⟩, rfl⟩

/-! ### Leaves -/

/-- A leave to a target was walked over before a walk. -/
def HasLeft (routine : Routine) (limits : Limits) (start walk : Walk) (target : Offset) : Prop :=
  ∃ earlier pending later instruction, Turns routine limits start earlier ∧
    TakesUp routine limits earlier pending later none ∧ Turns routine limits later walk ∧
    (earlier.arrive pending earlier.worklist.tail).reusableNode? routine = none ∧
    routine.instructionAt? pending.offset = some instruction ∧
    instruction.opcode = .leave ∧ instruction.operand = .target target

theorem HasLeft.turn {target : Offset} (left : HasLeft routine limits start before target)
    (takesUp : TakesUp routine limits before pending after none) :
    HasLeft routine limits start after target := by
  obtain ⟨earlier, waiting, later, instruction, turns, leaves, rest, held⟩ := left
  exact ⟨earlier, waiting, later, instruction, turns, leaves, rest.tail ⟨pending, takesUp⟩, held⟩

/-- A turn that queues something walks over an instruction. -/
theorem TakesUp.performs_of_queued (takesUp : TakesUp routine limits before pending after outcome)
    {pushed : List Pending} (worklist : after.worklist = pushed ++ before.worklist.tail)
    {queued : Pending} (member : queued ∈ pushed) :
    (before.arrive pending before.worklist.tail).reusableNode? routine = none ∧
      ∃ instruction, routine.instructionAt? pending.offset = some instruction := by
  obtain ⟨rest, overdue, waiting, turned⟩ := takesUp
  rw [waiting] at worklist ⊢
  have nothing : after.worklist = rest → False := by
    intro same
    rw [worklist, List.tail_cons, List.append_left_eq_self] at same
    rw [same] at member
    cases member
  cases turn_turned turned with
  | joined node shared => exact (nothing rfl).elim
  | halted => exact (nothing rfl).elim
  | performed instruction resolved _ fresh valid handled found => exact ⟨fresh, instruction, found⟩

/-- Where a path waits that is on its way out of a finally to a target, the run `HasLeft` for this
target. -/
theorem hasLeft_of_waiting (turns : Turns routine limits start walk)
    (nothing : ∀ pending ∈ start.worklist, pending.finallyExit = none) {target : Offset}
    (waiting : pending ∈ walk.worklist) (exits : pending.finallyExit = some (.continue target)) :
    HasLeft routine limits start walk target := by
  induction turns generalizing pending target with
  | refl =>
    rw [nothing pending waiting] at exits
    cases exits
  | @tail before after turns turn inductionHypothesis =>
    obtain ⟨taken, takesUp⟩ := turn
    have first : taken ∈ before.worklist := by
      obtain ⟨rest, _, isFirst, _⟩ := takesUp
      rw [isFirst]
      exact List.mem_cons_self
    rcases takesUp.waits waiting with old | ⟨⟨pushed, worklist, member⟩, handler | ⟨_, found, way⟩⟩
    · exact (inductionHypothesis old exits).turn takesUp
    · cases handler <;> cases exits
    · cases way with
      | onward leads keeps => exact (inductionHypothesis first (keeps ▸ exits)).turn takesUp
      | intoFinally other position clause leaves operand runs isClause starts enters =>
        cases enters.symm.trans exits
        obtain ⟨fresh, -⟩ := takesUp.performs_of_queued worklist member
        exact ⟨before, taken, after, _, turns, takesUp, .refl, fresh, found, leaves, operand⟩
      | afterFinally ends entered outside =>
        rw [outside] at exits
        cases exits

/-! ### Transfers -/

/-- How control goes on to an offset from the instruction at a position, where `left` holds of the
targets of leaves so far. -/
inductive Transfers (routine : Routine) (left : Offset → Prop) (position : Nat)
    (instruction : Instruction) (offset : Offset) : Prop
  /-- To the next instruction. -/
  | next (following : Instruction) (falls : instruction.fallsThrough = true)
    (found : routine.instructions[position + 1]? = some following)
    (leads : following.offset = offset)
  | explicit (listed : offset ∈ instruction.branchTargets)
  /-- Into a handler, which starts at a boundary. -/
  | intoHandler (starts : routine.regions.HandlerStartsAt offset)
    (boundary : offset ∈ routine.regions.boundaries)
  /-- Out of a finally to where a leave wanted to go. -/
  | afterLeave (ends : instruction.opcode = .endfinally) (wanted : left offset)

/-- A turn walks over an instruction that `Transfers` control to an offset. -/
def GoesOn (routine : Routine) (limits : Limits) (start before : Walk) (pending : Pending)
    (offset : Offset) : Prop :=
  (before.arrive pending before.worklist.tail).reusableNode? routine = none ∧
    ∃ position instruction, routine.positions[pending.offset]? = some position ∧
      routine.instructions[position]? = some instruction ∧ instruction.offset = pending.offset ∧
      Transfers routine (HasLeft routine limits start before) position instruction offset

/-- A waiting path fits the leaders: it starts a new block only at a leader or at the first
instruction, and otherwise goes on to an offset that is none, to which at most one `StaticEdge`
leads. -/
structure FitsLeaders (routine : Routine) (pending : Pending) : Prop where
  opens : pending.continuation = .newBlock → routine.leaders.contains pending.offset = true ∨
    routine.instructions[0]?.map Instruction.offset = some pending.offset
  goesOn : pending.continuation ≠ .newBlock → routine.leaders.contains pending.offset = false ∧
    ∀ first second : StaticEdge,
      first.target? routine.instructions.toList = some pending.offset →
      second.target? routine.instructions.toList = some pending.offset → first = second

end Walk

namespace Lowered

open Walk

variable {program : Program} {declaring : TypeDef} {method : MethodDef} {body : MethodBody}
  {limits : Limits} {before after walk : Walk} {pending : Pending} {outcome : Option Outcome}

theorem seeded_fitsLeaders :
    ∀ pending ∈ (seeded program declaring method body).worklist,
      FitsLeaders (Routine.ofBody declaring.name method body) pending := by
  intro pending member
  obtain ⟨first, begins, -, rfl⟩ := mem_seeded_worklist member
  refine ⟨fun _ => .inr ?_, fun other => absurd rfl other⟩
  show body.instructions.toArray[0]?.map Instruction.offset = some first.offset
  rw [List.getElem?_toArray, ← List.head?_eq_getElem?, begins]
  rfl

theorem fitsLeaders_of_fits (fits : Fits (Routine.ofBody declaring.name method body) pending) :
    FitsLeaders (Routine.ofBody declaring.name method body) pending where
  opens opens := by
    rcases fits.opens opens with leader | ⟨clause, listed, starts⟩
    · exact .inl leader
    · exact .inl (Routine.contains_leaders (.inr ⟨clause, listed, starts.symm⟩))
  goesOn goesOn := ⟨fits.goesOn goesOn, fun first second firstLeads secondLeads =>
    StaticEdge.eq_of_not_leader (fits.goesOn goesOn) firstLeads secondLeads⟩

theorem fitsLeaders_takesUp (placed : ∀ pending ∈ before.worklist,
      FitsLeaders (Routine.ofBody declaring.name method body) pending)
    (takesUp : TakesUp (Routine.ofBody declaring.name method body) limits before pending after
      outcome) :
    ∀ queued ∈ after.worklist, FitsLeaders (Routine.ofBody declaring.name method body) queued := by
  intro queued member
  obtain ⟨pushed, worklist, allowed⟩ := takesUp.adds.queued
  rw [worklist] at member
  rcases List.mem_append.mp member with new | old
  · rcases allowed queued new with handler | ⟨_, _, _, fits⟩
    · obtain ⟨starts, opens⟩ := handler.startsAt
      exact ⟨fun _ => .inl (Routine.contains_leaders starts), fun other => absurd opens other⟩
    · exact fitsLeaders_of_fits fits
  · exact placed queued (List.mem_of_mem_tail old)

theorem goesOn_of_queued
    (turns : Turns (Routine.ofBody declaring.name method body) limits
      (seeded program declaring method body) before)
    (takesUp : TakesUp (Routine.ofBody declaring.name method body) limits before pending after
      outcome) :
    ∃ pushed, after.worklist = pushed ++ before.worklist.tail ∧ ∀ queued ∈ pushed,
      GoesOn (Routine.ofBody declaring.name method body) limits
        (seeded program declaring method body) before pending queued.offset := by
  obtain ⟨pushed, worklist, allowed⟩ := takesUp.adds.queued
  refine ⟨pushed, worklist, fun queued member => ?_⟩
  obtain ⟨fresh, instruction, found⟩ := takesUp.performs_of_queued worklist member
  obtain ⟨position, placed, listed⟩ := Option.bind_eq_some_iff.mp found
  have held : body.instructions[position]? = some instruction := by
    rw [← List.getElem?_toArray]
    exact listed
  obtain ⟨other, alsoHeld, same⟩ := getElem?_of_positionsOf placed
  cases held.symm.trans alsoHeld
  refine ⟨fresh, position, instruction, placed, listed, same, ?_⟩
  have waiting : pending ∈ before.worklist := by
    obtain ⟨rest, _, isFirst, _⟩ := takesUp
    rw [isFirst]
    exact List.mem_cons_self
  rcases allowed queued member with handler | ⟨again, alsoFound, way, -⟩
  · have starts := handler.startsAt.1
    exact .intoHandler starts starts.mem_boundaries
  · cases found.symm.trans alsoFound
    cases way with
    | onward leads keeps =>
      rcases leads with listed | ⟨falls, follows⟩
      · exact .explicit listed
      · obtain ⟨next, isNext, leads⟩ : ∃ next,
            (Routine.ofBody declaring.name method body).instructions[position + 1]? = some next ∧
              next.offset = queued.offset := by
          simpa [Routine.nextOffset?, placed, Option.bind_eq_some_iff] using follows
        exact .next next falls isNext leads
    | intoFinally target at? clause leaves operand runs isClause starts exits =>
      have handler : (Routine.ofBody declaring.name method body).regions.HandlerStartsAt
          queued.offset := .inr ⟨clause, List.mem_of_getElem? isClause, starts.symm⟩
      exact .intoHandler handler handler.mem_boundaries
    | afterFinally ends entered outside =>
      exact .afterLeave ends (hasLeft_of_waiting turns (fun _ => seeded_contexts) waiting entered)

/-- The edges that can be read off the code and the starts of handlers are all that the walk over a
method follows, up to the ends of finallies, which go on to the targets of leaves (`GoesOn`). So
wherever a run comes, the waiting paths fit the leaders (`FitsLeaders`). -/
theorem transfers_are_static (program : Program) (declaring : TypeDef) (method : MethodDef)
    (body : MethodBody) (limits : Limits) :
    (∀ before pending after outcome,
      Turns (Routine.ofBody declaring.name method body) limits
        (seeded program declaring method body) before →
      TakesUp (Routine.ofBody declaring.name method body) limits before pending after outcome →
      ∃ pushed, after.worklist = pushed ++ before.worklist.tail ∧ ∀ queued ∈ pushed,
        GoesOn (Routine.ofBody declaring.name method body) limits
          (seeded program declaring method body) before pending queued.offset) ∧
    ∀ walk, Reached (Routine.ofBody declaring.name method body) limits
        (seeded program declaring method body) walk →
      ∀ waiting ∈ walk.worklist,
        FitsLeaders (Routine.ofBody declaring.name method body) waiting := by
  refine ⟨fun before pending after outcome turns takesUp => goesOn_of_queued turns takesUp,
    fun walk reached => ?_⟩
  exact reached.keep (fun walk => ∀ waiting ∈ walk.worklist,
    FitsLeaders (Routine.ofBody declaring.name method body) waiting) fitsLeaders_takesUp
    seeded_fitsLeaders

end Lowered

end BytecodeFlow

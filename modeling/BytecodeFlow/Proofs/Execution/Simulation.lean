/-
This file shows that the procedure of a routine without protected regions does
what the routine does. A state of the stack machine is related to a `Point` of
the procedure through a turn of the walk (`Simulated`): the turn performs the
next operation that needs a node, and the point is where the node of this turn
goes on or is about to be entered. When a path joined the node of an earlier
path, the turn is the one that opened this node.
-/

import BytecodeFlow.Proofs.Execution.Blocks
import BytecodeFlow.Proofs.Execution.Tracking
import BytecodeFlow.Proofs.Lowering.Branching

namespace BytecodeFlow

variable {V W : Type}

namespace Walk

variable {routine : Routine} {limits : Limits} {start walk final : Walk}

/-! ### Complete runs -/

/-- A walk over an `Unguarded` routine from a `Tracked` start, with all `Turns` until no path is
left waiting. -/
structure Course (routine : Routine) (limits : Limits) (start final : Walk) : Prop where
  unguarded : routine.Unguarded
  floatless : routine.Floatless
  apart : routine.NamesApart
  linear : start.Linear []
  tracked : Tracked routine limits start start
  terminals : ∀ node, node = Procedure.exit ∨ node = Procedure.sink →
    start.procedure.commandsOf node = []
  turns : Turns routine limits start final
  finished : final.worklist = []

theorem Turns.completedBy (turns : Turns routine limits walk final) (linear : walk.Linear []) :
    walk.procedure.CompletedBy final.procedure.finish := by
  have extended := (Turns.outgrows turns linear).extended
  have shaped := (Turns.linear turns linear).shaped
  refine ⟨?_, ?_, ?_⟩
  · intro index
    rw [Procedure.commandsOf_finish]
    exact extended.commandsOf index
  · intro index closed
    rw [Procedure.commandsOf_finish]
    exact Procedure.commandsOf_congr (Turns.kept_of_closed turns linear closed)
  · intro source target edge
    have later := (extended.successorsOf source).subset edge
    rw [Procedure.successorsOf_finish_of_ne]
    · exact later
    · rintro rfl
      rw [shaped.sinkCloses] at later
      cases later

namespace Course

variable (course : Course routine limits start final)

include course

theorem linearAt (reached : Turns routine limits start walk) : walk.Linear [] :=
  Turns.linear reached course.linear

theorem trackedAt (reached : Turns routine limits start walk) :
    Tracked routine limits start walk :=
  tracked_of_turns course.unguarded course.floatless course.linear course.tracked reached

theorem onward (reached : Turns routine limits start walk) : Turns routine limits walk final :=
  Turns.to_final reached course.turns course.finished

theorem completedBy (reached : Turns routine limits start walk) :
    walk.procedure.CompletedBy final.procedure.finish :=
  Turns.completedBy (course.onward reached) (course.linearAt reached)

/-- The exit and the sink have no commands. -/
theorem commandsOf_terminal {node : NodeIndex}
    (terminal : node = Procedure.exit ∨ node = Procedure.sink) :
    final.procedure.finish.commandsOf node = [] := by
  have kept : final.procedure.node? node = start.procedure.node? node := by
    have turns := course.turns
    have linear := course.linear
    clear course
    induction turns with
    | refl => rfl
    | tail turns turn inductionHypothesis =>
      obtain ⟨pending, takesUp⟩ := turn
      have linear := Turns.linear turns linear
      obtain ⟨-, -, notExit, notSink⟩ := linear.loose_of_waiting takesUp.mem_worklist
      rw [← inductionHypothesis]
      rcases terminal with rfl | rfl
      · exact takesUp.kept linear linear.shaped.joinable_exit.known notExit.symm
      · exact takesUp.kept linear linear.shaped.sink_lt notSink.symm
  rw [Procedure.commandsOf_finish, Procedure.commandsOf_congr kept]
  exact course.terminals node terminal

/-- What is thrown out of the method goes from the sink to the exit. -/
theorem sink_step {interpretation : Interpretation V W} {store : Store V W} :
    final.procedure.finish.Step interpretation ⟨Procedure.sink, 0, store⟩
      ⟨Procedure.exit, 0, store⟩ := by
  have leads : Procedure.exit ∈ final.procedure.finish.successorsOf Procedure.sink := by
    rw [(course.linearAt course.turns).shaped.successorsOf_finish_sink]
    exact List.mem_singleton_self _
  have step : final.procedure.finish.Step interpretation
      ⟨Procedure.sink, (final.procedure.finish.commandsOf Procedure.sink).length, store⟩
      ⟨Procedure.exit, 0, store⟩ := .edge leads
  rw [course.commandsOf_terminal (.inr rfl)] at step
  exact step

end Course

/-! ### Points -/

/-- A point is not right before a prune. -/
def Clear (procedure : Procedure) (node : NodeIndex) (position : Nat) : Prop :=
  procedure.IsPrune node → 0 < position

/-- The place in the final procedure from which the node of a `Performance` is reached. -/
inductive Performance.Placed (turn : Performance routine limits) (procedure : Procedure) :
    NodeIndex → Nat → Prop
  /-- The block of the turn goes on in the node. -/
  | inside {node : NodeIndex} (continued : turn.pending.continuation = .append node) :
    Placed turn procedure node (turn.before.procedure.commandsOf node).length
  /-- The node is the one that the path follows. -/
  | behind (fresh : turn.pending.Fresh) :
    Placed turn procedure turn.pending.previous
      (procedure.commandsOf turn.pending.previous).length
  /-- The node is the one that the turn opens. -/
  | entered (fresh : turn.pending.Fresh) (acts : turn.operation ≠ .proceed) :
    Placed turn procedure turn.before.procedure.size 0

/-- The operands and the scene of the stack machine are those at a point: `Covers` relates the
stacks, and `Mirrors` the scenes. -/
structure Agrees (routine : Routine) (interpretation : Interpretation V W)
    (earlier : List (Effect String V)) (procedure : Procedure) (symbolic : List Value)
    (stack : List (V × Typ)) (scene : Scene Slot V W) (point : Point V W) : Prop where
  covers : Covers interpretation point.store.idents symbolic stack
  mirrors : scene.Mirrors routine earlier point.store.scene
  blank : point.store.result = .returned none
  clear : Clear procedure point.node point.position

/-- The stack machine is about to execute the instruction of a `Performance`, and `Agrees` with a
point where this one is `Placed`. -/
structure Follows (interpretation : Interpretation V W) (earlier : List (Effect String V))
    (start final : Walk) (turn : Performance routine limits) (stack : List (V × Typ))
    (scene : Scene Slot V W) (point : Point V W) : Prop where
  reached : Turns routine limits start turn.before
  agrees : Agrees routine interpretation earlier final.procedure.finish turn.pending.stack stack
    scene point
  placed : turn.Placed final.procedure.finish point.node point.position

/-- A state of the stack machine is related to a point. -/
inductive Simulated (routine : Routine) (limits : Limits) (interpretation : Interpretation V W)
    (earlier : List (Effect String V)) (start final walk : Walk) :
    Offset → List (V × Typ) → Scene Slot V W → Point V W → Prop
  /-- A turn that comes after the walk takes up the path of the machine. -/
  | ahead {turn : Performance routine limits} {stack : List (V × Typ)} {scene : Scene Slot V W}
    {point : Point V W} (later : Turns routine limits walk turn.before)
    (follows : Follows interpretation earlier start final turn stack scene point) :
    Simulated routine limits interpretation earlier start final walk turn.pending.offset stack
      scene point
  /-- The path of the machine joined the node that a turn opened. Only values are combined on the
  way to the instruction of this turn. -/
  | aside {turn : Performance routine limits} {symbolic : List Value} {offset : Offset}
    {stack : List (V × Typ)} {scene : Scene Slot V W} {point : Point V W}
    (reached : Turns routine limits start turn.before)
    (quiet : routine.Quiet (offset, symbolic) (turn.pending.offset, turn.pending.stack))
    (agrees : Agrees routine interpretation earlier final.procedure.finish symbolic stack scene
      point)
    (fresh : turn.pending.Fresh) (acts : turn.operation ≠ .proceed)
    (leads : turn.before.procedure.size ∈ final.procedure.finish.successorsOf point.node)
    (ends : point.position = (final.procedure.finish.commandsOf point.node).length) :
    Simulated routine limits interpretation earlier start final walk offset stack scene point

/-- What the procedure makes of a `Transition` of the stack machine: its `Steps` lead to a point by
which the next state is `Simulated`, or to the exit with the same result. -/
inductive Matched (routine : Routine) (limits : Limits) (interpretation : Interpretation V W)
    (earlier : List (Effect String V)) (start final walk : Walk) (point : Point V W) :
    Transition V W → Prop
  | next {offset : Offset} {stack : List (V × Typ)} {scene : Scene Slot V W} {later : Point V W}
    (steps : final.procedure.finish.Steps interpretation point later)
    (simulated : Simulated routine limits interpretation earlier start final walk offset stack
      scene later) :
    Matched routine limits interpretation earlier start final walk point
      (.next offset stack scene)
  | ended {result : Result V} {scene : Scene Slot V W} {store : Store V W}
    (steps : final.procedure.finish.Steps interpretation point ⟨Procedure.exit, 0, store⟩)
    (leaves : store.result = result) (mirrors : scene.Mirrors routine earlier store.scene) :
    Matched routine limits interpretation earlier start final walk point (.ended result scene)

section Simulation

variable {interpretation : Interpretation V W} {earlier : List (Effect String V)}
  {offset : Offset} {stack : List (V × Typ)} {scene : Scene Slot V W} {point : Point V W}

/-- A path that waits behind the point is `Simulated`: a turn takes it up, or it joins a node that
another turn opened. -/
theorem simulated_of_waiting (course : Course routine limits start final)
    (reached : Turns routine limits start walk) {pending : Pending}
    (waits : pending ∈ walk.worklist)
    (agrees : Agrees routine interpretation earlier final.procedure.finish pending.stack stack scene
      point)
    (node : point.node = pending.previous)
    (position : point.position = (walk.procedure.commandsOf pending.previous).length) :
    Simulated routine limits interpretation earlier start final walk pending.offset stack scene
      point := by
  have onward := course.onward reached
  have linear := course.linearAt reached
  obtain ⟨before, after, taken, takesUp, ends, kept⟩ :=
    Turns.takenUp onward course.finished linear waits
  have reachedBefore := reached.trans taken
  have linearBefore := course.linearAt reachedBefore
  have tracked := course.trackedAt reachedBefore
  have waitsStill := takesUp.mem_worklist
  have lasting : pending.Fresh →
      point.position = (final.procedure.finish.commandsOf point.node).length := by
    intro fresh
    rw [node, Procedure.commandsOf_finish, Turns.commandsOf_followed onward linear waits fresh]
    exact position
  rcases takesUp.joins_or_performs course.unguarded linearBefore
    (tracked.waiting pending waitsStill).outside with
    ⟨rest, joined, recorded, waiting, fresh, opened, similar, rfl⟩ | ⟨turn, rfl, rfl, rfl⟩
  · obtain ⟨turn, turns, -, opens, acts, same, tame, quiet⟩ := tracked.opened _ _ opened
    have covers := agrees.covers.of_prefix (tame.prefix_of_topAgrees similar)
    refine .aside turns quiet { agrees with covers } opens acts ?_ (lasting fresh)
    rw [node, ← same]
    refine (course.completedBy (reachedBefore.tail ⟨pending, takesUp⟩)).edges _ _ ?_
    obtain ⟨known, loose, -⟩ := linearBefore.loose_of_waiting waitsStill
    change joined ∈ (before.procedure.link pending.previous joined).successorsOf pending.previous
    rw [Procedure.successorsOf_link_self known (by rw [loose]; exact List.not_mem_nil)]
    exact List.mem_append_right _ (List.mem_singleton_self _)
  · refine .ahead taken ⟨reachedBefore, agrees, ?_⟩
    by_cases fresh : turn.pending.Fresh
    · rw [lasting fresh, node]
      exact .behind fresh
    · obtain ⟨continued, appends⟩ : ∃ node, turn.pending.continuation = .append node := by
        simpa [Pending.Fresh] using fresh
      have own := linearBefore.appends _ waitsStill continued appends
      rw [position, node, ← Procedure.commandsOf_congr kept, ← own]
      exact .inside appends

/-! ### The node of a turn -/

namespace Performance

variable (turn : Performance routine limits)

/-- A `Performance` whose path is `Fresh` opens the next node. -/
theorem opens_of_fresh (fresh : turn.pending.Fresh) :
    turn.ready.current = none ∧ turn.ready.blockNode = turn.before.procedure.size ∧
      turn.ready.written = [] := by
  have current : turn.ready.current = none := current_of_fresh turn.before turn.rest fresh
  unfold blockNode Walk.written
  rw [current]
  exact ⟨rfl, rfl, rfl⟩

theorem current_of_continued {node : NodeIndex}
    (continued : turn.pending.continuation = .append node) :
    turn.ready.blockNode = node ∧ turn.ready.written = turn.before.procedure.commandsOf node := by
  have current : turn.ready.current = some node :=
    current_of_append turn.before turn.rest continued
  unfold blockNode Walk.written
  rw [current]
  exact ⟨rfl, rfl⟩

/-- The node that a turn opens is not one that `IsPrune`. -/
theorem not_isPrune_of_fresh (course : Course routine limits start final)
    (reached : Turns routine limits start turn.after) (fresh : turn.pending.Fresh)
    (acts : turn.operation ≠ .proceed) :
    ¬ final.procedure.finish.IsPrune turn.before.procedure.size := by
  obtain ⟨current, -, -⟩ := turn.opens_of_fresh fresh
  rcases turn.performed.opened_cases with ⟨proceeds, -⟩ | ⟨-, recorded⟩
  · exact absurd proceeds acts
  have member : (turn.before.procedure.size, turn.ready.blockStack) ∈
      turn.after.opened.getD turn.ready.blockStart [] := by
    change turn.after.opened = turn.ready.recorded at recorded
    rw [recorded, Walk.recorded, current]
    simp only [Std.ExtTreeMap.getD_insert_self]
    exact List.mem_append_right _ (List.mem_singleton_self _)
  have joinable := ((course.linearAt reached).opened _ _ member).extends
    (Turns.outgrows (course.onward reached) (course.linearAt reached)).extended
  rintro ⟨branch, kind, prune⟩
  rw [Procedure.kind?_finish] at prune
  exact joinable.notPrune ⟨branch, kind, prune⟩

end Performance

namespace Performance.Placed

variable {turn : Performance routine limits} {node : NodeIndex} {position : Nat}
  {commands : List Command}

/-- The node of a turn is entered, or the turn goes on in it. -/
theorem enters (placed : turn.Placed final.procedure.finish node position)
    (course : Course routine limits start final)
    (reached : Turns routine limits start turn.after)
    (written : turn.ready.Written commands turn.after.procedure) (store : Store V W) :
    final.procedure.finish.Steps interpretation ⟨node, position, store⟩
      ⟨turn.ready.blockNode, turn.ready.written.length, store⟩ := by
  cases placed with
  | inside continued =>
    obtain ⟨same, held⟩ := turn.current_of_continued continued
    rw [same, held]
  | behind fresh =>
    obtain ⟨current, opens, empty⟩ := turn.opens_of_fresh fresh
    rw [empty]
    exact .single (.edge ((course.completedBy reached).edges _ _ (written.entered current)))
  | entered fresh acts =>
    obtain ⟨current, opens, empty⟩ := turn.opens_of_fresh fresh
    rw [empty, opens]
    exact .refl

/-- The node of a turn is entered, and the commands of the turn are executed in it. -/
theorem runs (placed : turn.Placed final.procedure.finish node position)
    (course : Course routine limits start final)
    (reached : Turns routine limits start turn.after)
    (written : turn.ready.Written commands turn.after.procedure) {store later : Store V W}
    (runs : store.runAll? interpretation commands = some later) :
    final.procedure.finish.Steps interpretation ⟨node, position, store⟩
      ⟨turn.ready.blockNode, (turn.after.procedure.commandsOf turn.ready.blockNode).length,
        later⟩ := by
  refine (placed.enters course reached written store).trans ?_
  have held := (course.completedBy reached).commands turn.ready.blockNode
  rw [written.commands] at held ⊢
  exact Procedure.steps_commands held runs

/-- In the node of a turn no prune comes next. -/
theorem clear (placed : turn.Placed final.procedure.finish node position)
    (course : Course routine limits start final)
    (reached : Turns routine limits start turn.after) (acts : turn.operation ≠ .proceed)
    (written : turn.ready.Written commands turn.after.procedure)
    (clear : Clear final.procedure.finish node position) :
    Clear final.procedure.finish turn.ready.blockNode
      (turn.after.procedure.commandsOf turn.ready.blockNode).length := by
  have opened : turn.pending.Fresh → ¬ final.procedure.finish.IsPrune turn.ready.blockNode := by
    intro fresh
    rw [(turn.opens_of_fresh fresh).2.1]
    exact turn.not_isPrune_of_fresh course reached fresh acts
  cases placed with
  | inside continued =>
    obtain ⟨same, held⟩ := turn.current_of_continued continued
    intro prune
    rw [same] at prune
    rw [written.commands, held, List.length_append]
    exact Nat.lt_of_lt_of_le (clear prune) (Nat.le_add_right _ _)
  | behind fresh => exact fun prune => absurd prune (opened fresh)
  | entered fresh => exact fun prune => absurd prune (opened fresh)

/-- A turn that only combines values changes nothing, and its path goes on from the same place. -/
theorem stays (placed : turn.Placed final.procedure.finish node position)
    (course : Course routine limits start final)
    (reached : Turns routine limits start turn.before) (proceeds : turn.operation = .proceed) :
    node = turn.ready.owner ∧ position = (turn.before.procedure.commandsOf node).length := by
  cases placed with
  | inside continued =>
    have current : turn.ready.current = some node :=
      current_of_append turn.before turn.rest continued
    unfold owner
    rw [current]
    exact ⟨rfl, rfl⟩
  | behind fresh =>
    obtain ⟨current, -, -⟩ := turn.opens_of_fresh fresh
    unfold owner
    rw [current, Procedure.commandsOf_finish, Turns.commandsOf_followed (course.onward reached)
      (course.linearAt reached) turn.takenWaits fresh]
    exact ⟨rfl, rfl⟩
  | entered fresh acts => exact absurd proceeds acts

end Performance.Placed

/-! ### Operations -/

namespace Follows

variable {turn : Performance routine limits} {transition : Transition V W}
  {commands : List Command}

/-- After an operation that only combines values the point stays where it is. -/
theorem act_proceed (follows : Follows interpretation earlier start final turn stack scene point)
    (course : Course routine limits start final)
    (mirrored : turn.operation.Mirrored interpretation routine earlier point.store
      turn.pending.offset turn.stack transition)
    (proceeds : turn.operation = .proceed) {next : Offset}
    (following : routine.nextOffset? turn.pending.offset = some next)
    (goesOn : turn.after = turn.ready.queue (turn.ready.fallThroughTo routine next)) :
    Matched routine limits interpretation earlier start final turn.after point transition := by
  have reached : Turns routine limits start turn.after :=
    follows.reached.tail ⟨turn.pending, turn.takesUp⟩
  have waits : turn.ready.fallThroughTo routine next ∈ turn.after.worklist := by
    rw [goesOn]
    exact List.mem_cons_self
  obtain ⟨node, position⟩ := follows.placed.stays course follows.reached proceeds
  have onward := fallThroughTo_previous routine turn.ready next
  obtain ⟨sameOffset, sameStack⟩ := fallThroughTo_path routine turn.ready next
  rw [proceeds] at mirrored
  cases mirrored with
  | proceed known covers mirrors =>
    cases following.symm.trans known
    rw [← sameOffset]
    refine .next .refl (simulated_of_waiting course reached waits ?_ (node.trans onward.symm) ?_)
    · rw [sameStack]
      exact { follows.agrees with covers, mirrors }
    · rw [onward, ← node, position, goesOn]
      rfl

/-- The commands of a `Straight` operation are executed. -/
theorem act_straight (follows : Follows interpretation earlier start final turn stack scene point)
    (course : Course routine limits start final)
    (mirrored : turn.operation.Mirrored interpretation routine earlier point.store
      turn.pending.offset turn.stack transition)
    {target : Offset} {left : List Value} {nextStamp : Nat}
    (straight : Straight routine turn.ready turn.operation commands target left nextStamp)
    (written : turn.ready.Written commands turn.after.procedure)
    (worklist : turn.after.worklist =
      routine.pathTo left nextStamp (turn.ready.blockNode, target) :: turn.ready.worklist) :
    Matched routine limits interpretation earlier start final turn.after point transition := by
  have reached : Turns routine limits start turn.after :=
    follows.reached.tail ⟨turn.pending, turn.takesUp⟩
  have waits : routine.pathTo left nextStamp (turn.ready.blockNode, target) ∈
      turn.after.worklist := by
    rw [worklist]
    exact List.mem_cons_self
  have acts : turn.operation ≠ .proceed := by
    intro proceeds
    rw [proceeds] at straight
    cases straight
  have sound := (course.trackedAt follows.reached).waiting _ turn.takenWaits
  obtain ⟨operands, last, later, rfl, runs, covers, mirrors, result⟩ :=
    straight.runs mirrored (turn.tame course.floatless sound) fun callee arguments constructs => by
      have resolves := turn.resolves
      rw [constructs] at resolves
      exact resolves.tame_arguments sound.tame
  have steps := follows.placed.runs course reached written runs
  have clear := follows.placed.clear course reached acts written follows.agrees.clear
  exact .next steps (simulated_of_waiting course reached waits
    ⟨covers, mirrors, result.trans follows.agrees.blank, clear⟩ rfl rfl)

/-- Of the `Tests` of a `Forking` operation one is passed. -/
theorem act_forking (follows : Follows interpretation earlier start final turn stack scene point)
    (course : Course routine limits start final)
    (mirrored : turn.operation.Mirrored interpretation routine earlier point.store
      turn.pending.offset turn.stack transition)
    {kind : BranchKind} {arms : List (Expr × Offset)} {next : Offset} {last : NodeIndex}
    {ways : List (NodeIndex × Offset)} (forking : turn.operation.Forking kind arms)
    (following : routine.nextOffset? turn.pending.offset = some next)
    (written : turn.ready.Written [] turn.after.procedure)
    (tests : turn.after.procedure.Tests kind turn.ready.blockNode arms last ways)
    (worklist : turn.after.worklist =
      (ways ++ [(last, next)]).map (routine.pathTo turn.stack turn.pending.nextStamp) ++
        turn.ready.worklist) :
    Matched routine limits interpretation earlier start final turn.after point transition := by
  have reached : Turns routine limits start turn.after :=
    follows.reached.tail ⟨turn.pending, turn.takesUp⟩
  have acts : turn.operation ≠ .proceed := by
    intro proceeds
    rw [proceeds] at forking
    cases forking
  obtain ⟨_, operands, later, known, rfl, covers, mirrors, evaluates⟩ := forking.chosen mirrored
  cases following.symm.trans known
  obtain ⟨way, member, leads, passed, passes⟩ :=
    tests.steps (course.completedBy reached) evaluates next
  have waits : routine.pathTo turn.stack turn.pending.nextStamp way ∈ turn.after.worklist := by
    rw [worklist]
    exact List.mem_append_left _ (List.mem_map_of_mem member)
  have clear : Clear final.procedure.finish way.1
      (turn.after.procedure.commandsOf way.1).length := by
    rcases passed with same | passed
    · rw [same]
      exact follows.placed.clear course reached acts written follows.agrees.clear
    · exact fun _ => passed
  have steps := (follows.placed.runs course reached written rfl).trans passes
  rw [← leads]
  exact .next steps (simulated_of_waiting course reached waits
    ⟨covers, mirrors, follows.agrees.blank, clear⟩ rfl rfl)

/-- A `Closing` operation leads to the exit. -/
theorem act_closing (follows : Follows interpretation earlier start final turn stack scene point)
    (course : Course routine limits start final)
    (mirrored : turn.operation.Mirrored interpretation routine earlier point.store
      turn.pending.offset turn.stack transition)
    {destination : NodeIndex}
    (closing : Closing routine turn.ready turn.operation commands destination)
    (written : turn.ready.Written commands turn.after.procedure)
    (ends : destination ∈ turn.after.procedure.successorsOf turn.ready.blockNode) :
    Matched routine limits interpretation earlier start final turn.after point transition := by
  have reached : Turns routine limits start turn.after :=
    follows.reached.tail ⟨turn.pending, turn.takesUp⟩
  obtain ⟨result, last, later, rfl, runs, mirrors, leaves⟩ :=
    closing.runs mirrored follows.agrees.blank
  have steps := follows.placed.runs course reached written runs
  have left := steps.tail ((course.completedBy reached).step ends)
  rcases closing.destination_cases with rfl | rfl
  · exact .ended left leaves mirrors
  · exact .ended (left.tail course.sink_step) leaves mirrors

/-- The stack machine that `Follows` a turn executes its instruction, and the transition is
`Matched`. -/
theorem step (follows : Follows interpretation earlier start final turn stack scene point)
    (course : Course routine limits start final) :
    ∃ transition, Bytecode.step interpretation routine turn.pending.offset stack scene =
        some transition ∧
      Matched routine limits interpretation earlier start final turn.after point transition := by
  obtain ⟨transition, executes, mirrored⟩ := Operation.mirrored_of_resolves course.apart
    turn.resolves follows.agrees.covers follows.agrees.mirrors turn.performed.following
    turn.performed.ne_endFinally
  refine ⟨transition, (Bytecode.step_of_found turn.found stack scene).trans executes, ?_⟩
  have performed := turn.performed
  generalize operation : turn.operation = operation at performed
  generalize result : turn.after = after at performed
  cases performed with
  | proceed following =>
    rw [← result]
    exact follows.act_proceed course mirrored operation following result
  | straight straight written opened worklist =>
    subst operation result
    exact follows.act_straight course mirrored straight written worklist
  | forking forking following written opened tests worklist =>
    subst operation result
    exact follows.act_forking course mirrored forking following written tests worklist
  | closing closing written opened ends worklist =>
    subst operation result
    exact follows.act_closing course mirrored closing written ends

/-- A path that joined the node of a turn is about to enter it. -/
theorem of_entered (course : Course routine limits start final)
    (reached : Turns routine limits start turn.before)
    (agrees : Agrees routine interpretation earlier final.procedure.finish turn.pending.stack stack
      scene point)
    (fresh : turn.pending.Fresh) (acts : turn.operation ≠ .proceed) :
    Follows interpretation earlier start final turn stack scene
      ⟨turn.before.procedure.size, 0, point.store⟩ := by
  refine ⟨reached, { agrees with clear := fun prune => absurd prune ?_ }, .entered fresh acts⟩
  exact turn.not_isPrune_of_fresh course (reached.tail ⟨turn.pending, turn.takesUp⟩) fresh acts

end Follows

/-! ### Executions -/

theorem Matched.prepend {other later : Walk} {between : Point V W} {transition : Transition V W}
    (steps : final.procedure.finish.Steps interpretation point between)
    (turns : Turns routine limits other later)
    (matched : Matched routine limits interpretation earlier start final later between
      transition) :
    Matched routine limits interpretation earlier start final other point transition := by
  cases matched with
  | next onward simulated =>
    refine .next (steps.trans onward) ?_
    cases simulated with
    | ahead reached follows => exact .ahead (turns.trans reached) follows
    | aside reached quiet agrees fresh acts leads ends =>
      exact .aside reached quiet agrees fresh acts leads ends
  | ended onward leaves mirrors => exact .ended (steps.trans onward) leaves mirrors

/-- The end of a node is left along an edge. -/
theorem step_of_leads {procedure : Procedure} {target : NodeIndex}
    (leads : target ∈ procedure.successorsOf point.node)
    (ends : point.position = (procedure.commandsOf point.node).length) :
    procedure.Step interpretation point ⟨target, 0, point.store⟩ := by
  obtain ⟨node, position, store⟩ := point
  dsimp only at leads ends
  rw [ends]
  exact .edge leads

/-- A stack machine that is `Simulated` has a transition, and this is `Matched`. -/
theorem Simulated.step (course : Course routine limits start final)
    (simulated : Simulated routine limits interpretation earlier start final start offset stack
      scene point) :
    ∃ transition, Bytecode.step interpretation routine offset stack scene = some transition ∧
      Matched routine limits interpretation earlier start final start point transition := by
  cases simulated with
  | @ahead turn _ _ _ later follows =>
    obtain ⟨transition, steps, matched⟩ := follows.step course
    exact ⟨transition, steps, matched.prepend .refl (later.tail ⟨turn.pending, turn.takesUp⟩)⟩
  | @aside turn symbolic _ _ _ _ reached quiet agrees fresh acts leads ends =>
    rcases Relation.ReflTransGen.cases_head quiet with same | ⟨⟨next, left⟩, combining, quiet⟩
    · cases same
      obtain ⟨transition, steps, matched⟩ :=
        (Follows.of_entered course reached agrees fresh acts).step course
      exact ⟨transition, steps, matched.prepend (.single (step_of_leads leads ends))
        (reached.tail ⟨turn.pending, turn.takesUp⟩)⟩
    · obtain ⟨instruction, found, combines, following⟩ := combining
      obtain ⟨operands, executes, covers⟩ :=
        Operation.execute_of_combines following combines agrees.covers
      exact ⟨_, (Bytecode.step_of_found found stack scene).trans executes,
        .next .refl (.aside reached quiet { agrees with covers } fresh acts leads ends)⟩

/-- Every execution by `Bytecode.Runs` of a machine that is `Simulated` has `Steps` of the procedure
to the exit. -/
theorem Simulated.runs (course : Course routine limits start final) {result : Result V}
    {last : Scene Slot V W}
    (runs : Bytecode.Runs interpretation routine offset stack scene result last)
    (simulated : Simulated routine limits interpretation earlier start final start offset stack
      scene point) :
    ∃ store, final.procedure.finish.Steps interpretation point ⟨Procedure.exit, 0, store⟩ ∧
      store.result = result ∧ last.Mirrors routine earlier store.scene := by
  induction runs generalizing point with
  | ended ends =>
    obtain ⟨transition, steps, matched⟩ := simulated.step course
    cases ends.symm.trans steps
    cases matched with
    | ended steps leaves mirrors => exact ⟨_, steps, leaves, mirrors⟩
  | next goes _ inductionHypothesis =>
    obtain ⟨transition, steps, matched⟩ := simulated.step course
    cases goes.symm.trans steps
    cases matched with
    | next steps simulated =>
      obtain ⟨store, later, rest⟩ := inductionHypothesis simulated
      exact ⟨store, steps.trans later, rest⟩

end Simulation

end Walk

end BytecodeFlow

/-
This file says once what performing an operation can do to a walk. Whatever the
operation is, it is a sequence of moves, each of which changes one thing; along
with them goes the list of the nodes that the operation may change (`Worked`):
the node of the current block, once it has one, and the nodes that it adds for
code. What every move keeps is then kept by every operation, and by every turn.
-/

import BytecodeFlow.Proofs.Walk.Turning

namespace BytecodeFlow

namespace Walk

/-! ### Moves -/

/-- Nodes at which the code of a path ends: the exit, the sink and the entries of handlers. -/
def Ending (walk : Walk) (index : NodeIndex) : Prop :=
  index = Procedure.exit ∨ index = Procedure.sink ∨
    ∃ start : Offset, walk.entries[start]? = some index

/-- An operand stack holds values of a former one, and temporaries. -/
def Drawn (former stack : List Value) : Prop :=
  ∀ value ∈ stack, value ∈ former ∨ ∃ ident typ, value = ⟨.var ident, typ⟩

theorem Drawn.refl (stack : List Value) : Drawn stack stack := fun _ member => .inl member

theorem Drawn.nil (former : List Value) : Drawn former [] :=
  fun _ member => absurd member List.not_mem_nil

/-- A walk stems from a base by moves of one operation, whose own nodes so far are listed. -/
inductive Working (routine : Routine) (base : Walk) : List NodeIndex → Walk → Prop
  | start : Working routine base base.current.toList base
  | adjust {own : List NodeIndex} {walk : Walk} (working : Working routine base own walk)
    (stack : List Value) (nextStamp : Nat) (finallyExit : Option FinallyExit)
    (fault : Option Fault) (drawn : Drawn walk.stack stack) :
    Working routine base own { walk with stack, nextStamp, finallyExit, fault }
  /-- The handler of the offset gets an entry. -/
  | enter {own : List NodeIndex} {walk : Walk} (working : Working routine base own walk)
    (target : HandlerTarget)
    (handles : routine.regions.exceptionTarget? walk.offset = some target) :
    Working routine base own (walk.handlerEntry routine target).1
  /-- A node is added for the current block. -/
  | place {walk : Walk} (working : Working routine base [] walk) (closed : walk.current = none)
    (kind : NodeKind) (plain : kind = .statement ∨ kind = .join) :
    Working routine base [walk.procedure.size] { walk with
      procedure := (walk.procedure.addNode { Node.empty kind walk.location with
        blockEnd := routine.regions.blockEnd? walk.blockStart }).link walk.previous
          walk.procedure.size }
  /-- The node of the current block is recorded. -/
  | record {node : NodeIndex} {walk : Walk} (working : Working routine base [node] walk)
    (closed : walk.current = none) :
    Working routine base [node] { walk with
      opened := walk.opened.insert walk.blockStart
        (walk.opened.getD walk.blockStart [] ++ [(node, walk.blockStack)])
      current := some node }
  /-- A way out of a node is added. -/
  | fork {own : List NodeIndex} {walk : Walk} (working : Working routine base own walk)
    {source : NodeIndex} (owned : source ∈ own) (condition : Expr) (branch : Bool)
    (kind : BranchKind) :
    Working routine base (walk.procedure.size :: own) { walk with
      procedure := (walk.procedure.addNode (pruneNode condition branch kind walk.location
        (routine.regions.blockEnd? walk.offset))).link source walk.procedure.size }
  /-- The exceptions of a node go to the entry of a handler. -/
  | guard {own : List NodeIndex} {walk : Walk} (working : Working routine base own walk)
    {node : NodeIndex} (owned : node ∈ own) {start : Offset} {entry : NodeIndex}
    (recorded : walk.entries[start]? = some entry) :
    Working routine base own
      { walk with procedure := walk.procedure.setException node entry }
  | write {own : List NodeIndex} {walk : Walk} (working : Working routine base own walk)
    {node : NodeIndex} (owned : node ∈ own) (command : Command) :
    Working routine base own
      { walk with procedure := walk.procedure.append node [command] }
  | lead {own : List NodeIndex} {walk : Walk} (working : Working routine base own walk)
    {node : NodeIndex} (owned : node ∈ own) {destination : NodeIndex}
    (ending : walk.Ending destination) :
    Working routine base own
      { walk with procedure := walk.procedure.link node destination }
  | queue {own : List NodeIndex} {walk : Walk} (working : Working routine base own walk)
    {pending : Pending} (follows : pending.previous ∈ own ∨ pending.previous = walk.previous)
    (continues : pending.continuation = .newBlock ∨
      pending.continuation = .append pending.previous ∧ pending.previous ∈ own)
    (drawn : Drawn walk.stack pending.stack) :
    Working routine base own (walk.queue pending)

namespace Working

variable {routine : Routine} {base walk : Walk} {own : List NodeIndex}

/-- An operation does not change where it is performed. -/
theorem rest (working : Working routine base own walk) :
    ∃ procedure worklist opened entries current stack nextStamp finallyExit fault,
      walk = { base with
        procedure, worklist, opened, entries, current, stack, nextStamp, finallyExit, fault } := by
  induction working with
  | start => exact ⟨_, _, _, _, _, _, _, _, _, rfl⟩
  | @enter own walk working target handles inductionHypothesis =>
    obtain ⟨_, _, _, _, _, same⟩ := (@Equipped.handlerEntry routine walk target).rest
    obtain ⟨_, _, _, _, _, _, _, _, _, earlier⟩ := inductionHypothesis
    rw [same, earlier]
    exact ⟨_, _, _, _, _, _, _, _, _, rfl⟩
  | adjust _ _ _ _ _ _ inductionHypothesis | place _ _ _ _ inductionHypothesis
  | record _ _ inductionHypothesis | fork _ _ _ _ _ inductionHypothesis
  | guard _ _ _ inductionHypothesis | write _ _ _ inductionHypothesis
  | lead _ _ _ inductionHypothesis | queue _ _ _ _ inductionHypothesis =>
    obtain ⟨_, _, _, _, _, _, _, _, _, rfl⟩ := inductionHypothesis
    exact ⟨_, _, _, _, _, _, _, _, _, rfl⟩

theorem fail (working : Working routine base own walk) (fault : Fault) :
    Working routine base own (walk.fail fault) :=
  working.adjust walk.stack walk.nextStamp walk.finallyExit (some fault) (.refl _)

theorem useIdents (working : Working routine base own walk) (count : Nat) :
    Working routine base own (walk.useIdents count) :=
  working.adjust walk.stack (walk.nextStamp + count) walk.finallyExit walk.fault (.refl _)

theorem push (working : Working routine base own walk) (ident : Ident) (typ : Typ) :
    Working routine base own (walk.push ⟨.var ident, typ⟩) := by
  refine working.adjust (⟨.var ident, typ⟩ :: walk.stack) walk.nextStamp walk.finallyExit
    walk.fault fun value member => ?_
  rcases List.mem_cons.mp member with rfl | old
  · exact .inr ⟨ident, typ, rfl⟩
  · exact .inl old

/-! ### Nodes -/

theorem attachHandler (working : Working routine base own walk) {node : NodeIndex}
    (owned : node ∈ own) : Working routine base own (walk.attachHandler routine node) := by
  unfold Walk.attachHandler
  split
  · rename_i target handles
    obtain ⟨start, starts⟩ := (Regions.handles_exceptionTarget? handles).start?
    exact (working.enter target handles).guard owned (handlerEntry_recorded walk starts)
  · exact working

theorem addBlockNode (working : Working routine base [] walk) (closed : walk.current = none)
    {kind : NodeKind} (plain : kind = .statement ∨ kind = .join) :
    Working routine base [walk.procedure.size] (walk.addBlockNode routine kind) := by
  have attached := (working.place closed kind plain).attachHandler List.mem_cons_self
  refine attached.record ?_
  obtain ⟨_, _, _, _, _, same⟩ := attachHandler_rest routine { walk with
    procedure := (walk.procedure.addNode { Node.empty kind walk.location with
      blockEnd := routine.regions.blockEnd? walk.blockStart }).link walk.previous
        walk.procedure.size } walk.procedure.size
  rw [same]
  exact closed

/-- The node of the current block is the only one that is changed before a way out is added. -/
theorem openNode (working : Working routine base walk.current.toList walk) {kind : NodeKind}
    (plain : kind = .statement ∨ kind = .join) :
    Working routine base [(walk.openNode routine kind).2] (walk.openNode routine kind).1 := by
  unfold Walk.openNode
  cases current : walk.current with
  | some node =>
    rw [current] at working
    exact working
  | none =>
    rw [current] at working
    exact working.addBlockNode current plain

theorem currentNode (working : Working routine base walk.current.toList walk) :
    Working routine base [(walk.currentNode routine).2] (walk.currentNode routine).1 :=
  working.openNode (.inr rfl)

/-- The current block has got its node while `Working`, and no way out of it was added yet. -/
def Opened (routine : Routine) (base walk : Walk) : Prop :=
  ∃ node, walk.current = some node ∧ Working routine base [node] walk

theorem Opened.working (opened : Opened routine base walk) :
    Working routine base walk.current.toList walk := by
  obtain ⟨node, current, working⟩ := opened
  rw [current]
  exact working

theorem Opened.push (opened : Opened routine base walk) (ident : Ident) (typ : Typ) :
    Opened routine base (walk.push ⟨.var ident, typ⟩) := by
  obtain ⟨node, current, working⟩ := opened
  exact ⟨node, current, working.push ident typ⟩

theorem emit (working : Working routine base walk.current.toList walk) (command : Command) :
    Opened routine base (walk.emit routine command) :=
  ⟨(walk.openNode routine .statement).2, current_openNode routine walk .statement,
    (working.openNode (.inl rfl)).write List.mem_cons_self command⟩

theorem addPrune (working : Working routine base own walk) {source : NodeIndex}
    (owned : source ∈ own) (condition : Expr) (branch : Bool) (kind : BranchKind) :
    Working routine base ((walk.addPrune routine source condition branch kind).2 :: own)
      (walk.addPrune routine source condition branch kind).1 :=
  (working.fork owned condition branch kind).attachHandler List.mem_cons_self

/-! ### Going on -/

theorem branchFrom (working : Working routine base own walk) {source : NodeIndex}
    (owned : source ∈ own) (target : Offset) :
    Working routine base own (walk.branchFrom routine source target) := by
  refine working.queue (.inl owned) ?_ (.refl _)
  dsimp only [snapshot]
  split
  · exact .inl rfl
  · exact .inr ⟨rfl, owned⟩

theorem branchFrom_each (working : Working routine base own walk)
    {cases : List (NodeIndex × Offset)} (owned : ∀ one ∈ cases, one.1 ∈ own) :
    Working routine base own
      (cases.foldl (fun walk (taken, target) => walk.branchFrom routine taken target) walk) := by
  induction cases generalizing walk with
  | nil => exact working
  | cons one rest inductionHypothesis =>
    exact inductionHypothesis (working.branchFrom (owned one List.mem_cons_self) one.2)
      fun other member => owned other (List.mem_cons_of_mem _ member)

theorem Opened.fallThrough (opened : Opened routine base walk) :
    ∃ own, Working routine base own (walk.fallThrough routine) := by
  obtain ⟨node, current, working⟩ := opened
  unfold Walk.fallThrough
  split
  · rename_i next following
    refine ⟨[node], working.queue (.inl ?_) ?_ ?_⟩
    all_goals
      unfold fallThroughTo
      rw [current]
      split
    · exact List.mem_cons_self
    · exact List.mem_cons_self
    · exact .inl rfl
    · exact .inr ⟨rfl, List.mem_cons_self⟩
    · exact .refl _
    · exact .refl _
  · exact ⟨[node], working.fail _⟩

theorem jump (working : Working routine base walk.current.toList walk) (target : Offset) :
    ∃ own, Working routine base own (walk.jump routine target) :=
  ⟨_, working.currentNode.branchFrom List.mem_cons_self target⟩

theorem branch (working : Working routine base walk.current.toList walk) (condition : Expr)
    (target : Offset) : ∃ own, Working routine base own (walk.branch routine condition target) := by
  unfold Walk.branch
  split
  · have forked := (working.currentNode.addPrune List.mem_cons_self condition true
      .conditional).addPrune (List.mem_cons_of_mem _ List.mem_cons_self) (.not condition) false
      .conditional
    exact ⟨_, (forked.branchFrom List.mem_cons_self _).branchFrom
      (List.mem_cons_of_mem _ List.mem_cons_self) target⟩
  · exact ⟨_, working.fail _⟩

theorem addCases (value : Expr) (targets : List Offset) (position : Nat) {source : NodeIndex}
    (reversed : List (NodeIndex × Offset)) (working : Working routine base own walk)
    (owned : source ∈ own) (listed : ∀ one ∈ reversed, one.1 ∈ own) :
    let (after, last, cases) := Walk.addCases routine value position targets source reversed walk
    ∃ more, Working routine base more after ∧ last ∈ more ∧ ∀ one ∈ cases, one.1 ∈ more := by
  induction targets generalizing position source reversed walk own with
  | nil => exact ⟨own, working, owned, listed⟩
  | cons target rest inductionHypothesis =>
    let condition : Expr := .binary .equal value (.int position)
    have forked := (working.addPrune owned condition true .switch).addPrune
      (List.mem_cons_of_mem _ owned) (.not condition) false .switch
    refine inductionHypothesis (position + 1) ((_, target) :: reversed) forked
      List.mem_cons_self fun one member => ?_
    rcases List.mem_cons.mp member with rfl | old
    · exact List.mem_cons_of_mem _ List.mem_cons_self
    · exact List.mem_cons_of_mem _ (List.mem_cons_of_mem _ (listed one old))

theorem select (working : Working routine base walk.current.toList walk) (value : Expr)
    (targets : List Offset) :
    ∃ own, Working routine base own (walk.select routine value targets) := by
  unfold Walk.select
  split
  · obtain ⟨more, added, last, listed⟩ := addCases value targets 0 [] working.currentNode
      List.mem_cons_self fun _ member => absurd member List.not_mem_nil
    exact ⟨more, (added.branchFrom last _).branchFrom_each listed⟩
  · exact ⟨_, working.fail _⟩

/-! ### Calls -/

theorem load (working : Working routine base walk.current.toList walk) (address : Expr)
    (typ : Typ) : Opened routine base (walk.load routine address typ) :=
  ((working.useIdents 1).emit _).push _ _

theorem invoke (working : Working routine base walk.current.toList walk) (callee : MethodRef)
    (arguments : List Value) (isVirtual : Bool) :
    Opened routine base (walk.invoke routine callee arguments isVirtual) := by
  unfold Walk.invoke
  dsimp only
  split
  · exact (working.useIdents 1).emit _
  · exact ((working.useIdents 1).emit _).push _ _

theorem construct (working : Working routine base walk.current.toList walk) (callee : MethodRef)
    (arguments : List Value) : Opened routine base (walk.construct routine callee arguments) :=
  ((((working.useIdents 1).emit _).working.useIdents 1).emit _).push _ _

/-! ### Leaving -/

theorem finish (working : Working routine base walk.current.toList walk) (value : Option Expr) :
    ∃ own, Working routine base own (walk.finish routine value) := by
  cases value with
  | some value => exact ⟨_, (working.emit _).working.currentNode.lead List.mem_cons_self (.inl rfl)⟩
  | none => exact ⟨_, working.currentNode.lead List.mem_cons_self (.inl rfl)⟩

theorem raise (working : Working routine base walk.current.toList walk) (exception : Value) :
    ∃ own, Working routine base own (walk.raise routine exception) := by
  have opened := (working.emit (.store .returnSlot (.thrown exception.expr) exception.typ
    walk.location)).working.currentNode
  unfold Walk.raise exceptionDestination
  dsimp only
  split
  · rename_i target handles
    obtain ⟨start, starts⟩ := (Regions.handles_exceptionTarget? handles).start?
    exact ⟨_, (opened.enter target handles).lead List.mem_cons_self
      (.inr (.inr ⟨start, handlerEntry_recorded _ starts⟩))⟩
  · exact ⟨_, opened.lead List.mem_cons_self (.inr (.inl rfl))⟩

theorem enterFinally (working : Working routine base walk.current.toList walk) (position : Nat)
    (exit : FinallyExit) :
    ∃ own, Working routine base own (walk.enterFinally routine position exit) := by
  unfold Walk.enterFinally
  split
  · exact ⟨_, working.currentNode.queue (.inl List.mem_cons_self) (.inl rfl) (.nil _)⟩
  · exact ⟨_, working.fail _⟩

theorem leave (working : Working routine base walk.current.toList walk) (target : Offset) :
    ∃ own, Working routine base own (walk.leave routine target) := by
  have cleared := working.adjust [] walk.nextStamp walk.finallyExit walk.fault (.nil _)
  unfold Walk.leave
  dsimp only
  split
  · exact enterFinally cleared _ _
  · exact jump cleared target

theorem endFinally (working : Working routine base walk.current.toList walk) :
    ∃ own, Working routine base own (walk.endFinally routine) := by
  unfold Walk.endFinally
  split
  · exact jump (working.adjust [] walk.nextStamp none walk.fault (.nil _)) _
  · exact raise (working.adjust walk.stack walk.nextStamp none walk.fault (.refl _)) _
  · exact ⟨_, working.fail _⟩

end Working

/-! ### Operations -/

/-- The block of the current path goes on although it has no node yet. -/
def defer (walk : Walk) (next : Offset) : Walk :=
  walk.queue (walk.snapshot next walk.previous (.deferred walk.blockStart walk.blockStack))

/-- What `perform` does is a sequence of moves of `Working`, or it has to `defer` what is left of a
block. -/
theorem perform_working (routine : Routine) (walk : Walk) (operation : Operation) :
    (∃ own, Working routine walk own (walk.perform routine operation)) ∨
      walk.current = none ∧ ∃ next, walk.perform routine operation = walk.defer next := by
  have begun : Working routine walk walk.current.toList walk := .start
  cases operation with
  | proceed =>
    by_cases current : walk.current = none
    · show (∃ own, Working routine walk own (walk.fallThrough routine)) ∨
        walk.current = none ∧ ∃ next, walk.fallThrough routine = walk.defer next
      unfold fallThrough fallThroughTo
      rw [current]
      split
      · rename_i next following
        split
        · exact .inl ⟨_, begun.queue (.inr rfl) (.inl rfl) (.refl _)⟩
        · exact .inr ⟨rfl, next, rfl⟩
      · exact .inl ⟨_, begun.fail _⟩
    · obtain ⟨node, current⟩ := Option.ne_none_iff_exists'.mp current
      rw [current] at begun
      exact .inl (Working.Opened.fallThrough ⟨node, current, begun⟩)
  | load address typ => exact .inl (begun.load address typ).fallThrough
  | store address typ value => exact .inl (begun.emit _).fallThrough
  | invoke callee arguments isVirtual =>
    exact .inl (begun.invoke callee arguments isVirtual).fallThrough
  | construct callee arguments => exact .inl (begun.construct callee arguments).fallThrough
  | jump target => exact .inl (begun.jump target)
  | branch condition target => exact .inl (begun.branch condition target)
  | select value targets => exact .inl (begun.select value targets)
  | finish value => exact .inl (begun.finish value)
  | raise exception => exact .inl (begun.raise exception)
  | leave target => exact .inl (begun.leave target)
  | endFinally => exact .inl begun.endFinally

/-! ### Turns -/

/-- What a turn makes of the walk on which it starts, with the moves of `Working` where it performs
an operation. -/
inductive Worked (routine : Routine) (arrived : Walk) : Walk → Prop
  /-- The path joins a node that was opened before. -/
  | joined (node : NodeIndex) (shared : arrived.reusableNode? routine = some node) :
    Worked routine arrived (arrived.linkPrevious node)
  | halted (location : Location) : Worked routine arrived { arrived with location }
  | deferred (location : Location) (stack : List Value) (next : Offset)
    (fresh : arrived.reusableNode? routine = none) (closed : arrived.current = none) :
    Worked routine arrived (defer { arrived with location, stack } next)
  | performed (location : Location) (stack : List Value) (own : List NodeIndex) (after : Walk)
    (fresh : arrived.reusableNode? routine = none)
    (working : Working routine { arrived with location, stack } own after) :
    Worked routine arrived after

theorem Turned.worked {routine : Routine} {offset : Offset} {arrived after : Walk}
    {outcome : Option Outcome} (turned : Turned routine offset arrived after outcome) :
    Worked routine arrived after := by
  cases turned with
  | joined node shared => exact .joined node shared
  | halted location reason remaining => exact .halted location
  | performed instruction resolved outcome fresh =>
    rcases perform_working routine (arrived.ready routine instruction resolved.stack)
      resolved.operation with ⟨own, working⟩ | ⟨closed, next, same⟩
    · exact .performed _ _ own _ fresh working
    · rw [same]
      exact .deferred _ _ next fresh closed

theorem TakesUp.worked {routine : Routine} {limits : Limits} {before after : Walk}
    {pending : Pending} {outcome : Option Outcome}
    (takesUp : TakesUp routine limits before pending after outcome) :
    ∃ rest, before.worklist = pending :: rest ∧
      Worked routine (before.arrive pending rest) after := by
  obtain ⟨rest, overdue, waiting, turned⟩ := takesUp
  exact ⟨rest, waiting, (turn_turned turned).worked⟩

/-! ### Runs -/

/-- A run comes to a walk: after any number of `Turns`, or in the turn in which it gives up. -/
def Reached (routine : Routine) (limits : Limits) (start walk : Walk) : Prop :=
  Turns routine limits start walk ∨
    ∃ last pending outcome, Turns routine limits start last ∧
      TakesUp routine limits last pending walk (some outcome)

theorem Ends.reached {routine : Routine} {limits : Limits} {start final : Walk} {outcome : Outcome}
    (ends : Ends routine limits start final outcome) : Reached routine limits start final := by
  cases ends with
  | complete _ turns finished => exact .inl turns
  | abandoned last _ pending _ turns takesUp => exact .inr ⟨last, pending, outcome, turns, takesUp⟩

/-- What holds at the start and is kept by every turn holds of every walk that is `Reached`. -/
theorem Reached.keep {routine : Routine} {limits : Limits} (property : Walk → Prop)
    (kept : ∀ {before after : Walk} {pending : Pending} {outcome : Option Outcome},
      property before → TakesUp routine limits before pending after outcome → property after)
    {start walk : Walk} (reached : Reached routine limits start walk) (holds : property start) :
    property walk := by
  rcases reached with turns | ⟨last, pending, outcome, turns, takesUp⟩
  · exact turns.keep property kept holds
  · exact kept (Turns.keep property kept turns holds) takesUp

end Walk

end BytecodeFlow

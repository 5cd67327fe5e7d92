/-
This file shows that a walk has no index out of range (`Walk.InRange`). All
indices of nodes in its tables, in what waits and in the edges of the graph are
below the number of nodes, which only grows, and all positions of clauses are
in the table. So whatever is done to a walk like this, only nodes that are
there are changed: `Procedure.stray` stays empty, and no fault is found with a
position.
-/

import BytecodeFlow.Proofs.Walk.Handlers
import BytecodeFlow.Proofs.Walk.Performing

namespace BytecodeFlow

/-! ### Positions of the exception table -/

namespace Regions

variable {regions : Regions} {offset : Offset}

/-- The table has a clause for a `HandlerTarget`. -/
def Lists (regions : Regions) : HandlerTarget → Prop
  | .catch position => position < regions.catches.length
  | .finally position => position < regions.finallies.length

theorem Handles.lists {target : HandlerTarget} (handles : regions.Handles target) :
    regions.Lists target := by
  cases handles with
  | ofGroup position clause found => exact (List.getElem?_eq_some_iff.mp found).1
  | ofFinally position clause found => exact (List.getElem?_eq_some_iff.mp found).1

theorem nextInGroup?_lt {position next : Nat} (found : regions.nextInGroup? position = some next) :
    next < regions.catches.length := by
  obtain ⟨clause, -, rest⟩ := Option.bind_eq_some_iff.mp found
  obtain ⟨following, listed, same⟩ := Option.bind_eq_some_iff.mp rest
  split at same
  · cases same
    exact (List.getElem?_eq_some_iff.mp listed).1
  · cases same

theorem finallyAround?_lt {position around : Nat}
    (found : regions.finallyAround? position = some around) :
    around < regions.finallies.length := by
  obtain ⟨clause, -, wraps⟩ := Option.bind_eq_some_iff.mp found
  exact (handles_of_wrapping wraps).lists

theorem finallyForLeave?_lt {target : Offset} {position : Nat}
    (found : regions.finallyForLeave? offset target = some position) :
    position < regions.finallies.length := by
  obtain ⟨⟨_, clause⟩, least, rfl⟩ := Option.map_eq_some_iff.mp found
  obtain ⟨listed, -⟩ := List.mem_filter.mp (firstLeast?_mem least)
  obtain ⟨index, within, same⟩ := List.mem_mapIdx.mp listed
  cases same
  exact within

end Regions

/-! ### Edges in range -/

/-- A node that is added is there. -/
theorem Procedure.size_lt_addNode (procedure : Procedure) (node : Node) :
    procedure.size < (procedure.addNode node).size := by
  rw [size_addNode]
  exact Nat.lt_succ_self _

/-- Every edge of a procedure leads to a node, and only nodes that are there were changed: none is
`stray`. -/
structure Procedure.Enclosed (procedure : Procedure) : Prop where
  stray : procedure.stray = none
  sink : sink < procedure.size
  successors : ∀ index, ∀ target ∈ procedure.successorsOf index, target < procedure.size
  exceptions : ∀ index, ∀ target ∈ procedure.exceptionsOf index, target < procedure.size

namespace Procedure.Enclosed

variable {procedure : Procedure}

theorem addNode (enclosed : procedure.Enclosed) {node : Node} (closed : node.successors = [])
    (bare : node.exceptions = []) : (procedure.addNode node).Enclosed := by
  constructor
  · exact enclosed.stray
  · rw [size_addNode]
    exact Nat.lt_succ_of_lt enclosed.sink
  · intro index target edge
    rw [successorsOf_addNode _ closed] at edge
    rw [size_addNode]
    exact Nat.lt_succ_of_lt (enclosed.successors index target edge)
  · intro index target edge
    rw [exceptionsOf_addNode _ bare] at edge
    rw [size_addNode]
    exact Nat.lt_succ_of_lt (enclosed.exceptions index target edge)

theorem link (enclosed : procedure.Enclosed) {source target : NodeIndex}
    (known : source < procedure.size) (leads : target < procedure.size) :
    (procedure.link source target).Enclosed := by
  constructor
  · exact stray_modifyNode_eq_none.mpr ⟨enclosed.stray, known⟩
  · rw [size_link]
    exact enclosed.sink
  · intro index next edge
    rw [size_link]
    rcases mem_successorsOf_link edge with old | ⟨-, rfl⟩
    · exact enclosed.successors index next old
    · exact leads
  · intro index next edge
    rw [exceptionsOf_link] at edge
    rw [size_link]
    exact enclosed.exceptions index next edge

theorem setException (enclosed : procedure.Enclosed) {source target : NodeIndex}
    (known : source < procedure.size) (leads : target < procedure.size) :
    (procedure.setException source target).Enclosed := by
  constructor
  · exact stray_modifyNode_eq_none.mpr ⟨enclosed.stray, known⟩
  · rw [size_setException]
    exact enclosed.sink
  · intro index next edge
    rw [successorsOf_setException] at edge
    rw [size_setException]
    exact enclosed.successors index next edge
  · intro index next edge
    rw [size_setException]
    by_cases own : index = source
    · subst own
      rw [exceptionsOf_setException_self known, List.mem_singleton] at edge
      exact edge ▸ leads
    · rw [exceptionsOf_congr (node?_setException_of_ne _ own)] at edge
      exact enclosed.exceptions index next edge

theorem append (enclosed : procedure.Enclosed) {index : NodeIndex} (known : index < procedure.size)
    (commands : List Command) : (procedure.append index commands).Enclosed := by
  constructor
  · exact stray_modifyNode_eq_none.mpr ⟨enclosed.stray, known⟩
  · rw [size_append]
    exact enclosed.sink
  · intro other
    rw [successorsOf_append, size_append]
    exact enclosed.successors other
  · intro other
    rw [exceptionsOf_append, size_append]
    exact enclosed.exceptions other

theorem exit (enclosed : procedure.Enclosed) : Procedure.exit < procedure.size :=
  Nat.lt_of_succ_lt enclosed.sink

end Procedure.Enclosed

/-! ### Walks in range -/

/-- The nodes that a waiting path follows and continues are there. -/
structure Pending.InRange (procedure : Procedure) (pending : Pending) : Prop where
  previous : pending.previous < procedure.size
  continued : ∀ node, pending.continuation = .append node → node < procedure.size

theorem Pending.InRange.mono {procedure larger : Procedure} {pending : Pending}
    (inRange : pending.InRange procedure) (size : procedure.size ≤ larger.size) :
    pending.InRange larger where
  previous := Nat.lt_of_lt_of_le inRange.previous size
  continued node continues := Nat.lt_of_lt_of_le (inRange.continued node continues) size

theorem Pending.InRange.of_newBlock {procedure : Procedure} {pending : Pending}
    (known : pending.previous < procedure.size) (starts : pending.continuation = .newBlock) :
    pending.InRange procedure where
  previous := known
  continued node continues := by
    rw [starts] at continues
    cases continues

namespace Walk

/-- All indices of nodes that a walk holds are in range, its graph is `Enclosed`, and no fault was
found with an index. -/
structure InRange (walk : Walk) : Prop where
  graph : walk.procedure.Enclosed
  waiting : ∀ pending ∈ walk.worklist, pending.InRange walk.procedure
  opened : ∀ offset, ∀ record ∈ walk.opened.getD offset [], record.1 < walk.procedure.size
  entries : ∀ (offset : Offset) (entry : NodeIndex), walk.entries[offset]? = some entry →
    entry < walk.procedure.size
  previous : walk.previous < walk.procedure.size
  current : ∀ node, walk.current = some node → node < walk.procedure.size
  fault : ∀ indexed position offset,
    walk.fault ≠ some (.indexOutOfRange indexed position offset)

/-- A walk that is `InRange` comes after another, whose nodes it has. -/
structure Advanced (walk after : Walk) : Prop where
  size : walk.procedure.size ≤ after.procedure.size
  inRange : after.InRange

/-- A walk that is `InRange` has grown out of another, and no fault was found on the way. -/
structure Grown (walk after : Walk) : Prop where
  size : walk.procedure.size ≤ after.procedure.size
  inRange : after.InRange
  fault : after.fault = walk.fault

namespace InRange

variable {walk : Walk}

theorem grown (inRange : walk.InRange) : Grown walk walk := ⟨Nat.le_refl _, inRange, rfl⟩

/-- The graph may be replaced by a larger one. -/
theorem replace (inRange : walk.InRange) {procedure : Procedure} (graph : procedure.Enclosed)
    (size : walk.procedure.size ≤ procedure.size) : Grown walk { walk with procedure } where
  size
  inRange := {
    graph
    waiting := fun pending member => (inRange.waiting pending member).mono size
    opened := fun offset record member =>
      Nat.lt_of_lt_of_le (inRange.opened offset record member) size
    entries := fun offset entry found =>
      Nat.lt_of_lt_of_le (inRange.entries offset entry found) size
    previous := Nat.lt_of_lt_of_le inRange.previous size
    current := fun node current => Nat.lt_of_lt_of_le (inRange.current node current) size
    fault := inRange.fault }
  fault := rfl

theorem addNode (inRange : walk.InRange) (node : Node) (closed : node.successors = [])
    (bare : node.exceptions = []) :
    Grown walk { walk with procedure := walk.procedure.addNode node } :=
  inRange.replace (inRange.graph.addNode closed bare)
    (Nat.le_of_lt (Procedure.size_lt_addNode ..))

/-- What is not about nodes does not matter. -/
theorem adjust (inRange : walk.InRange) (stack : List Value) (nextStamp : Nat)
    (finallyExit : Option FinallyExit) (location : Location) :
    Grown walk { walk with stack, nextStamp, finallyExit, location } :=
  ⟨Nat.le_refl _, ⟨inRange.graph, inRange.waiting, inRange.opened, inRange.entries,
    inRange.previous, inRange.current, inRange.fault⟩, rfl⟩

theorem useIdents (inRange : walk.InRange) (count : Nat) : Grown walk (walk.useIdents count) :=
  inRange.adjust walk.stack (walk.nextStamp + count) walk.finallyExit walk.location

theorem push (inRange : walk.InRange) (value : Value) : Grown walk (walk.push value) :=
  inRange.adjust (value :: walk.stack) walk.nextStamp walk.finallyExit walk.location

theorem fail (inRange : walk.InRange) {fault : Fault}
    (other : ∀ indexed position offset, fault ≠ .indexOutOfRange indexed position offset) :
    Advanced walk (walk.fail fault) :=
  ⟨Nat.le_refl _, { inRange with
    fault := fun indexed position offset same =>
      other indexed position offset (Option.some.inj same) }⟩

theorem queue (inRange : walk.InRange) {pending : Pending}
    (known : pending.InRange walk.procedure) : Grown walk (walk.queue pending) :=
  ⟨Nat.le_refl _, { inRange with
    waiting := List.forall_mem_cons.mpr ⟨known, inRange.waiting⟩ }, rfl⟩

theorem record_entry (inRange : walk.InRange) (offset : Offset) {entry : NodeIndex}
    (known : entry < walk.procedure.size) :
    Grown walk { walk with entries := walk.entries.insert offset entry } := by
  refine ⟨Nat.le_refl _, { inRange with entries := fun other found recorded => ?_ }, rfl⟩
  rw [Std.ExtTreeMap.getElem?_insert] at recorded
  split at recorded
  · cases recorded
    exact known
  · exact inRange.entries other found recorded

/-- A node may be recorded as opened and become the node of the current block. -/
theorem record_opened (inRange : walk.InRange) {node : NodeIndex}
    (known : node < walk.procedure.size) :
    Grown walk { walk with
      opened := walk.opened.insert walk.blockStart
        (walk.opened.getD walk.blockStart [] ++ [(node, walk.blockStack)])
      current := some node } := by
  refine ⟨Nat.le_refl _,
    { inRange with opened := fun offset record listed => ?_, current := ?_ }, rfl⟩
  · rw [Std.ExtTreeMap.getD_insert] at listed
    split at listed
    · rcases List.mem_append.mp listed with old | new
      · exact inRange.opened _ record old
      · rw [List.mem_singleton.mp new]
        exact known
    · exact inRange.opened offset record listed
  · rintro other ⟨⟩
    exact known

end InRange

theorem Advanced.trans {first second third : Walk} (former : Advanced first second)
    (latter : Advanced second third) : Advanced first third :=
  ⟨Nat.le_trans former.size latter.size, latter.inRange⟩

namespace Grown

variable {walk middle after : Walk}

theorem trans (former : Grown walk middle) (latter : Grown middle after) : Grown walk after :=
  ⟨Nat.le_trans former.size latter.size, latter.inRange, latter.fault.trans former.fault⟩

/-- A node that was there is there. -/
theorem lt (grown : Grown walk after) {index : NodeIndex} (known : index < walk.procedure.size) :
    index < after.procedure.size :=
  Nat.lt_of_lt_of_le known grown.size

theorem advanced (grown : Grown walk after) : Advanced walk after := ⟨grown.size, grown.inRange⟩

end Grown

/-- A walk has `Grown` out of another, and one of its nodes is named. -/
def GrownTo (walk : Walk) (result : Walk × NodeIndex) : Prop :=
  Grown walk result.1 ∧ result.2 < result.1.procedure.size

/-! ### Access to nodes -/

section Access

variable {walk : Walk} {source target : NodeIndex}

theorem link_grown (inRange : walk.InRange) (known : source < walk.procedure.size)
    (leads : target < walk.procedure.size) :
    Grown walk { walk with procedure := walk.procedure.link source target } :=
  inRange.replace (inRange.graph.link known leads) (Nat.le_of_eq (Procedure.size_link ..).symm)

theorem setException_grown (inRange : walk.InRange) (known : source < walk.procedure.size)
    (leads : target < walk.procedure.size) :
    Grown walk { walk with procedure := walk.procedure.setException source target } :=
  inRange.replace (inRange.graph.setException known leads)
    (Nat.le_of_eq (Procedure.size_setException ..).symm)

theorem append_grown (inRange : walk.InRange) (known : source < walk.procedure.size)
    (commands : List Command) :
    Grown walk { walk with procedure := walk.procedure.append source commands } :=
  inRange.replace (inRange.graph.append known commands)
    (Nat.le_of_eq (Procedure.size_append ..).symm)

end Access

/-! ### The entries of handlers -/

section Handlers

variable (routine : Routine) {walk : Walk}

theorem addFinallyEntry_grown (inRange : walk.InRange) (clause : FinallyClause) :
    GrownTo walk (walk.addFinallyEntry routine clause, walk.procedure.nextIndex) := by
  let node := finallyEntryNode walk.nextIdent
    (routine.locationAt clause.handler.start walk.location)
  have known := walk.procedure.size_lt_addNode node
  have added := inRange.addNode node rfl rfl
  have recorded := added.trans (added.inRange.record_entry clause.handler.start known)
  have used := recorded.trans (recorded.inRange.useIdents 1)
  exact ⟨used.trans (used.inRange.queue (.of_newBlock known rfl)), known⟩

theorem finallyEntry_grown (inRange : walk.InRange) {position : Nat}
    (listed : routine.regions.Lists (.finally position)) :
    GrownTo walk (walk.finallyEntry routine position) := by
  unfold finallyEntry
  rw [List.getElem?_eq_getElem listed]
  dsimp only
  generalize routine.regions.finallies[position] = clause
  cases entry? : walk.entries[clause.handler.start]? with
  | some entry => exact ⟨inRange.grown, inRange.entries _ _ entry?⟩
  | none => exact addFinallyEntry_grown routine inRange clause

/-- The three nodes of `addCatchNodes` are there when they are connected. -/
theorem addCatchNodes_grown (inRange : walk.InRange) (clause : CatchClause) :
    Grown walk (walk.addCatchNodes routine clause) ∧
      walk.procedure.size + 2 < (walk.addCatchNodes routine clause).procedure.size := by
  let location := routine.locationAt clause.handler.start walk.location
  let blockEnd := routine.regions.blockEnd? clause.handler.start
  let entry := catchEntryNode (.ofName clause.catchType) ⟨walk.nextStamp⟩ ⟨walk.nextStamp + 1⟩
    ⟨walk.nextStamp + 2⟩ location
  let taken := pruneNode (.var ⟨walk.nextStamp + 2⟩) true .conditional location blockEnd
  let missed := missedNode ⟨walk.nextStamp + 1⟩ ⟨walk.nextStamp + 2⟩ location blockEnd
  have first := inRange.addNode entry rfl rfl
  have second := first.trans (first.inRange.addNode taken rfl rfl)
  have third := second.trans (second.inRange.addNode missed rfl rfl)
  have size : (((walk.procedure.addNode entry).addNode taken).addNode missed).size =
      walk.procedure.size + 3 := by
    rw [Procedure.size_addNode, Procedure.size_addNode, Procedure.size_addNode]
  have known : ∀ index ≤ walk.procedure.size + 2,
      index < (((walk.procedure.addNode entry).addNode taken).addNode missed).size := by
    intro index low
    rw [size]
    exact Nat.lt_succ_of_le low
  have linked := link_grown third.inRange (known _ (Nat.le_add_right _ 2)) (known _ (Nat.le_succ _))
  have forked := link_grown linked.inRange (linked.lt (known _ (Nat.le_add_right _ 2)))
    (linked.lt (known _ (Nat.le_refl _)))
  have grown := (third.trans linked).trans forked
  have last : walk.procedure.size + 2 < _ := (linked.trans forked).lt (known _ (Nat.le_refl _))
  have recorded := grown.trans (grown.inRange.record_entry clause.handler.start
    (Nat.lt_of_le_of_lt (Nat.le_add_right _ 2) last))
  exact ⟨recorded.trans (recorded.inRange.useIdents 3), last⟩

theorem guardCatchNodes_grown (inRange : walk.InRange) {entry finallyEntry : NodeIndex}
    (known : entry + 2 < walk.procedure.size) (leads : finallyEntry < walk.procedure.size) :
    Grown walk (walk.guardCatchNodes entry finallyEntry) := by
  have first := setException_grown inRange (Nat.lt_of_le_of_lt (Nat.le_add_right _ 2) known) leads
  have second := first.trans (setException_grown first.inRange
    (first.lt (Nat.lt_of_succ_lt known)) (first.lt leads))
  exact second.trans (setException_grown second.inRange (second.lt known) (second.lt leads))

theorem passOn_grown (inRange : walk.InRange) (clause : CatchClause) {rest : List CatchClause}
    (enters : rest ≠ [] → GrownTo walk (catchEntry routine rest walk)) :
    GrownTo walk (walk.passOn routine clause rest) := by
  unfold passOn
  by_cases follows : (rest.head?.any fun next => next.guarded == clause.guarded) = true
  · rw [if_pos follows]
    refine enters fun last => ?_
    rw [last] at follows
    cases follows
  · rw [if_neg follows]
    cases wraps : wrappingFinally? routine.regions.catches routine.regions.finallies clause with
    | some position =>
      exact finallyEntry_grown routine inRange (Regions.handles_of_wrapping wraps).lists
    | none => exact ⟨inRange.grown, inRange.graph.sink⟩

theorem guardCatch_grown (inRange : walk.InRange) (clause : CatchClause) {entry : NodeIndex}
    (known : entry + 2 < walk.procedure.size) :
    Grown walk (walk.guardCatch routine clause entry) := by
  unfold guardCatch
  cases wraps : wrappingFinally? routine.regions.catches routine.regions.finallies clause with
  | some position =>
    have entered := finallyEntry_grown routine inRange (Regions.handles_of_wrapping wraps).lists
    exact entered.1.trans
      (guardCatchNodes_grown entered.1.inRange (entered.1.lt known) entered.2)
  | none => exact inRange.grown

theorem catchEntry_grown (clauses : List CatchClause) (nonempty : clauses ≠ [])
    (inRange : walk.InRange) : GrownTo walk (catchEntry routine clauses walk) := by
  induction clauses generalizing walk with
  | nil => exact absurd rfl nonempty
  | cons clause rest inductionHypothesis =>
    cases entry? : walk.entries[clause.handler.start]? with
    | some entry =>
      rw [catchEntry_known _ entry?]
      exact ⟨inRange.grown, inRange.entries _ _ entry?⟩
    | none =>
      rw [catchEntry_fresh _ entry?]
      obtain ⟨added, last⟩ := addCatchNodes_grown routine inRange clause
      obtain ⟨passed, onward⟩ := passOn_grown routine added.inRange clause fun more =>
        inductionHypothesis more added.inRange
      have missed := passed.lt last
      have linked := link_grown passed.inRange missed onward
      have guarded := guardCatch_grown routine linked.inRange clause
        (linked.lt missed)
      have known := (linked.trans guarded).lt missed
      have whole := ((added.trans passed).trans linked).trans guarded
      refine ⟨whole.trans (whole.inRange.queue (.of_newBlock ?_ rfl)), ?_⟩
      · exact Nat.lt_of_succ_lt known
      · exact Nat.lt_of_le_of_lt (Nat.le_add_right _ 2) known

/-- A handler that the table `Lists` has an entry. -/
theorem handlerEntry_grown (inRange : walk.InRange) {target : HandlerTarget}
    (listed : routine.regions.Lists target) :
    GrownTo walk (walk.handlerEntry routine target) := by
  cases target with
  | «catch» position =>
    have dropped := List.drop_eq_getElem_cons listed
    unfold handlerEntry
    simp only [dropped]
    exact catchEntry_grown routine _ (List.cons_ne_nil _ _) inRange
  | «finally» position => exact finallyEntry_grown routine inRange listed

theorem attachHandler_grown (inRange : walk.InRange) {node : NodeIndex}
    (known : node < walk.procedure.size) : Grown walk (walk.attachHandler routine node) := by
  unfold attachHandler
  cases found : routine.regions.exceptionTarget? walk.offset with
  | some target =>
    have entered := handlerEntry_grown routine inRange
      (Regions.handles_exceptionTarget? found).lists
    exact entered.1.trans (setException_grown entered.1.inRange (entered.1.lt known) entered.2)
  | none => exact inRange.grown

theorem exceptionDestination_grown (inRange : walk.InRange) :
    GrownTo walk (walk.exceptionDestination routine) := by
  unfold exceptionDestination
  cases found : routine.regions.exceptionTarget? walk.offset with
  | some target =>
    exact handlerEntry_grown routine inRange (Regions.handles_exceptionTarget? found).lists
  | none => exact ⟨inRange.grown, inRange.graph.sink⟩

end Handlers

/-! ### The node of the current block -/

section Blocks

variable (routine : Routine) {walk : Walk}

/-- A new node is there when it is connected, and when `attachHandler` gives it a handler. -/
theorem addAfter_grown (inRange : walk.InRange) {source : NodeIndex}
    (known : source < walk.procedure.size) (node : Node) (closed : node.successors = [])
    (bare : node.exceptions = []) :
    GrownTo walk (attachHandler { walk with
      procedure := (walk.procedure.addNode node).link source walk.procedure.nextIndex } routine
        walk.procedure.nextIndex, walk.procedure.nextIndex) := by
  have added := inRange.addNode node closed bare
  have new := walk.procedure.size_lt_addNode node
  have linked := link_grown added.inRange (added.lt known) new
  have attached := attachHandler_grown routine linked.inRange (linked.lt new)
  exact ⟨(added.trans linked).trans attached, (linked.trans attached).lt new⟩

theorem addBlockNode_grown (inRange : walk.InRange) (kind : NodeKind) :
    GrownTo walk (walk.addBlockNode routine kind, walk.procedure.nextIndex) := by
  obtain ⟨added, known⟩ := addAfter_grown routine inRange inRange.previous
    { Node.empty kind walk.location with
      blockEnd := routine.regions.blockEnd? walk.blockStart } rfl rfl
  exact ⟨added.trans (added.inRange.record_opened known), known⟩

theorem openNode_grown (inRange : walk.InRange) (kind : NodeKind) :
    GrownTo walk (walk.openNode routine kind) := by
  unfold openNode
  cases current : walk.current with
  | some node => exact ⟨inRange.grown, inRange.current node current⟩
  | none => exact addBlockNode_grown routine inRange kind

theorem currentNode_grown (inRange : walk.InRange) :
    GrownTo walk (walk.currentNode routine) :=
  openNode_grown routine inRange .join

theorem emit_grown (inRange : walk.InRange) (command : Command) :
    Grown walk (walk.emit routine command) := by
  have opened := openNode_grown routine inRange .statement
  exact opened.1.trans (append_grown opened.1.inRange opened.2 [command])

theorem addPrune_grown (inRange : walk.InRange) {source : NodeIndex}
    (known : source < walk.procedure.size) (condition : Expr) (branch : Bool)
    (kind : BranchKind) : GrownTo walk (walk.addPrune routine source condition branch kind) :=
  addAfter_grown routine inRange known (pruneNode condition branch kind walk.location
    (routine.regions.blockEnd? walk.offset)) rfl rfl

end Blocks

/-! ### Going on -/

section Onward

variable (routine : Routine) {walk : Walk}

theorem branchFrom_grown (inRange : walk.InRange) {source : NodeIndex}
    (known : source < walk.procedure.size) (target : Offset) :
    Grown walk (walk.branchFrom routine source target) := by
  refine inRange.queue ⟨known, fun node continues => ?_⟩
  dsimp only [snapshot] at continues
  split at continues
  · cases continues
  · cases continues
    exact known

theorem branchFrom_each_grown (inRange : walk.InRange) {cases : List (NodeIndex × Offset)}
    (known : ∀ one ∈ cases, one.1 < walk.procedure.size) :
    Grown walk
      (cases.foldl (fun walk (taken, target) => walk.branchFrom routine taken target) walk) := by
  induction cases generalizing walk with
  | nil => exact inRange.grown
  | cons one rest inductionHypothesis =>
    obtain ⟨first, others⟩ := List.forall_mem_cons.mp known
    have went := branchFrom_grown routine inRange first one.2
    exact went.trans (inductionHypothesis went.inRange others)

/-- The path that falls through follows the current node, or the previous one if none is open. -/
theorem fallThroughTo_inRange (inRange : walk.InRange) (next : Offset) :
    (walk.fallThroughTo routine next).InRange walk.procedure := by
  unfold fallThroughTo
  cases current : walk.current with
  | some node =>
    have known := inRange.current node current
    split
    · exact .of_newBlock known rfl
    · refine ⟨known, fun other continues => ?_⟩
      cases continues
      exact known
  | none =>
    split
    · exact .of_newBlock inRange.previous rfl
    · exact ⟨inRange.previous, fun _ impossible => by cases impossible⟩

theorem fallThrough_advanced (inRange : walk.InRange) :
    Advanced walk (walk.fallThrough routine) := by
  unfold fallThrough
  split
  · exact (inRange.queue (fallThroughTo_inRange routine inRange _)).advanced
  · exact inRange.fail fun _ _ _ impossible => by cases impossible

theorem jump_grown (inRange : walk.InRange) (target : Offset) :
    Grown walk (walk.jump routine target) := by
  have opened := currentNode_grown routine inRange
  exact opened.1.trans (branchFrom_grown routine opened.1.inRange opened.2 target)

theorem branch_advanced (inRange : walk.InRange) (condition : Expr) (target : Offset) :
    Advanced walk (walk.branch routine condition target) := by
  unfold branch
  cases following : routine.nextOffset? walk.offset with
  | some next =>
    have opened := currentNode_grown routine inRange
    have taken := addPrune_grown routine opened.1.inRange opened.2 condition true .conditional
    have notTaken := addPrune_grown routine taken.1.inRange (taken.1.lt opened.2) (.not condition)
      false .conditional
    have forked := (opened.1.trans taken.1).trans notTaken.1
    have first := branchFrom_grown routine notTaken.1.inRange notTaken.2 next
    have second := branchFrom_grown routine first.inRange (notTaken.1.lt taken.2) target
    exact (forked.trans (first.trans second)).advanced
  | none => exact inRange.fail fun _ _ _ impossible => by cases impossible

/-- `addCases` gives every target of a switch a node that is there. -/
theorem addCases_grown (value : Expr) (targets : List Offset) (position : Nat)
    {source : NodeIndex} {reversed : List (NodeIndex × Offset)} (inRange : walk.InRange)
    (known : source < walk.procedure.size)
    (listed : ∀ one ∈ reversed, one.1 < walk.procedure.size) :
    let result := addCases routine value position targets source reversed walk
    GrownTo walk (result.1, result.2.1) ∧
      ∀ one ∈ result.2.2, one.1 < result.1.procedure.size := by
  induction targets generalizing position source reversed walk with
  | nil => exact ⟨⟨inRange.grown, known⟩, listed⟩
  | cons target rest inductionHypothesis =>
    let condition : Expr := .binary .equal value (.int position)
    let first := walk.addPrune routine source condition true .switch
    let second := first.1.addPrune routine source (.not condition) false .switch
    have taken : GrownTo walk first := addPrune_grown routine inRange known ..
    have notTaken : GrownTo first.1 second :=
      addPrune_grown routine taken.1.inRange (taken.1.lt known) ..
    have both := taken.1.trans notTaken.1
    have more : ∀ one ∈ (first.2, target) :: reversed, one.1 < second.1.procedure.size :=
      List.forall_mem_cons.mpr
        ⟨notTaken.1.lt taken.2, fun one member => both.lt (listed one member)⟩
    have others := inductionHypothesis (position + 1) notTaken.1.inRange notTaken.2 more
    exact ⟨⟨both.trans others.1.1, others.1.2⟩, others.2⟩

theorem select_advanced (inRange : walk.InRange) (value : Expr) (targets : List Offset) :
    Advanced walk (walk.select routine value targets) := by
  unfold select
  cases following : routine.nextOffset? walk.offset with
  | some next =>
    have opened := currentNode_grown routine inRange
    obtain ⟨⟨added, last⟩, cases⟩ := addCases_grown routine value targets 0 opened.1.inRange
      opened.2 (List.forall_mem_nil _)
    have went := branchFrom_grown routine added.inRange last next
    have each := branchFrom_each_grown routine went.inRange cases
    exact ((opened.1.trans added).trans (went.trans each)).advanced
  | none => exact inRange.fail fun _ _ _ impossible => by cases impossible

/-! ### Calls -/

theorem useIdents_emit_grown (inRange : walk.InRange) (command : Command) :
    Grown walk ((walk.useIdents 1).emit routine command) := by
  have used := inRange.useIdents 1
  exact used.trans (emit_grown routine used.inRange command)

theorem load_grown (inRange : walk.InRange) (address : Expr) (typ : Typ) :
    Grown walk (walk.load routine address typ) := by
  have loaded := useIdents_emit_grown routine inRange
    (.load walk.nextIdent address typ walk.location)
  exact loaded.trans (loaded.inRange.push _)

theorem invoke_grown (inRange : walk.InRange) (callee : MethodRef) (arguments : List Value)
    (isVirtual : Bool) : Grown walk (walk.invoke routine callee arguments isVirtual) := by
  have called := useIdents_emit_grown routine inRange
    (.call walk.nextIdent (.ofName callee.returnType) (.function callee.fullName) arguments
      isVirtual walk.location)
  unfold invoke
  dsimp only
  split
  · exact called
  · exact called.trans (called.inRange.push _)

theorem construct_grown (inRange : walk.InRange) (callee : MethodRef) (arguments : List Value) :
    Grown walk (walk.construct routine callee arguments) := by
  have allocated := useIdents_emit_grown routine inRange
    (.call walk.nextIdent (.ofName callee.declaringType) (.function allocateFunction)
      [⟨.sizeOf (Typ.ofName callee.declaringType).stripPointer, .void⟩] false walk.location)
  have called := fun command => allocated.trans
    (useIdents_emit_grown routine allocated.inRange command)
  exact (called _).trans ((called _).inRange.push _)

/-! ### Leaving -/

theorem finish_grown (inRange : walk.InRange) (value : Option Expr) :
    Grown walk (walk.finish routine value) := by
  have linked : ∀ {stored : Walk}, Grown walk stored →
      Grown walk { (stored.currentNode routine).1 with
        procedure := (stored.currentNode routine).1.procedure.link
          (stored.currentNode routine).2 Procedure.exit } := by
    intro stored grown
    have opened := currentNode_grown routine grown.inRange
    exact (grown.trans opened.1).trans
      (link_grown opened.1.inRange opened.2 opened.1.inRange.graph.exit)
  cases value with
  | some value => exact linked (emit_grown routine inRange _)
  | none => exact linked inRange.grown

theorem raise_grown (inRange : walk.InRange) (exception : Value) :
    Grown walk (walk.raise routine exception) := by
  have stored := emit_grown routine inRange
    (.store .returnSlot (.thrown exception.expr) exception.typ walk.location)
  have opened := currentNode_grown routine stored.inRange
  have destined := exceptionDestination_grown routine opened.1.inRange
  have linked := link_grown destined.1.inRange (destined.1.lt opened.2) destined.2
  exact ((stored.trans opened.1).trans destined.1).trans linked

theorem enterFinally_grown (inRange : walk.InRange) {position : Nat}
    (listed : position < routine.regions.finallies.length) (exit : FinallyExit) :
    Grown walk (walk.enterFinally routine position exit) := by
  unfold enterFinally
  rw [List.getElem?_eq_getElem listed]
  have opened := currentNode_grown routine inRange
  exact opened.1.trans (opened.1.inRange.queue (.of_newBlock opened.2 rfl))

theorem leave_grown (inRange : walk.InRange) (target : Offset) :
    Grown walk (walk.leave routine target) := by
  have cleared : Grown walk { walk with stack := [] } :=
    inRange.adjust [] walk.nextStamp walk.finallyExit walk.location
  unfold leave
  dsimp only
  cases runs : routine.regions.finallyForLeave? walk.offset target with
  | some position =>
    exact cleared.trans
      (enterFinally_grown routine cleared.inRange (Regions.finallyForLeave?_lt runs) _)
  | none => exact cleared.trans (jump_grown routine cleared.inRange target)

theorem endFinally_advanced (inRange : walk.InRange) :
    Advanced walk (walk.endFinally routine) := by
  unfold endFinally
  cases exit? : walk.finallyExit with
  | some exit =>
    cases exit with
    | «continue» target =>
      have cleared : Grown walk { walk with stack := [], finallyExit := none } :=
        inRange.adjust [] walk.nextStamp none walk.location
      exact (cleared.trans (jump_grown routine cleared.inRange target)).advanced
    | rethrow exception =>
      have cleared : Grown walk { walk with finallyExit := none } :=
        inRange.adjust walk.stack walk.nextStamp none walk.location
      exact (cleared.trans (raise_grown routine cleared.inRange _)).advanced
  | none => exact inRange.fail fun _ _ _ impossible => by cases impossible

/-- What `perform` does, it does to nodes and clauses that are there. -/
theorem perform_advanced (inRange : walk.InRange) (operation : Operation) :
    Advanced walk (walk.perform routine operation) := by
  have going : ∀ {after : Walk}, Grown walk after → Advanced walk (after.fallThrough routine) :=
    fun grown => grown.advanced.trans (fallThrough_advanced routine grown.inRange)
  cases operation with
  | proceed => exact going inRange.grown
  | load address typ => exact going (load_grown routine inRange address typ)
  | store address typ value => exact going (emit_grown routine inRange _)
  | invoke callee arguments isVirtual =>
    exact going (invoke_grown routine inRange callee arguments isVirtual)
  | construct callee arguments => exact going (construct_grown routine inRange callee arguments)
  | jump target => exact (jump_grown routine inRange target).advanced
  | branch condition target => exact branch_advanced routine inRange condition target
  | select value targets => exact select_advanced routine inRange value targets
  | finish value => exact (finish_grown routine inRange value).advanced
  | raise exception => exact (raise_grown routine inRange exception).advanced
  | leave target => exact (leave_grown routine inRange target).advanced
  | endFinally => exact endFinally_advanced routine inRange

end Onward

end Walk

end BytecodeFlow

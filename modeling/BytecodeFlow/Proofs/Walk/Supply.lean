/-
This file keeps the books of temporaries during a walk. Each node has a demand:
the temporaries that its code and the code after it take from the ways to it.
What a node supplies, its demand and what its commands assign, has to cover the
demands at the ends of its edges and what the paths that wait after it hold
(`BalancedBy`). A block that can be shared demands no more than the operand
stack it was opened with holds, so every path that may share it supplies what
it demands.
-/

import BytecodeFlow.Proofs.Graph.Definedness
import BytecodeFlow.Proofs.Walk.Handlers

namespace BytecodeFlow

/-- The temporary that the end of a finally body reads, if there is one. -/
def contextIdents : Option FinallyExit → List Ident
  | some (.rethrow exception) => [exception]
  | _ => []

namespace Pending

/-- The node that a path goes on from. -/
def origin (pending : Pending) : NodeIndex :=
  match pending.continuation with
  | .append node => node
  | _ => pending.previous

/-- The operand stack at the start of the block of a path. -/
def blockStack (pending : Pending) : List Value :=
  match pending.continuation with
  | .deferred _ blockStack => blockStack
  | _ => pending.stack

/-- The temporaries that the code of a path may read: those of its `blockStack`, and the
`contextIdents`. -/
def held (pending : Pending) : List Ident :=
  identsOf pending.blockStack ++ contextIdents pending.finallyExit

/-- A block that goes on without a node has read nothing yet, and lies in a handler if it has a
context. -/
structure Orderly (routine : Routine) (pending : Pending) : Prop where
  stack : identsOf pending.stack ⊆ pending.held
  inside : ∀ start stack, pending.continuation = .deferred start stack →
    contextIdents pending.finallyExit ≠ [] → routine.regions.isHandlerOffset start = true

/-- Only a path whose block goes on without a node can fail to be `Orderly`. -/
theorem Orderly.of_not_deferred {routine : Routine} {pending : Pending}
    (plain : ∀ start stack, pending.continuation ≠ .deferred start stack) :
    pending.Orderly routine where
  stack := by
    unfold held blockStack
    cases continuation : pending.continuation with
    | newBlock => exact List.subset_append_left _ _
    | append node => exact List.subset_append_left _ _
    | deferred start stack => exact absurd continuation (plain start stack)
  inside start stack continued := absurd continued (plain start stack)

end Pending

namespace Walk

/-- The books are balanced for given demands: the graph `Meets` them, and so do the tables and all
that waits. Besides, listed nodes supply at least what is listed, and others demand at most what is
listed. -/
structure BalancedBy (routine : Routine) (demand : NodeIndex → List Ident)
    (supplies bounds : List (NodeIndex × List Ident)) (walk : Walk) : Prop where
  meets : walk.procedure.Meets demand
  sink_lt : Procedure.sink < walk.procedure.size
  exit_demand : demand Procedure.exit = []
  sink_demand : demand Procedure.sink = []
  entries : ∀ (offset : Offset) (entry : NodeIndex), walk.entries[offset]? = some entry →
    entry < walk.procedure.size ∧ demand entry = []
  opened : ∀ offset, ∀ record ∈ walk.opened.getD offset [], record.1 < walk.procedure.size ∧
    (routine.regions.isHandlerOffset offset = false → demand record.1 ⊆ identsOf record.2)
  waiting : ∀ pending ∈ walk.worklist, pending.origin < walk.procedure.size ∧
    pending.held ⊆ walk.procedure.supplied demand pending.origin ∧ pending.Orderly routine
  supplies : ∀ supply ∈ supplies, supply.1 < walk.procedure.size ∧
    supply.2 ⊆ walk.procedure.supplied demand supply.1
  bounds : ∀ bound ∈ bounds, bound.1 < walk.procedure.size ∧ demand bound.1 ⊆ bound.2

/-- The books are `BalancedBy` some demands. -/
def Balanced (routine : Routine) (supplies bounds : List (NodeIndex × List Ident))
    (walk : Walk) : Prop :=
  ∃ demand, BalancedBy routine demand supplies bounds walk

/-- The temporaries that `catchEntry` assigns in the entry of a clause. -/
def catchIdents (walk : Walk) : List Ident :=
  [⟨walk.nextStamp⟩, ⟨walk.nextStamp + 1⟩, ⟨walk.nextStamp + 2⟩]

variable {routine : Routine} {supplies bounds : List (NodeIndex × List Ident)} {walk : Walk}

namespace BalancedBy

variable {demand : NodeIndex → List Ident}

/-- If the graph grows and its old nodes keep their demands, only `Meets` has to be shown anew. -/
theorem carry (balanced : BalancedBy routine demand supplies bounds walk)
    {procedure : Procedure} {other : NodeIndex → List Ident}
    (extended : walk.procedure.Extends procedure)
    (agree : ∀ index < walk.procedure.size, other index = demand index)
    (meets : procedure.Meets other) :
    BalancedBy routine other supplies bounds { walk with procedure } := by
  have within : ∀ {index}, index < walk.procedure.size → index < procedure.size :=
    fun known => Nat.lt_of_lt_of_le known extended.size_le
  have supplied : ∀ {index}, index < walk.procedure.size →
      walk.procedure.supplied demand index ⊆ procedure.supplied other index := by
    intro index old
    obtain ⟨more, grown⟩ := extended.commandsOf index
    rw [Procedure.supplied, Procedure.supplied, agree index old, ← grown, assignedBy_append,
      ← List.append_assoc]
    exact List.subset_append_left _ _
  constructor
  · exact meets
  · exact within balanced.sink_lt
  · exact (agree Procedure.exit (Nat.lt_of_succ_lt balanced.sink_lt)).trans balanced.exit_demand
  · exact (agree Procedure.sink balanced.sink_lt).trans balanced.sink_demand
  · intro offset entry found
    obtain ⟨old, blank⟩ := balanced.entries offset entry found
    exact ⟨within old, (agree entry old).trans blank⟩
  · intro offset record listed
    obtain ⟨old, bounded⟩ := balanced.opened offset record listed
    rw [agree _ old]
    exact ⟨within old, bounded⟩
  · intro pending waits
    obtain ⟨old, held, orderly⟩ := balanced.waiting pending waits
    exact ⟨within old, List.Subset.trans held (supplied old), orderly⟩
  · intro supply listed
    obtain ⟨old, held⟩ := balanced.supplies supply listed
    exact ⟨within old, List.Subset.trans held (supplied old)⟩
  · intro bound listed
    obtain ⟨old, bounded⟩ := balanced.bounds bound listed
    rw [agree _ old]
    exact ⟨within old, bounded⟩

theorem supply (balanced : BalancedBy routine demand supplies bounds walk) {node : NodeIndex}
    {held : List Ident} (known : node < walk.procedure.size)
    (supplied : held ⊆ walk.procedure.supplied demand node) :
    BalancedBy routine demand ((node, held) :: supplies) bounds walk :=
  { balanced with supplies := List.forall_mem_cons.mpr ⟨⟨known, supplied⟩, balanced.supplies⟩ }

theorem bound (balanced : BalancedBy routine demand supplies bounds walk) {node : NodeIndex}
    {needed : List Ident} (known : node < walk.procedure.size) (bounded : demand node ⊆ needed) :
    BalancedBy routine demand supplies ((node, needed) :: bounds) walk :=
  { balanced with bounds := List.forall_mem_cons.mpr ⟨⟨known, bounded⟩, balanced.bounds⟩ }

end BalancedBy

namespace Balanced

/-- Only the graph, the waiting paths and the two tables matter for the books to be `BalancedBy`
some demand. -/
theorem of_fields {other : Walk} (balanced : Balanced routine supplies bounds walk)
    (procedure : other.procedure = walk.procedure) (worklist : other.worklist = walk.worklist)
    (opened : other.opened = walk.opened) (entries : other.entries = walk.entries) :
    Balanced routine supplies bounds other := by
  obtain ⟨demand, balanced⟩ := balanced
  refine ⟨demand, ?_⟩
  constructor
  · rw [procedure]
    exact balanced.meets
  · rw [procedure]
    exact balanced.sink_lt
  · exact balanced.exit_demand
  · exact balanced.sink_demand
  · rw [procedure, entries]
    exact balanced.entries
  · rw [procedure, opened]
    exact balanced.opened
  · rw [procedure, worklist]
    exact balanced.waiting
  · rw [procedure]
    exact balanced.supplies
  · rw [procedure]
    exact balanced.bounds

theorem weaken (balanced : Balanced routine supplies bounds walk)
    {fewer looser : List (NodeIndex × List Ident)} (fewerSupplies : fewer ⊆ supplies)
    (looserBounds : looser ⊆ bounds) : Balanced routine fewer looser walk := by
  obtain ⟨demand, balanced⟩ := balanced
  exact ⟨demand, { balanced with
    supplies := fun supply listed => balanced.supplies supply (fewerSupplies listed)
    bounds := fun bound listed => balanced.bounds bound (looserBounds listed) }⟩

/-! ### Changes of the graph -/

/-- A new node may have any demand that it can do with. -/
theorem addNode (balanced : Balanced routine supplies bounds walk) (node : Node)
    (needed : List Ident) (closed : node.successors = []) (bare : node.exceptions = [])
    (defined : Defined needed node.commands) :
    Balanced routine ((walk.procedure.size, needed ++ assignedBy node.commands) :: supplies)
      ((walk.procedure.size, needed) :: bounds)
      { walk with procedure := walk.procedure.addNode node } := by
  obtain ⟨demand, balanced⟩ := balanced
  have begun : Procedure.start < walk.procedure.size :=
    Nat.lt_of_succ_lt (Nat.lt_of_succ_lt balanced.sink_lt)
  have known : walk.procedure.size < (walk.procedure.addNode node).size := by
    rw [Procedure.size_addNode]
    exact Nat.lt_succ_self _
  have commands : (walk.procedure.addNode node).commandsOf walk.procedure.size =
      node.commands := by
    rw [Procedure.commandsOf, Procedure.node?_addNode_self]
    rfl
  have carried := balanced.carry (.addNode walk.procedure node)
    (fun index old => Function.update_of_ne (Nat.ne_of_lt old) needed demand)
    (balanced.meets.addNode begun closed bare defined)
  refine ⟨_, (carried.bound known ?_).supply known ?_⟩
  · rw [Function.update_self]
    exact List.Subset.refl _
  · rw [Procedure.supplied, Function.update_self, commands]
    exact List.Subset.refl _

/-- An edge may be added if its source supplies what its target demands. -/
theorem link (balanced : Balanced routine supplies bounds walk) {source target : NodeIndex}
    {held needed : List Ident} (supplied : (source, held) ∈ supplies)
    (bounded : (target, needed) ∈ bounds) (covers : needed ⊆ held) :
    Balanced routine supplies bounds
      { walk with procedure := walk.procedure.link source target } := by
  obtain ⟨demand, balanced⟩ := balanced
  obtain ⟨-, enough⟩ := balanced.supplies _ supplied
  obtain ⟨known, bounded⟩ := balanced.bounds _ bounded
  have met := List.Subset.trans (List.Subset.trans bounded covers) enough
  exact ⟨demand, balanced.carry (.link _ _ _) (fun _ _ => rfl) (balanced.meets.link known met)⟩

/-- A command may be added to a node that supplies what it reads. -/
theorem append (balanced : Balanced routine supplies bounds walk) {node : NodeIndex}
    {held : List Ident} (supplied : (node, held) ∈ supplies) {command : Command}
    (covers : command.reads ⊆ held) :
    Balanced routine ((node, held ++ command.assigns) :: supplies) bounds
      { walk with procedure := walk.procedure.append node [command] } := by
  obtain ⟨demand, balanced⟩ := balanced
  obtain ⟨known, enough⟩ := balanced.supplies _ supplied
  have carried := balanced.carry (.append _ node [command]) (fun _ _ => rfl)
    (balanced.meets.append known ⟨List.Subset.trans covers enough, trivial⟩)
  have assigns : assignedBy [command] = command.assigns := List.flatMap_singleton ..
  refine ⟨demand, carried.supply ?_ ?_⟩
  · rw [Procedure.size_append]
    exact known
  · rw [Procedure.supplied, Procedure.commandsOf_append_self known, assignedBy_append,
      ← List.append_assoc, assigns]
    exact List.append_subset.mpr ⟨List.subset_append_of_subset_left _ enough,
      List.subset_append_right _ _⟩

/-- Exceptions may go to a node that demands nothing. -/
theorem setException (balanced : Balanced routine supplies bounds walk) (source : NodeIndex)
    {target : NodeIndex} (bounded : (target, []) ∈ bounds) :
    Balanced routine supplies bounds
      { walk with procedure := walk.procedure.setException source target } := by
  obtain ⟨demand, balanced⟩ := balanced
  obtain ⟨known, blank⟩ := balanced.bounds _ bounded
  exact ⟨demand, balanced.carry (.setException _ _ _) (fun _ _ => rfl)
    (balanced.meets.setException known (List.subset_nil.mp blank))⟩

/-! ### Waiting paths -/

/-- A path may wait after a node that supplies what it holds. -/
theorem queue (balanced : Balanced routine supplies bounds walk) (pending : Pending)
    {held : List Ident} (supplied : (pending.origin, held) ∈ supplies)
    (covers : pending.held ⊆ held) (orderly : pending.Orderly routine) :
    Balanced routine supplies bounds (walk.queue pending) := by
  obtain ⟨demand, balanced⟩ := balanced
  obtain ⟨known, enough⟩ := balanced.supplies _ supplied
  exact ⟨demand, { balanced with
    waiting := List.forall_mem_cons.mpr
      ⟨⟨known, List.Subset.trans covers enough, orderly⟩, balanced.waiting⟩ }⟩

/-- A path that is taken up is supplied with what it holds. -/
theorem take (balanced : Balanced routine supplies bounds walk) {pending : Pending}
    {rest : List Pending} (waiting : walk.worklist = pending :: rest) :
    pending.Orderly routine ∧ Balanced routine ((pending.origin, pending.held) :: supplies) bounds
      { walk with worklist := rest } := by
  obtain ⟨demand, balanced⟩ := balanced
  have each := balanced.waiting
  rw [waiting] at each
  obtain ⟨⟨known, enough, orderly⟩, others⟩ := List.forall_mem_cons.mp each
  have left : BalancedBy routine demand supplies bounds { walk with worklist := rest } :=
    { balanced with waiting := others }
  exact ⟨orderly, demand, left.supply known enough⟩

/-! ### The two tables -/

/-- A node may be recorded as opened with an operand stack that covers its demand. -/
theorem record_opened (balanced : Balanced routine supplies bounds walk) {node : NodeIndex}
    {needed : List Ident} (bounded : (node, needed) ∈ bounds) (offset : Offset)
    (stack : List Value)
    (covers : routine.regions.isHandlerOffset offset = false → needed ⊆ identsOf stack) :
    Balanced routine supplies bounds { walk with
      opened := walk.opened.insert offset (walk.opened.getD offset [] ++ [(node, stack)]) } := by
  obtain ⟨demand, balanced⟩ := balanced
  obtain ⟨known, bounded⟩ := balanced.bounds _ bounded
  refine ⟨demand, { balanced with opened := ?_ }⟩
  intro other record listed
  rw [Std.ExtTreeMap.getD_insert] at listed
  split at listed
  · rename_i same
    rw [← Std.LawfulEqCmp.eq_of_compare same]
    rcases List.mem_append.mp listed with old | new
    · exact balanced.opened offset record old
    · rw [List.mem_singleton.mp new]
      exact ⟨known, fun outside => List.Subset.trans bounded (covers outside)⟩
  · exact balanced.opened other record listed

/-- A node that demands nothing may be recorded as the entry of a handler. -/
theorem record_entry (balanced : Balanced routine supplies bounds walk) {node : NodeIndex}
    (bounded : (node, []) ∈ bounds) (offset : Offset) :
    Balanced routine supplies bounds
      { walk with entries := walk.entries.insert offset node } := by
  obtain ⟨demand, balanced⟩ := balanced
  obtain ⟨known, blank⟩ := balanced.bounds _ bounded
  refine ⟨demand, { balanced with entries := ?_ }⟩
  intro other entry found
  rw [Std.ExtTreeMap.getElem?_insert] at found
  split at found
  · cases found
    exact ⟨known, List.subset_nil.mp blank⟩
  · exact balanced.entries other entry found

theorem bound_entry (balanced : Balanced routine supplies bounds walk) {offset : Offset}
    {entry : NodeIndex} (found : walk.entries[offset]? = some entry) :
    Balanced routine supplies ((entry, []) :: bounds) walk := by
  obtain ⟨demand, balanced⟩ := balanced
  obtain ⟨known, blank⟩ := balanced.entries offset entry found
  exact ⟨demand, balanced.bound known (List.subset_nil.mpr blank)⟩

theorem bound_exit (balanced : Balanced routine supplies bounds walk) :
    Balanced routine supplies ((Procedure.exit, []) :: bounds) walk := by
  obtain ⟨demand, balanced⟩ := balanced
  exact ⟨demand, balanced.bound (Nat.lt_of_succ_lt balanced.sink_lt)
    (List.subset_nil.mpr balanced.exit_demand)⟩

theorem bound_sink (balanced : Balanced routine supplies bounds walk) :
    Balanced routine supplies ((Procedure.sink, []) :: bounds) walk := by
  obtain ⟨demand, balanced⟩ := balanced
  exact ⟨demand, balanced.bound balanced.sink_lt (List.subset_nil.mpr balanced.sink_demand)⟩

/-- A node that may be shared demands no more than its operand stack holds. -/
theorem bound_opened (balanced : Balanced routine supplies bounds walk) {offset : Offset}
    {node : NodeIndex} {stack : List Value} (listed : (node, stack) ∈ walk.opened.getD offset [])
    (outside : routine.regions.isHandlerOffset offset = false) :
    Balanced routine supplies ((node, identsOf stack) :: bounds) walk := by
  obtain ⟨demand, balanced⟩ := balanced
  obtain ⟨known, bounded⟩ := balanced.opened offset _ listed
  exact ⟨demand, balanced.bound known (bounded outside)⟩

/-! ### The entries of handlers -/

theorem addFinallyEntry (balanced : Balanced routine supplies bounds walk)
    (clause : FinallyClause) :
    Balanced routine supplies ((walk.procedure.size, []) :: bounds)
      (walk.addFinallyEntry routine clause) := by
  let pending : Pending := {
    offset := clause.handler.start
    previous := walk.procedure.size
    stack := []
    nextStamp := walk.nextStamp + 1
    continuation := .newBlock
    finallyExit := some (.rethrow walk.nextIdent) }
  have added := balanced.addNode (finallyEntryNode walk.nextIdent
    (routine.locationAt clause.handler.start walk.location)) [] rfl rfl
    ⟨List.nil_subset _, List.nil_subset _, trivial⟩
  have recorded := added.record_entry List.mem_cons_self clause.handler.start
  have orderly : pending.Orderly routine := .of_not_deferred nofun
  have queued := recorded.queue pending List.mem_cons_self (List.Subset.refl _)
    orderly
  exact (queued.weaken (List.subset_cons_self _ _) (List.Subset.refl _)).of_fields rfl rfl rfl rfl

/-- The entry of a finally clause demands nothing. -/
theorem finallyEntry (balanced : Balanced routine supplies bounds walk) (position : Nat) :
    Balanced routine supplies (((walk.finallyEntry routine position).2, []) :: bounds)
      (walk.finallyEntry routine position).1 := by
  unfold Walk.finallyEntry
  split
  · rename_i clause found
    split
    · rename_i entry known
      exact balanced.bound_entry known
    · exact balanced.addFinallyEntry clause
  · exact balanced.bound_sink.of_fields rfl rfl rfl rfl

/-- The nodes of a catch entry demand nothing, and both ways out supply what it assigns. -/
theorem addCatchNodes (balanced : Balanced routine supplies bounds walk) (clause : CatchClause) :
    Balanced routine
      ((walk.procedure.size + 2, walk.catchIdents) :: (walk.procedure.size + 1, walk.catchIdents) ::
        supplies)
      ((walk.procedure.size, []) :: bounds) (walk.addCatchNodes routine clause) := by
  let location := routine.locationAt clause.handler.start walk.location
  let blockEnd := routine.regions.blockEnd? clause.handler.start
  let exception : Ident := ⟨walk.nextStamp⟩
  let unwrapped : Ident := ⟨walk.nextStamp + 1⟩
  let test : Ident := ⟨walk.nextStamp + 2⟩
  let entry := catchEntryNode (.ofName clause.catchType) exception unwrapped test location
  let taken := pruneNode (.var test) true .conditional location blockEnd
  let missed := missedNode unwrapped test location blockEnd
  have defined : Defined [] entry.commands :=
    ⟨List.nil_subset _, List.nil_subset _, List.Subset.refl _, List.subset_cons_self _ _, trivial⟩
  have tested : [test] ⊆ walk.catchIdents := by simp [catchIdents, test]
  have thrown : [unwrapped] ⊆ walk.catchIdents := by simp [catchIdents, unwrapped]
  have first := balanced.addNode entry [] rfl rfl defined
  have second := first.addNode taken walk.catchIdents rfl rfl ⟨tested, trivial⟩
  have third := second.addNode missed walk.catchIdents rfl rfl ⟨tested, thrown, trivial⟩
  simp only [Procedure.size_addNode] at third
  -- The entry is third in both lists, after its two ways out.
  have supplied : ∀ {second third rest}, (walk.procedure.size, walk.catchIdents) ∈
      second :: third :: (walk.procedure.size, walk.catchIdents) :: rest :=
    List.mem_cons_of_mem _ (List.mem_cons_of_mem _ List.mem_cons_self)
  have recorded := third.record_entry
    (List.mem_cons_of_mem _ (List.mem_cons_of_mem _ List.mem_cons_self)) clause.handler.start
  have linked := recorded.link supplied (List.mem_cons_of_mem _ List.mem_cons_self)
    (List.Subset.refl _)
  have forked := linked.link supplied List.mem_cons_self (List.Subset.refl _)
  exact (forked.weaken
    (List.cons_subset_cons _ (List.cons_subset_cons _ (List.subset_cons_self _ _)))
    (List.Subset.trans (List.subset_cons_self _ _) (List.subset_cons_self _ _))).of_fields
      rfl rfl rfl rfl

theorem passOn (balanced : Balanced routine supplies bounds walk) (clause : CatchClause)
    {rest : List CatchClause}
    (inductionHypothesis : Balanced routine supplies
      (((catchEntry routine rest walk).2, []) :: bounds) (catchEntry routine rest walk).1) :
    Balanced routine supplies (((walk.passOn routine clause rest).2, []) :: bounds)
      (walk.passOn routine clause rest).1 := by
  unfold Walk.passOn
  split
  · exact inductionHypothesis
  · split
    · exact balanced.finallyEntry _
    · exact balanced.bound_sink

theorem guardCatch (balanced : Balanced routine supplies bounds walk) (clause : CatchClause)
    (entry : NodeIndex) :
    Balanced routine supplies bounds (walk.guardCatch routine clause entry) := by
  unfold Walk.guardCatch
  split
  · rename_i position around
    have guarded := (((balanced.finallyEntry position).setException entry
      List.mem_cons_self).setException (entry + 1) List.mem_cons_self).setException (entry + 2)
        List.mem_cons_self
    exact (guarded.weaken (List.Subset.refl _) (List.subset_cons_self _ _)).of_fields rfl rfl rfl
      rfl
  · exact balanced

/-- The path into the handler of a catch clause holds the exception. -/
theorem queue_catchStart {entry : NodeIndex} {unwrapped : Ident} {held : List Ident}
    (balanced : Balanced routine ((entry + 1, held) :: supplies) bounds walk)
    (caught : unwrapped ∈ held) (clause : CatchClause) (nextStamp : Nat) :
    Balanced routine supplies bounds
      (walk.queue (catchStart clause entry unwrapped nextStamp)) := by
  have holds : (catchStart clause entry unwrapped nextStamp).held = [unwrapped] := rfl
  have orderly : (catchStart clause entry unwrapped nextStamp).Orderly routine :=
    .of_not_deferred nofun
  refine (balanced.queue (catchStart clause entry unwrapped nextStamp) List.mem_cons_self ?_
    orderly).weaken (List.subset_cons_self _ _) (List.Subset.refl _)
  rw [holds]
  exact List.cons_subset.mpr ⟨caught, List.nil_subset _⟩

/-- The entry of a catch clause demands nothing. -/
theorem catchEntry (clauses : List CatchClause) (balanced : Balanced routine supplies bounds walk) :
    Balanced routine supplies (((Walk.catchEntry routine clauses walk).2, []) :: bounds)
      (Walk.catchEntry routine clauses walk).1 := by
  induction clauses generalizing walk supplies bounds with
  | nil => exact balanced.bound_sink
  | cons clause rest inductionHypothesis =>
    cases entry? : walk.entries[clause.handler.start]? with
    | some entry =>
      rw [catchEntry_known _ entry?]
      exact balanced.bound_entry entry?
    | none =>
      rw [catchEntry_fresh _ entry?]
      have added := balanced.addCatchNodes clause
      have passed := added.passOn clause (inductionHypothesis added)
      have linked := (passed.link List.mem_cons_self List.mem_cons_self
        (List.nil_subset _)).weaken (List.subset_cons_self _ _) (List.subset_cons_self _ _)
      exact (linked.guardCatch clause _).queue_catchStart (by simp [catchIdents]) clause _

theorem handlerEntry (balanced : Balanced routine supplies bounds walk) (target : HandlerTarget) :
    Balanced routine supplies (((walk.handlerEntry routine target).2, []) :: bounds)
      (walk.handlerEntry routine target).1 := by
  unfold Walk.handlerEntry
  split
  · split
    · exact balanced.bound_sink.of_fields rfl rfl rfl rfl
    · exact balanced.catchEntry _
  · exact balanced.finallyEntry _

theorem attachHandler (balanced : Balanced routine supplies bounds walk) (node : NodeIndex) :
    Balanced routine supplies bounds (walk.attachHandler routine node) := by
  unfold Walk.attachHandler
  split
  · rename_i target found
    exact ((balanced.handlerEntry target).setException node List.mem_cons_self).weaken
      (List.Subset.refl _) (List.subset_cons_self _ _)
  · exact balanced

theorem exceptionDestination (balanced : Balanced routine supplies bounds walk) :
    Balanced routine supplies (((walk.exceptionDestination routine).2, []) :: bounds)
      (walk.exceptionDestination routine).1 := by
  unfold Walk.exceptionDestination
  split
  · exact balanced.handlerEntry _
  · exact balanced.bound_sink

end Balanced

end Walk

end BytecodeFlow

/-
This file follows the normal edges that lead to a node while a walk builds its
graph. A node that is added gets one edge at once, unless it is the entry of a
handler. Later edges lead only to nodes that may be shared (`Sharable`): the
exit, the sink, the entries of handlers, and nodes opened for blocks outside of
handlers.
-/

import BytecodeFlow.Proofs.Graph.Indegree
import BytecodeFlow.Proofs.Walk.Moves

namespace BytecodeFlow

/-- The kinds of nodes that are added for code. -/
def NodeKind.IsInner : NodeKind → Prop
  | .statement => True
  | .join => True
  | .prune _ _ => True
  | _ => False

namespace Walk

/-- A node is recorded in `opened` for a block that starts at an offset. -/
def Records (walk : Walk) (offset : Offset) (node : NodeIndex) : Prop :=
  ∃ stack, (node, stack) ∈ walk.opened.getD offset []

/-- The nodes to which several edges may lead. -/
def Sharable (routine : Routine) (walk : Walk) (index : NodeIndex) : Prop :=
  index = Procedure.exit ∨ index = Procedure.sink ∨
    walk.procedure.kind? index = some .handler ∨
    ∃ offset, routine.regions.isHandlerOffset offset = false ∧ walk.Records offset index

/-- Edges lead to each node that was added for code, and several only to nodes that are
`Sharable`. -/
structure Entered (routine : Routine) (walk : Walk) : Prop where
  exitKind : walk.procedure.kind? Procedure.exit = some .exit
  sinkKind : walk.procedure.kind? Procedure.sink = some .sink
  within : ∀ source, ∀ target ∈ walk.procedure.successorsOf source, target < walk.procedure.size
  atLeastOne : ∀ index kind, walk.procedure.kind? index = some kind → kind.IsInner →
    1 ≤ walk.procedure.indegree index
  several : ∀ index, 2 ≤ walk.procedure.indegree index → Sharable routine walk index
  entries : ∀ (start : Offset) (entry : NodeIndex), walk.entries[start]? = some entry →
    walk.procedure.kind? entry = some .handler
  records : ∀ offset node, walk.Records offset node →
    walk.procedure.kind? node = some .statement ∨ walk.procedure.kind? node = some .join
  apart : ∀ first second node, walk.Records first node → walk.Records second node → first = second
  once : ∀ offset, ((walk.opened.getD offset []).map Prod.fst).Nodup

namespace Entered

variable {routine : Routine} {walk other : Walk}

theorem lt_of_records (entered : Entered routine walk) {offset : Offset} {node : NodeIndex}
    (recorded : walk.Records offset node) : node < walk.procedure.size := by
  rcases entered.records offset node recorded with kind | kind
  · exact Procedure.lt_size_of_kind? kind
  · exact Procedure.lt_size_of_kind? kind

theorem unused (entered : Entered routine walk) {target : NodeIndex}
    (beyond : walk.procedure.size ≤ target) (source : NodeIndex) :
    target ∉ walk.procedure.successorsOf source :=
  fun edge => Nat.not_lt_of_le beyond (entered.within source target edge)

theorem lt_of_indegree (entered : Entered routine walk) {index : NodeIndex}
    (some' : 0 < walk.procedure.indegree index) : index < walk.procedure.size := by
  obtain ⟨source, edge⟩ := Procedure.exists_edge_of_indegree some'
  exact entered.within source index edge

/-- What has to be said of a change that records nothing: nodes that are there keep their kind and
their edges, and new edges lead to new nodes or to nodes that may be shared. -/
theorem extend (entered : Entered routine walk)
    (kinds : ∀ index < walk.procedure.size,
      other.procedure.kind? index = walk.procedure.kind? index)
    (within : ∀ source, ∀ target ∈ other.procedure.successorsOf source,
      target < other.procedure.size)
    (kept : ∀ index, walk.procedure.indegree index ≤ other.procedure.indegree index)
    (new : ∀ index, walk.procedure.size ≤ index → ∀ kind,
      other.procedure.kind? index = some kind → kind.IsInner → 1 ≤ other.procedure.indegree index)
    (several : ∀ index, 2 ≤ other.procedure.indegree index → 2 ≤ walk.procedure.indegree index ∨
      Sharable routine walk index ∧ index < walk.procedure.size)
    (entries : ∀ (start : Offset) (entry : NodeIndex), other.entries[start]? = some entry →
      walk.entries[start]? = some entry ∨ other.procedure.kind? entry = some .handler)
    (opened : other.opened = walk.opened) : Entered routine other where
  exitKind := by
    rw [kinds _ (Procedure.lt_size_of_kind? entered.exitKind)]
    exact entered.exitKind
  sinkKind := by
    rw [kinds _ (Procedure.lt_size_of_kind? entered.sinkKind)]
    exact entered.sinkKind
  within := within
  atLeastOne index kind found inner := by
    by_cases old : index < walk.procedure.size
    · rw [kinds index old] at found
      exact Nat.le_trans (entered.atLeastOne index kind found inner) (kept index)
    · exact new index (Nat.le_of_not_lt old) kind found inner
  several index many := by
    have sharable : Sharable routine walk index ∧ index < walk.procedure.size := by
      rcases several index many with before | sharable
      · exact ⟨entered.several index before, entered.lt_of_indegree (Nat.lt_of_succ_lt before)⟩
      · exact sharable
    unfold Sharable Records
    rw [kinds index sharable.2, opened]
    exact sharable.1
  entries start entry found := by
    rcases entries start entry found with old | handler
    · have handler := entered.entries start entry old
      rw [kinds entry (Procedure.lt_size_of_kind? handler)]
      exact handler
    · exact handler
  records offset node recorded := by
    unfold Records at recorded
    rw [opened] at recorded
    rw [kinds node (entered.lt_of_records recorded)]
    exact entered.records offset node recorded
  apart := by
    unfold Records
    rw [opened]
    exact entered.apart
  once := by
    rw [opened]
    exact entered.once

/-- A walk stays `Entered` if the nodes, their edges and the two tables are left alone. -/
theorem of_edges (entered : Entered routine walk)
    (size : other.procedure.size = walk.procedure.size)
    (kinds : ∀ index, other.procedure.kind? index = walk.procedure.kind? index)
    (edges : ∀ index, other.procedure.successorsOf index = walk.procedure.successorsOf index)
    (opened : other.opened = walk.opened) (entries : other.entries = walk.entries) :
    Entered routine other := by
  have degrees := Procedure.indegree_congr size edges
  refine entered.extend (fun index _ => kinds index) ?_
    (fun index => Nat.le_of_eq (degrees index).symm) ?_ ?_ ?_ opened
  · intro source target edge
    rw [edges] at edge
    rw [size]
    exact entered.within source target edge
  · intro index beyond kind found
    rw [kinds] at found
    exact absurd (Procedure.lt_size_of_kind? found) (Nat.not_lt_of_le beyond)
  · intro index many
    rw [degrees] at many
    exact .inl many
  · intro start entry found
    rw [entries] at found
    exact .inl found

theorem of_fields (entered : Entered routine walk) (procedure : other.procedure = walk.procedure)
    (opened : other.opened = walk.opened) (entries : other.entries = walk.entries) :
    Entered routine other :=
  entered.of_edges (by rw [procedure]) (fun _ => by rw [procedure]) (fun _ => by rw [procedure])
    opened entries

theorem append (entered : Entered routine walk) (index : NodeIndex) (commands : List Command) :
    Entered routine { walk with procedure := walk.procedure.append index commands } :=
  entered.of_edges (Procedure.size_append ..) (fun _ => Procedure.kind?_append ..)
    (fun _ => Procedure.successorsOf_append ..) rfl rfl

theorem setException (entered : Entered routine walk) (source target : NodeIndex) :
    Entered routine { walk with procedure := walk.procedure.setException source target } :=
  entered.of_edges (Procedure.size_setException ..) (fun _ => Procedure.kind?_setException ..)
    (fun _ => Procedure.successorsOf_setException ..) rfl rfl

/-- One more edge may lead to a node that is `Sharable`. -/
theorem link (entered : Entered routine walk) (source : NodeIndex) {target : NodeIndex}
    (sharable : Sharable routine walk target) (known : target < walk.procedure.size) :
    Entered routine { walk with procedure := walk.procedure.link source target } := by
  refine entered.extend (fun _ _ => Procedure.kind?_link ..) ?_
    (fun _ => Procedure.indegree_le_link ..) ?_ ?_ (fun _ _ found => .inl found) rfl
  · intro first second edge
    rw [Procedure.size_link]
    rcases Procedure.mem_successorsOf_link edge with old | ⟨-, rfl⟩
    · exact entered.within first second old
    · exact known
  · intro index beyond kind found
    rw [Procedure.kind?_link] at found
    exact absurd (Procedure.lt_size_of_kind? found) (Nat.not_lt_of_le beyond)
  · intro index many
    by_cases same : index = target
    · rw [same]
      exact .inr ⟨sharable, known⟩
    · rw [Procedure.indegree_link_of_ne same] at many
      exact .inl many

/-- A node that is added for code gets an edge at once. -/
theorem addNode_link (entered : Entered routine walk) {node : Node} (closed : node.successors = [])
    {source : NodeIndex} (known : source < walk.procedure.size) :
    Entered routine { walk with
      procedure := (walk.procedure.addNode node).link source walk.procedure.size } := by
  let new := walk.procedure.size
  have fresh : new ∉ (walk.procedure.addNode node).successorsOf source := by
    rw [Procedure.successorsOf_addNode _ closed]
    exact entered.unused (Nat.le_refl _) source
  have sourceKnown : source < (walk.procedure.addNode node).size := by
    rw [Procedure.size_addNode]
    exact Nat.lt_succ_of_lt known
  have degrees : ∀ index, ((walk.procedure.addNode node).link source new).indegree index =
      walk.procedure.indegree index + if index = new then 1 else 0 := by
    intro index
    rw [Procedure.indegree_link sourceKnown fresh, Procedure.indegree_addNode _ closed]
  have size : ((walk.procedure.addNode node).link source new).size = new + 1 := by
    rw [Procedure.size_link, Procedure.size_addNode]
  refine entered.extend ?_ ?_
    (fun index => by rw [degrees]; exact Nat.le_add_right ..) ?_ ?_ (fun _ _ found => .inl found)
    rfl
  · intro index old
    rw [Procedure.kind?_link, Procedure.kind?_addNode_of_lt old]
  · intro first second edge
    rw [size]
    rcases Procedure.mem_successorsOf_link edge with old | ⟨-, rfl⟩
    · rw [Procedure.successorsOf_addNode _ closed] at old
      exact Nat.lt_succ_of_lt (entered.within first second old)
    · exact Nat.lt_succ_self _
  · intro index beyond kind found _
    have within := Procedure.lt_size_of_kind? found
    rw [size] at within
    rw [degrees, if_pos (Nat.le_antisymm (Nat.le_of_lt_succ within) beyond)]
    exact Nat.le_add_left ..
  · intro index many
    rw [degrees] at many
    by_cases isNew : index = new
    · rw [isNew, if_pos rfl, Procedure.indegree_eq_zero (entered.unused (Nat.le_refl _))] at many
      exact absurd many (by decide)
    · rw [if_neg isNew] at many
      exact .inl many

/-- The entry of a handler may be added without an edge. -/
theorem addHandler (entered : Entered routine walk) {node : Node} (kind : node.kind = .handler)
    (closed : node.successors = []) (start : Offset) :
    Entered routine { walk with
      procedure := walk.procedure.addNode node
      entries := walk.entries.insert start walk.procedure.size } := by
  have handler : (walk.procedure.addNode node).kind? walk.procedure.size = some .handler := by
    rw [Procedure.kind?_addNode_self, kind]
  refine entered.extend (fun _ old => Procedure.kind?_addNode_of_lt old) ?_
    (fun index => Nat.le_of_eq (Procedure.indegree_addNode _ closed index).symm) ?_ ?_ ?_ rfl
  · intro source target edge
    rw [Procedure.successorsOf_addNode _ closed] at edge
    rw [Procedure.size_addNode]
    exact Nat.lt_succ_of_lt (entered.within source target edge)
  · intro index beyond other found inner
    have within := Procedure.lt_size_of_kind? found
    rw [Procedure.size_addNode] at within
    rw [Nat.le_antisymm (Nat.le_of_lt_succ within) beyond, handler] at found
    cases found
    exact inner.elim
  · intro index many
    rw [Procedure.indegree_addNode _ closed] at many
    exact .inl many
  · intro place entry found
    rw [Std.ExtTreeMap.getElem?_insert] at found
    split at found
    · cases found
      exact .inr handler
    · exact .inl found

/-- The nodes that are `Ending` are `Sharable`. -/
theorem sharable_of_ending (entered : Entered routine walk) {index : NodeIndex}
    (ending : walk.Ending index) :
    Sharable routine walk index ∧ index < walk.procedure.size := by
  rcases ending with rfl | rfl | ⟨start, found⟩
  · exact ⟨.inl rfl, Procedure.lt_size_of_kind? entered.exitKind⟩
  · exact ⟨.inr (.inl rfl), Procedure.lt_size_of_kind? entered.sinkKind⟩
  · have handler := entered.entries start index found
    exact ⟨.inr (.inr (.inl handler)), Procedure.lt_size_of_kind? handler⟩

theorem link_ending (entered : Entered routine walk) (source : NodeIndex) {target : NodeIndex}
    (ending : walk.Ending target) :
    Entered routine { walk with procedure := walk.procedure.link source target } := by
  obtain ⟨sharable, known⟩ := entered.sharable_of_ending ending
  exact entered.link source sharable known

end Entered

/-! ### Entries of handlers -/

theorem finallyEntry_ending (routine : Routine) (walk : Walk) (position : Nat) :
    (walk.finallyEntry routine position).1.Ending (walk.finallyEntry routine position).2 := by
  unfold finallyEntry
  split
  · rename_i clause found
    split
    · rename_i entry known
      exact .inr (.inr ⟨_, known⟩)
    · exact .inr (.inr ⟨clause.handler.start, Std.ExtTreeMap.getElem?_insert_self⟩)
  · exact .inr (.inl rfl)

theorem catchEntry_ending {routine : Routine} {clauses : List CatchClause}
    (listed : ∀ clause ∈ clauses, clause ∈ routine.regions.catches) (walk : Walk) :
    (catchEntry routine clauses walk).1.Ending (catchEntry routine clauses walk).2 := by
  cases clauses with
  | nil => exact .inr (.inl rfl)
  | cons clause rest =>
    exact .inr (.inr ⟨clause.handler.start, (Equipped.catchEntry _ listed walk).2 clause rfl⟩)

theorem passOn_ending {routine : Routine} {rest : List CatchClause}
    (listed : ∀ clause ∈ rest, clause ∈ routine.regions.catches) (walk : Walk)
    (clause : CatchClause) :
    (walk.passOn routine clause rest).1.Ending (walk.passOn routine clause rest).2 := by
  unfold passOn
  split
  · exact catchEntry_ending listed walk
  · split
    · exact finallyEntry_ending routine walk _
    · exact .inr (.inl rfl)

namespace Entered

variable {routine : Routine} {walk : Walk}

theorem finallyEntry (entered : Entered routine walk) (position : Nat) :
    Entered routine (walk.finallyEntry routine position).1 := by
  unfold Walk.finallyEntry
  split
  · rename_i clause found
    split
    · exact entered
    · have added := @addHandler routine walk entered (finallyEntryNode walk.nextIdent
        (routine.locationAt clause.handler.start walk.location)) rfl rfl clause.handler.start
      exact added.of_fields rfl rfl rfl
  · exact entered.of_fields rfl rfl rfl

/-- The two ways out of a catch entry get their edges from it. -/
theorem addCatchNodes (entered : Entered routine walk) (clause : CatchClause) :
    Entered routine (walk.addCatchNodes routine clause) := by
  let size := walk.procedure.size
  let location := routine.locationAt clause.handler.start walk.location
  let blockEnd := routine.regions.blockEnd? clause.handler.start
  let entry := catchEntryNode (.ofName clause.catchType) ⟨walk.nextStamp⟩ ⟨walk.nextStamp + 1⟩
    ⟨walk.nextStamp + 2⟩ location
  let taken := pruneNode (.var ⟨walk.nextStamp + 2⟩) true .conditional location blockEnd
  let missed := missedNode ⟨walk.nextStamp + 1⟩ ⟨walk.nextStamp + 2⟩ location blockEnd
  let first := walk.procedure.addNode entry
  have firstSize : first.size = size + 1 := Procedure.size_addNode ..
  let second := (first.addNode taken).link size first.size
  have secondSize : second.size = size + 2 := by
    rw [Procedure.size_link, Procedure.size_addNode, firstSize]
  have added : Entered routine { walk with
      procedure := first, entries := walk.entries.insert clause.handler.start size } :=
    entered.addHandler rfl rfl _
  have forked : Entered routine { walk with
      procedure := second, entries := walk.entries.insert clause.handler.start size } :=
    added.addNode_link rfl (by rw [firstSize]; exact Nat.lt_succ_self _)
  have complete : Entered routine { walk with
      procedure := (second.addNode missed).link size second.size
      entries := walk.entries.insert clause.handler.start size } :=
    forked.addNode_link rfl (by rw [secondSize]; exact Nat.lt_succ_of_lt (Nat.lt_succ_self _))
  have sourceKnown : size < (first.addNode taken).size := by
    rw [Procedure.size_addNode, firstSize]
    exact Nat.lt_succ_of_lt (Nat.lt_succ_self _)
  refine complete.of_fields ?_ rfl rfl
  show (((first.addNode taken).addNode missed).link size (size + 1)).link size (size + 2) = _
  rw [Procedure.link_addNode sourceKnown, ← firstSize, ← secondSize]

theorem guardCatch (entered : Entered routine walk) (clause : CatchClause) (entry : NodeIndex) :
    Entered routine (walk.guardCatch routine clause entry) := by
  unfold Walk.guardCatch
  split
  · exact (((entered.finallyEntry _).setException _ _).setException _ _).setException _ _
  · exact entered

theorem catchEntry {clauses : List CatchClause}
    (listed : ∀ clause ∈ clauses, clause ∈ routine.regions.catches)
    (entered : Entered routine walk) : Entered routine (catchEntry routine clauses walk).1 := by
  induction clauses generalizing walk with
  | nil => exact entered
  | cons clause rest inductionHypothesis =>
    have listedRest : ∀ other ∈ rest, other ∈ routine.regions.catches :=
      fun other member => listed other (List.mem_cons_of_mem _ member)
    cases entry? : walk.entries[clause.handler.start]? with
    | some entry =>
      rw [catchEntry_known _ entry?]
      exact entered
    | none =>
      rw [catchEntry_fresh _ entry?]
      have added := entered.addCatchNodes clause
      have passed : Entered routine
          ((walk.addCatchNodes routine clause).passOn routine clause rest).1 := by
        unfold Walk.passOn
        split
        · exact inductionHypothesis listedRest added
        · split
          · exact added.finallyEntry _
          · exact added
      have linked := passed.link_ending (walk.procedure.size + 2)
        (passOn_ending listedRest (walk.addCatchNodes routine clause) clause)
      exact (linked.guardCatch clause walk.procedure.size).of_fields rfl rfl rfl

theorem handlerEntry (entered : Entered routine walk) (target : HandlerTarget) :
    Entered routine (walk.handlerEntry routine target).1 := by
  unfold Walk.handlerEntry
  split
  · split
    · exact entered.of_fields rfl rfl rfl
    · rename_i position clause rest dropped
      refine catchEntry (fun other member => ?_) entered
      rw [← dropped] at member
      exact List.mem_of_mem_drop member
  · exact entered.finallyEntry _

end Entered

/-! ### Operations and turns -/

/-- What goes along with the moves of `Working`: its own nodes are known, and as long as the current
block has no node on record, a single own node is one that was placed for it. -/
structure Placed (walk : Walk) (own : List NodeIndex) : Prop where
  known : ∀ node ∈ own, node < walk.procedure.size
  previous : walk.previous < walk.procedure.size
  awaiting : walk.current = none → ∀ node, own = [node] →
    (walk.procedure.kind? node = some .statement ∨ walk.procedure.kind? node = some .join) ∧
    ∀ offset, ¬ walk.Records offset node

theorem Placed.of_extends {walk other : Walk} {own : List NodeIndex} (placed : Placed walk own)
    (extended : walk.procedure.Extends other.procedure) (previous : other.previous = walk.previous)
    (current : other.current = walk.current) (opened : other.opened = walk.opened) :
    Placed other own where
  known node member := Nat.lt_of_lt_of_le (placed.known node member) extended.size_le
  previous := by
    rw [previous]
    exact Nat.lt_of_lt_of_le placed.previous extended.size_le
  awaiting closed node only := by
    obtain ⟨kind, unrecorded⟩ := placed.awaiting (current ▸ closed) node only
    have known := placed.known node (by rw [only]; exact List.mem_cons_self)
    constructor
    · rw [extended.kind? known]
      exact kind
    · unfold Records
      rw [opened]
      exact unrecorded

/-- One more node is on record. -/
theorem records_insert {walk other : Walk} {offset : Offset} {node : NodeIndex}
    {stack : List Value}
    (opened : other.opened = walk.opened.insert offset
      (walk.opened.getD offset [] ++ [(node, stack)])) {place : Offset} {index : NodeIndex} :
    other.Records place index ↔ walk.Records place index ∨ offset = place ∧ index = node := by
  unfold Records
  rw [opened, Std.ExtTreeMap.getD_insert]
  by_cases here : offset = place
  · subst here
    rw [if_pos Std.ReflCmp.compare_self]
    simp only [List.mem_append, List.mem_singleton, Prod.mk.injEq, exists_or, true_and,
      exists_and_left, exists_eq, and_true]
  · rw [if_neg fun same => here (Std.LawfulEqCmp.eq_of_compare same)]
    simp only [here, false_and, or_false]

theorem Entered.record {routine : Routine} {walk other : Walk} (entered : Entered routine walk)
    {offset : Offset} {node : NodeIndex} {stack : List Value}
    (kind : walk.procedure.kind? node = some .statement ∨
      walk.procedure.kind? node = some .join)
    (unrecorded : ∀ place, ¬ walk.Records place node)
    (procedure : other.procedure = walk.procedure) (entries : other.entries = walk.entries)
    (opened : other.opened = walk.opened.insert offset
      (walk.opened.getD offset [] ++ [(node, stack)])) : Entered routine other where
  exitKind := by
    rw [procedure]
    exact entered.exitKind
  sinkKind := by
    rw [procedure]
    exact entered.sinkKind
  within := by
    rw [procedure]
    exact entered.within
  atLeastOne := by
    rw [procedure]
    exact entered.atLeastOne
  several index many := by
    rw [procedure] at many
    unfold Sharable
    rw [procedure]
    refine (entered.several index many).imp_right (.imp_right (.imp_right ?_))
    rintro ⟨place, outside, recorded⟩
    exact ⟨place, outside, (records_insert opened).mpr (.inl recorded)⟩
  entries := by
    rw [entries, procedure]
    exact entered.entries
  records place index recorded := by
    rw [procedure]
    rcases (records_insert opened).mp recorded with old | ⟨-, rfl⟩
    · exact entered.records place index old
    · exact kind
  apart first second index left right := by
    rcases (records_insert opened).mp left with oldLeft | ⟨atFirst, isNode⟩
    · rcases (records_insert opened).mp right with oldRight | ⟨-, rfl⟩
      · exact entered.apart first second index oldLeft oldRight
      · exact absurd oldLeft (unrecorded first)
    · rcases (records_insert opened).mp right with oldRight | ⟨atSecond, -⟩
      · exact absurd (isNode ▸ oldRight) (unrecorded second)
      · exact atFirst.symm.trans atSecond
  once place := by
    rw [opened, Std.ExtTreeMap.getD_insert]
    split
    · rw [List.map_append, List.map_singleton, List.nodup_append]
      refine ⟨entered.once offset, List.nodup_singleton node, fun index old last new => ?_⟩
      obtain ⟨⟨_, earlier⟩, member, rfl⟩ := List.mem_map.mp old
      rw [List.mem_singleton.mp new]
      rintro rfl
      exact unrecorded offset ⟨earlier, member⟩
    · exact entered.once place

/-- Every move of `Working` keeps a walk `Entered`. -/
theorem Working.entered {routine : Routine} {base walk : Walk} {own : List NodeIndex}
    (working : Working routine base own walk) (entered : Entered routine base)
    (placed : Placed base base.current.toList) : Entered routine walk ∧ Placed walk own := by
  induction working with
  | start => exact ⟨entered, placed⟩
  | adjust _ _ _ _ _ _ inductionHypothesis | queue _ _ _ _ inductionHypothesis =>
    obtain ⟨entered, placed⟩ := inductionHypothesis
    exact ⟨entered.of_fields rfl rfl rfl, placed.of_extends (.refl _) rfl rfl rfl⟩
  | @enter own walk working target handles inductionHypothesis =>
    obtain ⟨entered, placed⟩ := inductionHypothesis
    have equipped := @Equipped.handlerEntry routine walk target
    obtain ⟨_, _, _, _, _, same⟩ := equipped.rest
    exact ⟨entered.handlerEntry target, placed.of_extends equipped.outgrows.extended
      (by rw [same]) (by rw [same]) (by rw [same])⟩
  | @place walk working closed kind plain inductionHypothesis =>
    obtain ⟨entered, placed⟩ := inductionHypothesis
    have size : ∀ node source, ((walk.procedure.addNode node).link source
        walk.procedure.size).size = walk.procedure.size + 1 := by
      intro node source
      rw [Procedure.size_link, Procedure.size_addNode]
    refine ⟨entered.addNode_link rfl placed.previous, fun node member => ?_, ?_,
      fun _ node only => ?_⟩
    · rw [List.mem_singleton.mp member, size]
      exact Nat.lt_succ_self _
    · rw [size]
      exact Nat.lt_succ_of_lt placed.previous
    · cases only
      refine ⟨?_, fun offset recorded => ?_⟩
      · rw [Procedure.kind?_link, Procedure.kind?_addNode_self]
        exact plain.imp (congrArg some) (congrArg some)
      · exact Nat.lt_irrefl _ (entered.lt_of_records recorded)
  | @record node walk working closed inductionHypothesis =>
    obtain ⟨entered, placed⟩ := inductionHypothesis
    obtain ⟨kind, unrecorded⟩ := placed.awaiting closed node rfl
    exact ⟨entered.record kind unrecorded rfl rfl rfl, placed.known, placed.previous,
      fun impossible => absurd impossible (Option.some_ne_none node)⟩
  | @fork own walk working source owned condition branch kind inductionHypothesis =>
    obtain ⟨entered, placed⟩ := inductionHypothesis
    have grown : walk.procedure.Extends ((walk.procedure.addNode (pruneNode condition branch kind
        walk.location (routine.regions.blockEnd? walk.offset))).link source walk.procedure.size) :=
      (Procedure.Extends.addNode _ _).trans (.link _ _ _)
    refine ⟨entered.addNode_link rfl (placed.known source owned), fun node member => ?_,
      Nat.lt_of_lt_of_le placed.previous grown.size_le, fun _ node only => ?_⟩
    · rcases List.mem_cons.mp member with rfl | old
      · rw [Procedure.size_link, Procedure.size_addNode]
        exact Nat.lt_succ_self _
      · exact Nat.lt_of_lt_of_le (placed.known node old) grown.size_le
    · rw [(List.cons.inj only).2] at owned
      cases owned
  | guard _ _ _ inductionHypothesis =>
    obtain ⟨entered, placed⟩ := inductionHypothesis
    exact ⟨entered.setException _ _, placed.of_extends (.setException _ _ _) rfl rfl rfl⟩
  | write _ _ _ inductionHypothesis =>
    obtain ⟨entered, placed⟩ := inductionHypothesis
    exact ⟨entered.append _ _, placed.of_extends (.append _ _ _) rfl rfl rfl⟩
  | lead _ _ ending inductionHypothesis =>
    obtain ⟨entered, placed⟩ := inductionHypothesis
    exact ⟨entered.link_ending _ ending, placed.of_extends (.link _ _ _) rfl rfl rfl⟩

/-- Every turn keeps a walk `Entered`. -/
theorem Entered.takesUp {routine : Routine} {limits : Limits} {before after : Walk}
    {pending : Pending} {outcome : Option Outcome} (entered : Entered routine before)
    (linear : before.Linear []) (takesUp : TakesUp routine limits before pending after outcome) :
    Entered routine after := by
  obtain ⟨rest, waiting, worked⟩ := takesUp.worked
  have arrived : Entered routine (before.arrive pending rest) := entered.of_fields rfl rfl rfl
  have waits : pending ∈ before.worklist := by
    rw [waiting]
    exact List.mem_cons_self
  have known : pending.previous < before.procedure.size :=
    (linear.loose _ (List.mem_map_of_mem waits)).1
  cases worked with
  | joined node shared =>
    obtain ⟨-, -, outside, recorded, member, -⟩ := reusableNode?_eq_some shared
    have records : (before.arrive pending rest).Records _ node := ⟨recorded, member⟩
    exact arrived.link _ (.inr (.inr (.inr ⟨_, outside, records⟩))) (arrived.lt_of_records records)
  | halted | deferred => exact arrived.of_fields rfl rfl rfl
  | performed location stack own after fresh working =>
    refine (working.entered (arrived.of_fields rfl rfl rfl) ⟨fun node member => ?_, known,
      fun closed node only => ?_⟩).1
    · have current : (before.arrive pending rest).current = some node := Option.mem_toList.mp member
      rw [linear.appends pending waits node (continuation_of_arrive current)]
      exact known
    · rw [show (before.arrive pending rest).current = none from closed] at only
      cases only

end Walk

end BytecodeFlow

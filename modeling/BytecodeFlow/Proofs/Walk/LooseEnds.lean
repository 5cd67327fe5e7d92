/-
This file follows the loose ends of a walk (`looseEnds`): the nodes that still
wait for a way out. Between turns each of them is the node after which exactly
one path waits; during a turn some of them are in hand. `Linear` describes each
way of building by what it does to the nodes in hand: a new node comes into
hand, an edge or a waiting path takes one out of it. So no end is dropped and
none is used twice.
-/

import BytecodeFlow.Proofs.Graph.Forks
import BytecodeFlow.Walk.State

namespace BytecodeFlow

namespace Walk

/-- The nodes that wait for a way out: those in hand, and those after which a path waits. -/
def looseEnds (walk : Walk) (held : List NodeIndex) : List NodeIndex :=
  held ++ walk.worklist.map Pending.previous

/-- The graph is `Shaped`, every node without a way out is one of the `looseEnds`, exactly once, and
the nodes that paths may join are `Joinable`. -/
structure Linear (walk : Walk) (held : List NodeIndex) : Prop where
  shaped : walk.procedure.Shaped
  distinct : (walk.looseEnds held).Nodup
  loose : ∀ node ∈ walk.looseEnds held, node < walk.procedure.size ∧
    walk.procedure.successorsOf node = [] ∧ node ≠ Procedure.exit ∧ node ≠ Procedure.sink
  whole : ∀ node < walk.procedure.size, node ≠ Procedure.exit → node ≠ Procedure.sink →
    walk.procedure.successorsOf node = [] → node ∈ walk.looseEnds held
  appends : ∀ pending ∈ walk.worklist, ∀ node, pending.continuation = .append node →
    node = pending.previous
  opened : ∀ offset, ∀ record ∈ walk.opened.getD offset [], walk.procedure.Joinable record.1
  entries : ∀ (offset : Offset) (entry : NodeIndex), walk.entries[offset]? = some entry →
    walk.procedure.Joinable entry

namespace Linear

variable {walk : Walk} {held : List NodeIndex}

/-- Only the graph, the waiting paths and the two tables matter for a walk to be `Linear`. -/
theorem of_fields {other : Walk} (linear : walk.Linear held)
    (procedure : other.procedure = walk.procedure) (worklist : other.worklist = walk.worklist)
    (opened : other.opened = walk.opened) (entries : other.entries = walk.entries) :
    other.Linear held := by
  have ends : other.looseEnds held = walk.looseEnds held := by
    unfold looseEnds
    rw [worklist]
  constructor
  · rw [procedure]
    exact linear.shaped
  · rw [ends]
    exact linear.distinct
  · rw [ends, procedure]
    exact linear.loose
  · rw [ends, procedure]
    exact linear.whole
  · rw [worklist]
    exact linear.appends
  · rw [opened, procedure]
    exact linear.opened
  · rw [entries, procedure]
    exact linear.entries

theorem perm {other : List NodeIndex} (linear : walk.Linear held) (same : held.Perm other) :
    walk.Linear other := by
  have ends : (walk.looseEnds held).Perm (walk.looseEnds other) := same.append_right _
  exact {
    shaped := linear.shaped
    distinct := ends.nodup_iff.mp linear.distinct
    loose := fun node member => linear.loose node (ends.mem_iff.mpr member)
    whole := fun node known notExit notSink closed =>
      ends.mem_iff.mp (linear.whole node known notExit notSink closed)
    appends := linear.appends
    opened := linear.opened
    entries := linear.entries }

/-! ### Nodes -/

/-- A new node comes into hand. -/
theorem addNode (linear : walk.Linear held) (node : Node) (closed : node.successors = []) :
    Linear { walk with procedure := walk.procedure.addNode node }
      (walk.procedure.size :: held) := by
  have older : ∀ index ∈ walk.looseEnds held, index < walk.procedure.size :=
    fun index member => (linear.loose index member).1
  have joinable : ∀ index, walk.procedure.Joinable index →
      (walk.procedure.addNode node).Joinable index := fun index => Procedure.Joinable.mono
    (by rw [Procedure.size_addNode]; exact Nat.le_succ _) Procedure.kind?_addNode_of_lt
  exact {
    shaped := linear.shaped.addNode closed
    distinct := List.nodup_cons.mpr
      ⟨fun member => Nat.lt_irrefl _ (older _ member), linear.distinct⟩
    loose := by
      intro index member
      rw [Procedure.size_addNode, Procedure.successorsOf_addNode _ closed]
      rcases List.mem_cons.mp member with rfl | old
      · have sinkKnown := linear.shaped.sink_lt
        refine ⟨Nat.lt_succ_self _, Procedure.successorsOf_of_size_le (Nat.le_refl _), ?_, ?_⟩
        · exact Nat.ne_of_gt (Nat.lt_trans (by decide) sinkKnown)
        · exact Nat.ne_of_gt sinkKnown
      · obtain ⟨known, rest⟩ := linear.loose index old
        exact ⟨Nat.lt_succ_of_lt known, rest⟩
    whole := by
      intro index known notExit notSink open'
      rw [Procedure.successorsOf_addNode _ closed] at open'
      rw [Procedure.size_addNode] at known
      rcases Nat.lt_succ_iff_lt_or_eq.mp known with old | rfl
      · exact List.mem_cons_of_mem _ (linear.whole index old notExit notSink open')
      · exact List.mem_cons_self
    appends := linear.appends
    opened := fun offset record member => joinable _ (linear.opened offset record member)
    entries := fun offset entry found => joinable _ (linear.entries offset entry found) }

/-- Changes of single nodes that add no edge leave the `looseEnds` as they are. -/
theorem change (linear : walk.Linear held) {procedure : Procedure} (shaped : procedure.Shaped)
    (size : procedure.size = walk.procedure.size)
    (kinds : ∀ index, procedure.kind? index = walk.procedure.kind? index)
    (edges : ∀ index, procedure.successorsOf index = walk.procedure.successorsOf index) :
    Linear { walk with procedure } held := by
  have joinable : ∀ index, walk.procedure.Joinable index → procedure.Joinable index :=
    fun index => Procedure.Joinable.mono (Nat.le_of_eq size.symm) fun _ => kinds index
  exact {
    shaped
    distinct := linear.distinct
    loose := by
      intro index member
      rw [size, edges]
      exact linear.loose index member
    whole := by
      intro index known notExit notSink closed
      rw [size] at known
      rw [edges] at closed
      exact linear.whole index known notExit notSink closed
    appends := linear.appends
    opened := fun offset record member => joinable _ (linear.opened offset record member)
    entries := fun offset entry found => joinable _ (linear.entries offset entry found) }

theorem append (linear : walk.Linear held) (index : NodeIndex) (commands : List Command) :
    Linear { walk with procedure := walk.procedure.append index commands } held :=
  linear.change (linear.shaped.append index commands) (Procedure.size_append ..)
    (Procedure.kind?_append _ _ · _) (Procedure.successorsOf_append _ _ · _)

theorem setException (linear : walk.Linear held) (source target : NodeIndex) :
    Linear { walk with procedure := walk.procedure.setException source target } held :=
  linear.change (linear.shaped.setException source target) (Procedure.size_setException ..)
    (Procedure.kind?_setException _ _ _) (Procedure.successorsOf_setException _ _ _)

/-! ### Edges -/

/-- An edge takes its source out of hand. -/
theorem link {source target : NodeIndex} (linear : walk.Linear (source :: held))
    (known : target < walk.procedure.size) (notStart : target ≠ Procedure.start)
    (alone : walk.procedure.IsPrune target →
      ∀ index, target ∉ walk.procedure.successorsOf index) :
    Linear { walk with procedure := walk.procedure.link source target } held := by
  obtain ⟨sourceKnown, closed, notExit, notSink⟩ := linear.loose source List.mem_cons_self
  obtain ⟨unheld, distinct⟩ := List.nodup_cons.mp linear.distinct
  have joinable : ∀ index, walk.procedure.Joinable index →
      (walk.procedure.link source target).Joinable index := fun index =>
    Procedure.Joinable.mono (Nat.le_of_eq (Procedure.size_link ..).symm)
      fun _ => Procedure.kind?_link ..
  exact {
    shaped := linear.shaped.link closed sourceKnown notExit notSink known notStart alone
    distinct
    loose := by
      intro index member
      have other : index ≠ source := fun same => unheld (same ▸ member)
      rw [Procedure.size_link, Procedure.successorsOf_link_of_ne _ other]
      exact linear.loose index (List.mem_cons_of_mem _ member)
    whole := by
      intro index indexKnown indexNotExit indexNotSink indexClosed
      rw [Procedure.size_link] at indexKnown
      have other : index ≠ source := by
        rintro rfl
        rw [Procedure.successorsOf_link_self sourceKnown (by rw [closed]; exact List.not_mem_nil)]
          at indexClosed
        simp at indexClosed
      rw [Procedure.successorsOf_link_of_ne _ other] at indexClosed
      rcases List.mem_cons.mp (linear.whole index indexKnown indexNotExit indexNotSink indexClosed)
        with same | member
      · exact absurd same other
      · exact member
    appends := linear.appends
    opened := fun offset record member => joinable _ (linear.opened offset record member)
    entries := fun offset entry found => joinable _ (linear.entries offset entry found) }

/-- A second way out of a node, next to one on the opposite condition. -/
theorem link_second {source taken notTaken : NodeIndex} {condition : Expr} {kind : BranchKind}
    (linear : walk.Linear held) (only : walk.procedure.successorsOf source = [taken])
    (holds : walk.procedure.Prunes taken condition true kind)
    (fails : walk.procedure.Prunes notTaken (.not condition) false kind)
    (alone : ∀ index, notTaken ∉ walk.procedure.successorsOf index)
    (notStart : notTaken ≠ Procedure.start) :
    Linear { walk with procedure := walk.procedure.link source notTaken } held := by
  have edge : taken ∈ walk.procedure.successorsOf source := by
    rw [only]
    exact List.mem_singleton_self _
  have sourceKnown := Procedure.lt_size_of_mem_successorsOf edge
  have joinable : ∀ index, walk.procedure.Joinable index →
      (walk.procedure.link source notTaken).Joinable index := fun index =>
    Procedure.Joinable.mono (Nat.le_of_eq (Procedure.size_link ..).symm)
      fun _ => Procedure.kind?_link ..
  exact {
    shaped := linear.shaped.link_second only holds fails alone notStart
    distinct := linear.distinct
    loose := by
      intro index member
      obtain ⟨known, closed, rest⟩ := linear.loose index member
      have other : index ≠ source := by
        rintro rfl
        rw [only] at closed
        cases closed
      rw [Procedure.size_link, Procedure.successorsOf_link_of_ne _ other]
      exact ⟨known, closed, rest⟩
    whole := by
      intro index known notExit notSink closed
      rw [Procedure.size_link] at known
      have other : index ≠ source := by
        rintro rfl
        rw [Procedure.successorsOf_link_self sourceKnown (alone _)] at closed
        simp at closed
      rw [Procedure.successorsOf_link_of_ne _ other] at closed
      exact linear.whole index known notExit notSink closed
    appends := linear.appends
    opened := fun offset record member => joinable _ (linear.opened offset record member)
    entries := fun offset entry found => joinable _ (linear.entries offset entry found) }

/-! ### Waiting paths and tables -/

/-- A waiting path takes the node that it follows out of hand. -/
theorem queue {pending : Pending} (linear : walk.Linear (pending.previous :: held))
    (appends : ∀ node, pending.continuation = .append node → node = pending.previous) :
    (walk.queue pending).Linear held := by
  have ends : (walk.looseEnds (pending.previous :: held)).Perm
      ((walk.queue pending).looseEnds held) := List.perm_middle.symm
  exact {
    shaped := linear.shaped
    distinct := ends.nodup_iff.mp linear.distinct
    loose := fun node member => linear.loose node (ends.mem_iff.mpr member)
    whole := fun node known notExit notSink closed =>
      ends.mem_iff.mp (linear.whole node known notExit notSink closed)
    appends := by
      intro other member node continued
      rcases List.mem_cons.mp member with rfl | old
      · exact appends node continued
      · exact linear.appends other old node continued
    opened := linear.opened
    entries := linear.entries }

/-- A path that is taken up puts the node that it follows into hand. -/
theorem take {pending : Pending} {rest : List Pending} (linear : walk.Linear held)
    (waiting : walk.worklist = pending :: rest) :
    Linear { walk with worklist := rest } (pending.previous :: held) := by
  have ends : (walk.looseEnds held).Perm
      (looseEnds { walk with worklist := rest } (pending.previous :: held)) := by
    unfold looseEnds
    rw [waiting]
    exact List.perm_middle
  exact {
    shaped := linear.shaped
    distinct := ends.nodup_iff.mp linear.distinct
    loose := fun node member => linear.loose node (ends.mem_iff.mpr member)
    whole := fun node known notExit notSink closed =>
      ends.mem_iff.mp (linear.whole node known notExit notSink closed)
    appends := fun other member =>
      linear.appends other (by rw [waiting]; exact List.mem_cons_of_mem _ member)
    opened := linear.opened
    entries := linear.entries }

/-- A `Joinable` node may be recorded as opened. -/
theorem record_opened (linear : walk.Linear held) {node : NodeIndex}
    (joinable : walk.procedure.Joinable node) (offset : Offset) (stack : List Value) :
    Linear { walk with
      opened := walk.opened.insert offset (walk.opened.getD offset [] ++ [(node, stack)]) }
      held where
  shaped := linear.shaped
  distinct := linear.distinct
  loose := linear.loose
  whole := linear.whole
  appends := linear.appends
  opened := by
    intro other record member
    rw [Std.ExtTreeMap.getD_insert] at member
    split at member
    · rcases List.mem_append.mp member with old | new
      · exact linear.opened offset record old
      · rw [List.mem_singleton.mp new]
        exact joinable
    · exact linear.opened other record member
  entries := linear.entries

/-- A `Joinable` node may be recorded as the entry of a handler. -/
theorem record_entry (linear : walk.Linear held) {node : NodeIndex}
    (joinable : walk.procedure.Joinable node) (offset : Offset) :
    Linear { walk with entries := walk.entries.insert offset node } held where
  shaped := linear.shaped
  distinct := linear.distinct
  loose := linear.loose
  whole := linear.whole
  appends := linear.appends
  opened := linear.opened
  entries := by
    intro other entry found
    rw [Std.ExtTreeMap.getElem?_insert] at found
    split at found
    · cases found
      exact joinable
    · exact linear.entries other entry found

end Linear

end Walk

end BytecodeFlow

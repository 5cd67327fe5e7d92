/-
This file says when no node of a procedure is an orphan. Under construction a
node comes into being before any edge leads to it, so `Sprouts` describes a way
of building together with the new nodes that still wait for an edge. Every
other new node has a `Parent`: an earlier node, neither the exit nor the sink,
that leads to it. Parents come first, so where no node waits everything
descends from the start (`Rooted`).
-/

import Mathlib.Logic.Relation
import BytecodeFlow.Proofs.Graph.Finishing
import BytecodeFlow.Proofs.Graph.Growth

namespace BytecodeFlow

namespace Procedure

/-! ### Edges and paths -/

/-- An edge of the normal or the exceptional flow. -/
def Leads (procedure : Procedure) (source target : NodeIndex) : Prop :=
  target ∈ procedure.successorsOf source ∨ target ∈ procedure.exceptionsOf source

/-- Edges that `Leads` counts go from the start to a node. -/
def Reachable (procedure : Procedure) : NodeIndex → Prop :=
  Relation.ReflTransGen procedure.Leads start

/-- A node for code: neither the exit nor the sink. -/
structure Inner (procedure : Procedure) (index : NodeIndex) : Prop where
  known : index < procedure.size
  notExit : index ≠ exit
  notSink : index ≠ sink

/-- Exceptions may go to a node: it is the sink or the entry of a handler. -/
def Receives (procedure : Procedure) (index : NodeIndex) : Prop :=
  index = sink ∨ procedure.kind? index = some .handler

/-- An earlier node that leads to a node. The exceptions of the start do not count, since they are
replaced when the procedure is finished. -/
structure Parent (procedure : Procedure) (source index : NodeIndex) : Prop where
  earlier : source < index
  notExit : source ≠ exit
  notSink : source ≠ sink
  leads : index ∈ procedure.successorsOf source ∨
    source ≠ start ∧ index ∈ procedure.exceptionsOf source

theorem Parent.edge {procedure : Procedure} {source index : NodeIndex}
    (parent : procedure.Parent source index) : procedure.Leads source index :=
  parent.leads.imp_right And.right

/-- Where every node has a `Parent`, all of them are `Reachable`. -/
theorem reachable_of_parents {procedure : Procedure}
    (parents : ∀ index, sink < index → index < procedure.size →
      ∃ source, procedure.Parent source index)
    {index : NodeIndex} (inner : procedure.Inner index) : procedure.Reachable index := by
  induction index using Nat.strongRecOn with
  | ind index inductionHypothesis =>
    by_cases first : index = start
    · rw [first]
      exact .refl
    · have behind : 2 < index := by
        have notStart : index ≠ 0 := first
        have notExit : index ≠ 1 := inner.notExit
        have notSink : index ≠ 2 := inner.notSink
        omega
      obtain ⟨source, parent⟩ := parents index behind inner.known
      have reachable := inductionHypothesis source parent.earlier
        ⟨Nat.lt_trans parent.earlier inner.known, parent.notExit, parent.notSink⟩
      exact .tail reachable parent.edge

section Growth

variable {first second : Procedure} {source index : NodeIndex}

theorem Inner.mono (inner : first.Inner index) (extended : first.Extends second) :
    second.Inner index :=
  ⟨Nat.lt_of_lt_of_le inner.known extended.size_le, inner.notExit, inner.notSink⟩

theorem Receives.mono (receives : first.Receives index) (extended : first.Extends second) :
    second.Receives index :=
  receives.imp_right fun handler => (extended.kind? (lt_size_of_kind? handler)).trans handler

theorem Parent.mono (parent : first.Parent source index) (extended : first.Extends second)
    (exceptionsKept : ∀ source, first.exceptionsOf source ⊆ second.exceptionsOf source) :
    second.Parent source index :=
  { parent with
    leads := parent.leads.imp (fun edge => (extended.successorsOf source).subset edge)
      (And.imp_right fun edge => exceptionsKept source edge) }

end Growth

/-! ### Building -/

/-- A procedure is built further. Among the new nodes only those that wait may be without a
`Parent`, and new exceptions go only where a node `Receives` them. -/
structure Sprouts (before after : Procedure) (waiting : List NodeIndex) : Prop where
  extended : before.Extends after
  exceptionsKept : ∀ source, before.exceptionsOf source ⊆ after.exceptionsOf source
  parents : ∀ index, before.size ≤ index → index < after.size →
    index ∈ waiting ∨ ∃ source, after.Parent source index
  receives : ∀ source, ∀ target ∈ after.exceptionsOf source,
    target ∈ before.exceptionsOf source ∨ after.Receives target

namespace Sprouts

variable {before middle after : Procedure} {waiting more : List NodeIndex}
  {source target : NodeIndex}

theorem refl (procedure : Procedure) (waiting : List NodeIndex) :
    procedure.Sprouts procedure waiting where
  extended := .refl procedure
  exceptionsKept _ := List.Subset.refl _
  parents _ old known := absurd known (Nat.not_lt_of_le old)
  receives _ _ edge := .inl edge

theorem trans (former : before.Sprouts middle waiting) (latter : middle.Sprouts after more) :
    before.Sprouts after (waiting ++ more) where
  extended := former.extended.trans latter.extended
  exceptionsKept source :=
    List.Subset.trans (former.exceptionsKept source) (latter.exceptionsKept source)
  parents := by
    intro index new known
    rw [List.mem_append]
    by_cases old : index < middle.size
    · rcases former.parents index new old with waits | ⟨source, parent⟩
      · exact .inl (.inl waits)
      · exact .inr ⟨source, parent.mono latter.extended latter.exceptionsKept⟩
    · exact (latter.parents index (Nat.le_of_not_lt old) known).imp_left .inr
  receives := by
    intro source target edge
    rcases latter.receives source target edge with earlier | receives
    · exact (former.receives source target earlier).imp_right fun receives =>
        receives.mono latter.extended
    · exact .inr receives

/-- What is built without leaving anything waiting can always be added. -/
theorem further (former : before.Sprouts middle waiting) (latter : middle.Sprouts after []) :
    before.Sprouts after waiting := by
  have sprouts := former.trans latter
  rwa [List.append_nil] at sprouts

theorem addNode (procedure : Procedure) {node : Node} (bare : node.exceptions = []) :
    procedure.Sprouts (procedure.addNode node) [procedure.size] where
  extended := .addNode procedure node
  exceptionsKept source := by rw [exceptionsOf_addNode procedure bare]; exact List.Subset.refl _
  parents index new known := by
    rw [size_addNode] at known
    exact .inl (List.mem_singleton.mpr (Nat.le_antisymm (Nat.le_of_lt_succ known) new))
  receives source target edge := by
    rw [exceptionsOf_addNode procedure bare] at edge
    exact .inl edge

/-- No new node comes with changes of the nodes that are there. -/
theorem of_size (extended : before.Extends after) (same : after.size = before.size)
    (exceptions : ∀ source, after.exceptionsOf source = before.exceptionsOf source) :
    before.Sprouts after [] where
  extended
  exceptionsKept source := by rw [exceptions]; exact List.Subset.refl _
  parents index new known := by
    rw [same] at known
    exact absurd known (Nat.not_lt_of_le new)
  receives source target edge := by
    rw [exceptions] at edge
    exact .inl edge

theorem link (procedure : Procedure) (source target : NodeIndex) :
    procedure.Sprouts (procedure.link source target) [] :=
  of_size (.link _ _ _) (size_link ..) fun index => exceptionsOf_link procedure source target index

theorem append (procedure : Procedure) (index : NodeIndex) (commands : List Command) :
    procedure.Sprouts (procedure.append index commands) [] :=
  of_size (.append _ _ _) (size_append ..) fun other =>
    exceptionsOf_append procedure index other commands

theorem setException {procedure : Procedure} (bare : procedure.exceptionsOf source = [])
    (receives : procedure.Receives target) :
    procedure.Sprouts (procedure.setException source target) [] where
  extended := .setException _ _ _
  exceptionsKept index := by
    by_cases same : index = source
    · subst same
      rw [bare]
      exact List.nil_subset _
    · rw [exceptionsOf_congr (node?_setException_of_ne _ same)]
      exact List.Subset.refl _
  parents index new known := by
    rw [size_setException] at known
    exact absurd known (Nat.not_lt_of_le new)
  receives index other edge := by
    by_cases same : index = source
    · subst same
      have known := lt_size_of_mem_exceptionsOf edge
      rw [size_setException] at known
      rw [exceptionsOf_setException_self known, List.mem_singleton] at edge
      rw [edge]
      exact .inr (receives.mono (.setException _ _ _))
    · rw [exceptionsOf_congr (node?_setException_of_ne _ same)] at edge
      exact .inl edge

/-! ### Finding a parent -/

/-- A node that waited has found a `Parent`. -/
theorem adopt (sprouts : before.Sprouts middle (target :: waiting))
    (linked : middle.Sprouts after [])
    (parent : before.size ≤ target → ∃ source, after.Parent source target) :
    before.Sprouts after waiting :=
  { sprouts.further linked with
    parents := by
      intro index new known
      rcases (sprouts.further linked).parents index new known with waits | found
      · rcases List.mem_cons.mp waits with rfl | waits
        · exact .inr (parent new)
        · exact .inl waits
      · exact .inr found }

/-- An edge from a node that was there. -/
theorem adopt_link (sprouts : before.Sprouts after (target :: waiting))
    (inner : before.Inner source) : before.Sprouts (after.link source target) waiting := by
  refine sprouts.adopt (.link ..) fun new => ⟨source, ?_⟩
  refine ⟨Nat.lt_of_lt_of_le inner.known new, inner.notExit, inner.notSink, .inl ?_⟩
  by_cases listed : target ∈ after.successorsOf source
  · rw [successorsOf_link_of_mem listed]
    exact listed
  · rw [successorsOf_link_self (inner.mono sprouts.extended).known listed]
    exact List.mem_append_right _ List.mem_cons_self

/-- The exceptions of a node that was there. -/
theorem adopt_exception (sprouts : before.Sprouts after (target :: waiting))
    (inner : before.Inner source) (notStart : source ≠ start)
    (bare : after.exceptionsOf source = []) (receives : after.Receives target) :
    before.Sprouts (after.setException source target) waiting := by
  refine sprouts.adopt (.setException bare receives) fun new => ⟨source, ?_⟩
  refine ⟨Nat.lt_of_lt_of_le inner.known new, inner.notExit, inner.notSink, .inr ⟨notStart, ?_⟩⟩
  rw [exceptionsOf_setException_self (inner.mono sprouts.extended).known]
  exact List.mem_cons_self

/-- A new node is `Inner` as soon as the first three are there. -/
theorem inner_new {procedure : Procedure} (deep : sink < procedure.size) (node : Node) :
    (procedure.addNode node).Inner procedure.size ∧ procedure.size ≠ start := by
  refine ⟨⟨?_, ?_, Nat.ne_of_gt deep⟩, Nat.ne_of_gt (Nat.lt_trans (by decide) deep)⟩
  · rw [size_addNode]
    exact Nat.lt_succ_self _
  · exact Nat.ne_of_gt (Nat.lt_trans (by decide) deep)

/-- Of the three nodes of `Procedure.addFork` only the first waits. -/
theorem addFork {procedure : Procedure} (deep : sink < procedure.size)
    {entry taken notTaken : Node} (entryBare : entry.exceptions = [])
    (takenBare : taken.exceptions = []) (notTakenBare : notTaken.exceptions = []) :
    procedure.Sprouts (procedure.addFork entry taken notTaken) [procedure.size] := by
  have added : procedure.Sprouts (procedure.addNode entry) [procedure.size] := addNode _ entryBare
  have inner := (inner_new deep entry).1
  have branches := (addNode (procedure.addNode entry) takenBare).trans (addNode _ notTakenBare)
  rw [size_addNode, size_addNode, size_addNode] at branches
  exact added.further ((branches.adopt_link inner).adopt_link inner)

end Sprouts

/-! ### Procedures without orphans -/

/-- Every node has a `Parent` but the first three, and exceptions go only where a node `Receives`
them. -/
structure Rooted (procedure : Procedure) : Prop where
  deep : sink < procedure.size
  parents : ∀ index, sink < index → index < procedure.size →
    ∃ source, procedure.Parent source index
  receives : ∀ source, ∀ target ∈ procedure.exceptionsOf source, procedure.Receives target

theorem rooted_begin (id : Nat) (signature : Signature) (firstNodeId : Nat) :
    (begin id signature firstNodeId).Rooted where
  deep := Nat.lt_succ_self 2
  parents index behind known := absurd known (Nat.not_lt_of_le behind)
  receives source target edge := by
    rw [exceptionsOf_begin] at edge
    cases edge

namespace Rooted

variable {procedure : Procedure} {source target index : NodeIndex}

theorem sprouts {after : Procedure} (rooted : procedure.Rooted)
    (sprouts : procedure.Sprouts after []) : after.Rooted where
  deep := Nat.lt_of_lt_of_le rooted.deep sprouts.extended.size_le
  parents := by
    intro index behind known
    by_cases old : index < procedure.size
    · obtain ⟨source, parent⟩ := rooted.parents index behind old
      exact ⟨source, parent.mono sprouts.extended sprouts.exceptionsKept⟩
    · exact (sprouts.parents index (Nat.le_of_not_lt old) known).resolve_left List.not_mem_nil
  receives := by
    intro source target edge
    rcases sprouts.receives source target edge with earlier | receives
    · exact (rooted.receives source target earlier).mono sprouts.extended
    · exact receives

/-! ### Finishing -/

theorem parent_finish (parent : procedure.Parent source index) :
    procedure.finish.Parent source index := by
  refine { parent with leads := ?_ }
  rcases parent.leads with edge | ⟨notStart, edge⟩
  · rw [successorsOf_finish_of_ne parent.notSink]
    exact .inl edge
  · rw [exceptionsOf_finish (lt_size_of_mem_exceptionsOf edge), finishedExceptions,
      if_neg notStart, if_neg parent.notExit, if_neg parent.notSink, if_neg]
    · exact .inr ⟨notStart, edge⟩
    · simp [List.ne_nil_of_mem edge]

theorem reachable (rooted : procedure.Rooted) (inner : procedure.Inner index) :
    procedure.Reachable index := reachable_of_parents rooted.parents inner

theorem reachable_finish (rooted : procedure.Rooted) (inner : procedure.finish.Inner index) :
    procedure.finish.Reachable index := by
  refine reachable_of_parents (fun index behind known => ?_) inner
  rw [size_finish] at known
  obtain ⟨source, parent⟩ := rooted.parents index behind known
  exact ⟨source, parent_finish parent⟩

/-- Only the exceptions of the start and the sink go to the exit. -/
theorem receives_finish (rooted : procedure.Rooted) (notStart : source ≠ start)
    (notSink : source ≠ sink) (edge : target ∈ procedure.finish.exceptionsOf source) :
    procedure.finish.Receives target := by
  have known := lt_size_of_mem_exceptionsOf edge
  rw [size_finish] at known
  rw [exceptionsOf_finish known, finishedExceptions, if_neg notStart, if_neg notSink] at edge
  unfold Receives
  rw [kind?_finish]
  split at edge
  · cases edge
  · split at edge
    · exact .inl (List.mem_singleton.mp edge)
    · exact rooted.receives source target edge

end Rooted

end Procedure

end BytecodeFlow

/-
This file says what `Procedure.finish` leaves alone. Deriving the incoming
edges changes nothing else, and completing the exceptional flow touches the
normal flow at the sink only, which gets the exit as its successor
(`finishedSuccessors`).
-/

import BytecodeFlow.Proofs.Graph.Building

namespace BytecodeFlow

/-- A node without its incoming edges. -/
def Node.outgoing (node : Node) : Node :=
  { node with predecessors := [], exceptionPredecessors := [] }

namespace Procedure

/-! ### Incoming edges -/

theorem modify_outgoing (nodes : Array Node) (target index : NodeIndex) (change : Node → Node)
    (kept : ∀ node, (change node).outgoing = node.outgoing) :
    (nodes.modify target change)[index]?.map Node.outgoing = nodes[index]?.map Node.outgoing := by
  rw [Array.getElem?_modify]
  split
  · rw [Option.map_map]
    exact congrArg (Option.map · nodes[index]?) (funext kept)
  · rfl

theorem foldl_modify_outgoing (targets : List NodeIndex) (change : Node → Node)
    (kept : ∀ node, (change node).outgoing = node.outgoing) (nodes : Array Node)
    (index : NodeIndex) :
    (targets.foldl (fun nodes target => nodes.modify target change) nodes)[index]?.map
        Node.outgoing = nodes[index]?.map Node.outgoing := by
  induction targets generalizing nodes with
  | nil => rfl
  | cons target rest inductionHypothesis =>
    rw [List.foldl_cons, inductionHypothesis, modify_outgoing nodes target index change kept]

theorem enterPredecessor_outgoing (nodes : Array Node) (source index : NodeIndex) :
    (enterPredecessor nodes source)[index]?.map Node.outgoing =
      nodes[index]?.map Node.outgoing := by
  unfold enterPredecessor
  split
  · refine (foldl_modify_outgoing _ _ ?_ _ index).trans
      (foldl_modify_outgoing _ _ ?_ nodes index)
    · exact fun _ => rfl
    · exact fun _ => rfl
  · rfl

theorem foldl_enterPredecessor_outgoing (order : List NodeIndex) (nodes : Array Node)
    (index : NodeIndex) :
    (order.foldl enterPredecessor nodes)[index]?.map Node.outgoing =
      nodes[index]?.map Node.outgoing := by
  induction order generalizing nodes with
  | nil => rfl
  | cons source rest inductionHypothesis =>
    rw [List.foldl_cons, inductionHypothesis, enterPredecessor_outgoing]

/-- Deriving the incoming edges changes nothing else. -/
theorem computePredecessors_outgoing (procedure : Procedure) (index : NodeIndex) :
    (procedure.computePredecessors.node? index).map Node.outgoing =
      (procedure.node? index).map Node.outgoing := by
  simp only [computePredecessors, node?, foldl_enterPredecessor_outgoing, Array.getElem?_map,
    Option.map_map]
  rfl

/-! ### The exceptional flow -/

/-- The normal flow out of a node after `finish`: only that of the sink is not the one it was built
with. -/
def finishedSuccessors (index : NodeIndex) (successors : List NodeIndex) : List NodeIndex :=
  if index = sink ∧ exit ∉ successors then successors ++ [exit] else successors

theorem mem_finishedSuccessors {index target : NodeIndex} {successors : List NodeIndex}
    (edge : target ∈ finishedSuccessors index successors) :
    target ∈ successors ∨ target = exit := by
  unfold finishedSuccessors at edge
  split at edge
  · exact (List.mem_append.mp edge).imp_right List.mem_singleton.mp
  · exact .inl edge

theorem mem_finishedExceptions {index target : NodeIndex} {exceptions : List NodeIndex}
    (edge : target ∈ finishedExceptions index exceptions) :
    target ∈ exceptions ∨ target = exit ∨ target = sink := by
  unfold finishedExceptions at edge
  split_ifs at edge <;> simp_all

/-- Connecting the sink goes astray if there is none. -/
theorem stray_completeExceptions (procedure : Procedure) :
    procedure.completeExceptions.stray =
      if sink < procedure.size then procedure.stray else some sink := by
  have same : (procedure.nodes.mapIdx fun index node =>
      { node with exceptions := finishedExceptions index node.exceptions }).size =
        procedure.size := Array.size_mapIdx
  rw [← same]
  rfl

theorem completeExceptions_node? (procedure : Procedure) (index : NodeIndex) :
    procedure.completeExceptions.node? index =
      (procedure.node? index).map fun node =>
        { node with
          successors := finishedSuccessors index node.successors
          exceptions := finishedExceptions index node.exceptions } := by
  have mapped : ∀ other : NodeIndex,
      (node? { procedure with nodes := procedure.nodes.mapIdx fun index node =>
        { node with exceptions := finishedExceptions index node.exceptions } } other) =
      (procedure.node? other).map fun node =>
        { node with exceptions := finishedExceptions other node.exceptions } := by
    intro other
    exact Array.getElem?_mapIdx
  by_cases atSink : index = sink
  · subst atSink
    rw [completeExceptions, link, node?_modifyNode_self, mapped, Option.map_map]
    refine congrArg (Option.map · _) (funext fun node => ?_)
    by_cases known : exit ∈ node.successors <;> simp [finishedSuccessors, known]
  · rw [completeExceptions, node?_link_of_ne _ atSink, mapped]
    simp [finishedSuccessors, atSink]

/-! ### Views of a finished procedure -/

/-- A view that does not look at incoming edges sees no difference where they alone differ. -/
theorem map_of_outgoing {α : Type} (view : Node → α)
    (blind : ∀ node, view node.outgoing = view node) {first second : Option Node}
    (same : first.map Node.outgoing = second.map Node.outgoing) :
    first.map view = second.map view := by
  have factored : ∀ node : Option Node, node.map view = (node.map Node.outgoing).map view := by
    intro node
    rw [Option.map_map]
    exact congrArg (Option.map · node) (funext fun node => (blind node).symm)
  rw [factored first, factored second, same]

/-- A view that does not look at incoming edges sees what finishing left. -/
theorem map_finish {α : Type} (view : Node → α) (blind : ∀ node, view node.outgoing = view node)
    (procedure : Procedure) (index : NodeIndex) :
    (procedure.finish.node? index).map view =
      (procedure.node? index).map fun node =>
        view { node with
          successors := finishedSuccessors index node.successors
          exceptions := finishedExceptions index node.exceptions } := by
  rw [finish, map_of_outgoing view blind (computePredecessors_outgoing _ index),
    completeExceptions_node?, Option.map_map]
  rfl

theorem kind?_finish (procedure : Procedure) (index : NodeIndex) :
    procedure.finish.kind? index = procedure.kind? index :=
  map_finish Node.kind (fun _ => rfl) procedure index

theorem commandsOf_finish (procedure : Procedure) (index : NodeIndex) :
    procedure.finish.commandsOf index = procedure.commandsOf index :=
  congrArg (Option.getD · []) (map_finish Node.commands (fun _ => rfl) procedure index)

theorem size_finish (procedure : Procedure) : procedure.finish.size = procedure.size := by
  have same : ∀ index, procedure.finish.size ≤ index ↔ procedure.size ≤ index := by
    intro index
    have views := map_finish Node.kind (fun _ => rfl) procedure index
    rw [← node?_eq_none, ← node?_eq_none, ← Option.map_eq_none_iff, views, Option.map_eq_none_iff]
  exact Nat.le_antisymm ((same _).mpr (Nat.le_refl _)) ((same _).mp (Nat.le_refl _))

theorem successorsOf_finish {procedure : Procedure} {index : NodeIndex}
    (known : index < procedure.size) :
    procedure.finish.successorsOf index =
      finishedSuccessors index (procedure.successorsOf index) := by
  obtain ⟨node, found⟩ := node?_isSome.mpr known
  have views := map_finish Node.successors (fun _ => rfl) procedure index
  rw [found] at views
  rw [successorsOf, successorsOf, views, found]
  rfl

theorem successorsOf_finish_of_ne {procedure : Procedure} {index : NodeIndex}
    (other : index ≠ sink) :
    procedure.finish.successorsOf index = procedure.successorsOf index := by
  by_cases known : index < procedure.size
  · rw [successorsOf_finish known, finishedSuccessors, if_neg fun both => other both.1]
  · have beyond := Nat.le_of_not_lt known
    rw [successorsOf_of_size_le beyond, successorsOf_of_size_le (by rwa [size_finish])]

theorem exceptionsOf_finish {procedure : Procedure} {index : NodeIndex}
    (known : index < procedure.size) :
    procedure.finish.exceptionsOf index =
      finishedExceptions index (procedure.exceptionsOf index) := by
  obtain ⟨node, found⟩ := node?_isSome.mpr known
  have views := map_finish Node.exceptions (fun _ => rfl) procedure index
  rw [found] at views
  rw [exceptionsOf, exceptionsOf, views, found]
  rfl

end Procedure

end BytecodeFlow

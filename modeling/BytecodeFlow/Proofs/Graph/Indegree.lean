/-
This file counts the normal edges that lead to a node (`indegree`), and says
how each way of building a procedure changes the count.
-/

import Mathlib.Algebra.BigOperators.Group.Finset.Basic
import BytecodeFlow.Proofs.Graph.Finishing

namespace BytecodeFlow

namespace Procedure

/-- The number of normal edges that lead to a node. -/
def indegree (procedure : Procedure) (target : NodeIndex) : Nat :=
  ∑ source ∈ Finset.range procedure.size, (procedure.successorsOf source).count target

variable {procedure other : Procedure} {source target index : NodeIndex}

theorem indegree_congr (size : other.size = procedure.size)
    (edges : ∀ index, other.successorsOf index = procedure.successorsOf index)
    (target : NodeIndex) : other.indegree target = procedure.indegree target := by
  unfold indegree
  rw [size]
  exact Finset.sum_congr rfl fun index _ => by rw [edges]

theorem indegree_eq_zero (unused : ∀ source, target ∉ procedure.successorsOf source) :
    procedure.indegree target = 0 :=
  Finset.sum_eq_zero fun source _ => List.count_eq_zero.mpr (unused source)

theorem exists_edge_of_indegree (entered : 0 < procedure.indegree target) :
    ∃ source, target ∈ procedure.successorsOf source := by
  by_contra unused
  rw [not_exists] at unused
  rw [indegree_eq_zero unused] at entered
  exact Nat.lt_irrefl 0 entered

theorem indegree_addNode (procedure : Procedure) {node : Node} (closed : node.successors = [])
    (target : NodeIndex) :
    (procedure.addNode node).indegree target = procedure.indegree target := by
  unfold indegree
  rw [size_addNode, Finset.sum_range_succ, successorsOf_addNode _ closed,
    successorsOf_of_size_le (Nat.le_refl _), List.count_nil, Nat.add_zero]
  exact Finset.sum_congr rfl fun index _ => by rw [successorsOf_addNode _ closed]

/-- A new edge counts for the `indegree` of its target only. -/
theorem indegree_link (known : source < procedure.size)
    (fresh : target ∉ procedure.successorsOf source) (index : NodeIndex) :
    (procedure.link source target).indegree index =
      procedure.indegree index + if index = target then 1 else 0 := by
  unfold indegree
  have within : source ∈ Finset.range procedure.size := Finset.mem_range.mpr known
  have atSource : ((procedure.link source target).successorsOf source).count index =
      (procedure.successorsOf source).count index + if index = target then 1 else 0 := by
    rw [successorsOf_link_self known fresh, List.count_append, List.count_singleton]
    simp only [beq_iff_eq, @eq_comm _ target]
  rw [size_link, ← Finset.add_sum_erase _ _ within,
    ← Finset.add_sum_erase _ (fun node => (procedure.successorsOf node).count index) within,
    Nat.add_right_comm, atSource]
  refine congrArg (_ + ·) (Finset.sum_congr rfl fun node member => ?_)
  rw [successorsOf_link_of_ne _ (Finset.ne_of_mem_erase member)]

/-- An edge that is there already, or has no source, is not added. -/
theorem indegree_link_of_not
    (idle : procedure.size ≤ source ∨ target ∈ procedure.successorsOf source)
    (index : NodeIndex) :
    (procedure.link source target).indegree index = procedure.indegree index := by
  refine indegree_congr (size_link ..) (fun node => ?_) index
  rcases idle with beyond | listed
  · by_cases same : node = source
    · rw [same, successorsOf_of_size_le beyond,
        successorsOf_of_size_le (by rw [size_link]; exact beyond)]
    · exact successorsOf_link_of_ne _ same
  · exact successorsOf_link_of_mem listed node

/-- An edge to one node does not count for the `indegree` of another. -/
theorem indegree_link_of_ne (different : index ≠ target) :
    (procedure.link source target).indegree index = procedure.indegree index := by
  by_cases idle : procedure.size ≤ source ∨ target ∈ procedure.successorsOf source
  · exact indegree_link_of_not idle index
  · rw [not_or, Nat.not_le] at idle
    rw [indegree_link idle.1 idle.2, if_neg different, Nat.add_zero]

theorem indegree_le_link (procedure : Procedure) (source target index : NodeIndex) :
    procedure.indegree index ≤ (procedure.link source target).indegree index := by
  by_cases idle : procedure.size ≤ source ∨ target ∈ procedure.successorsOf source
  · rw [indegree_link_of_not idle]
  · rw [not_or, Nat.not_le] at idle
    rw [indegree_link idle.1 idle.2]
    exact Nat.le_add_right ..

/-- An edge between nodes that are there may as well be added before the next node. -/
theorem link_addNode (known : source < procedure.size) (node : Node) (target : NodeIndex) :
    (procedure.addNode node).link source target = (procedure.link source target).addNode node := by
  have stillKnown : source < (procedure.addNode node).size := by
    rw [size_addNode]
    exact Nat.lt_succ_of_lt known
  refine ext_of_node? rfl rfl rfl (fun index => ?_)
    ((stray_link stillKnown target).trans (stray_link known target).symm)
  by_cases own : index = source
  · subst own
    rw [link, node?_modifyNode_self, node?_addNode_of_ne _ _ (Nat.ne_of_lt known),
      node?_addNode_of_ne _ _ (by rw [size_link]; exact Nat.ne_of_lt known), link,
      node?_modifyNode_self]
  · rw [node?_link_of_ne _ own, node?_addNode, node?_addNode, size_link, node?_link_of_ne _ own]

/-- `Procedure.finish` adds edges to the exit only. -/
theorem indegree_finish (different : index ≠ exit) :
    procedure.finish.indegree index = procedure.indegree index := by
  unfold indegree
  rw [size_finish]
  refine Finset.sum_congr rfl fun source member => ?_
  rw [successorsOf_finish (Finset.mem_range.mp member), finishedSuccessors]
  split
  · rw [List.count_append, List.count_singleton, if_neg, Nat.add_zero]
    rw [beq_iff_eq]
    exact different.symm
  · rfl

end Procedure

end BytecodeFlow

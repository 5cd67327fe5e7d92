/-
This file says what each way of building a procedure does to the nodes that are
there: an added node leaves the others as they are, and a change to a node is
seen at that node only. Nodes are read through four views, `kind?`,
`commandsOf`, `successorsOf` and `exceptionsOf`, which give an empty answer
where there is no node, so that the edges and the commands of a procedure are
plain functions of the index.
-/

import Mathlib.Tactic.Common
import BytecodeFlow.Graph.Procedure

namespace BytecodeFlow

namespace Procedure

/-! ### Views -/

/-- The node at an index. -/
def node? (procedure : Procedure) (index : NodeIndex) : Option Node := procedure.nodes[index]?

/-- The number of nodes. -/
def size (procedure : Procedure) : Nat := procedure.nodes.size

def kind? (procedure : Procedure) (index : NodeIndex) : Option NodeKind :=
  (procedure.node? index).map Node.kind

def commandsOf (procedure : Procedure) (index : NodeIndex) : List Command :=
  ((procedure.node? index).map Node.commands).getD []

def successorsOf (procedure : Procedure) (index : NodeIndex) : List NodeIndex :=
  ((procedure.node? index).map Node.successors).getD []

def exceptionsOf (procedure : Procedure) (index : NodeIndex) : List NodeIndex :=
  ((procedure.node? index).map Node.exceptions).getD []

theorem node?_eq_none {procedure : Procedure} {index : NodeIndex} :
    procedure.node? index = none ↔ procedure.size ≤ index := by
  unfold node? size
  exact Array.getElem?_eq_none_iff

theorem node?_isSome {procedure : Procedure} {index : NodeIndex} :
    (∃ node, procedure.node? index = some node) ↔ index < procedure.size := by
  rw [← Option.isSome_iff_exists, ← Option.ne_none_iff_isSome, ne_eq, node?_eq_none]
  exact Nat.not_le

theorem successorsOf_of_size_le {procedure : Procedure} {index : NodeIndex}
    (beyond : procedure.size ≤ index) : procedure.successorsOf index = [] := by
  rw [successorsOf, node?_eq_none.mpr beyond]
  rfl

theorem kind?_of_size_le {procedure : Procedure} {index : NodeIndex}
    (beyond : procedure.size ≤ index) : procedure.kind? index = none := by
  rw [kind?, node?_eq_none.mpr beyond]
  rfl

theorem exceptionsOf_of_size_le {procedure : Procedure} {index : NodeIndex}
    (beyond : procedure.size ≤ index) : procedure.exceptionsOf index = [] := by
  rw [exceptionsOf, node?_eq_none.mpr beyond]
  rfl

theorem lt_size_of_kind? {procedure : Procedure} {index : NodeIndex} {kind : NodeKind}
    (known : procedure.kind? index = some kind) : index < procedure.size := by
  by_contra beyond
  rw [kind?_of_size_le (Nat.le_of_not_lt beyond)] at known
  cases known

theorem lt_size_of_mem_successorsOf {procedure : Procedure} {source target : NodeIndex}
    (edge : target ∈ procedure.successorsOf source) : source < procedure.size := by
  by_contra beyond
  rw [successorsOf_of_size_le (Nat.le_of_not_lt beyond)] at edge
  cases edge

theorem lt_size_of_mem_exceptionsOf {procedure : Procedure} {source target : NodeIndex}
    (edge : target ∈ procedure.exceptionsOf source) : source < procedure.size := by
  by_contra beyond
  rw [exceptionsOf_of_size_le (Nat.le_of_not_lt beyond)] at edge
  cases edge

/-- A procedure is known from what `node?` gives and from what it has besides nodes. -/
theorem ext_of_node? {first second : Procedure} (id : first.id = second.id)
    (signature : first.signature = second.signature)
    (firstNodeId : first.firstNodeId = second.firstNodeId)
    (nodes : ∀ index, first.node? index = second.node? index)
    (stray : first.stray = second.stray) : first = second := by
  cases first
  cases second
  simp only [mk.injEq]
  exact ⟨id, signature, firstNodeId, Array.ext_getElem? nodes, stray⟩

section Views

variable {first second : Procedure} {index : NodeIndex}

theorem kind?_congr (same : first.node? index = second.node? index) :
    first.kind? index = second.kind? index := by rw [kind?, kind?, same]

theorem commandsOf_congr (same : first.node? index = second.node? index) :
    first.commandsOf index = second.commandsOf index := by rw [commandsOf, commandsOf, same]

theorem successorsOf_congr (same : first.node? index = second.node? index) :
    first.successorsOf index = second.successorsOf index := by
  rw [successorsOf, successorsOf, same]

theorem exceptionsOf_congr (same : first.node? index = second.node? index) :
    first.exceptionsOf index = second.exceptionsOf index := by
  rw [exceptionsOf, exceptionsOf, same]

end Views

theorem commandsOf_begin (id : Nat) (signature : Signature) (firstNodeId : Nat)
    (index : NodeIndex) :
    (begin id signature firstNodeId).commandsOf index = [] := by
  match index with
  | 0 => rfl
  | 1 => rfl
  | 2 => rfl
  | _ + 3 => rfl

theorem successorsOf_begin (id : Nat) (signature : Signature) (firstNodeId : Nat)
    (index : NodeIndex) :
    (begin id signature firstNodeId).successorsOf index = [] := by
  match index with
  | 0 => rfl
  | 1 => rfl
  | 2 => rfl
  | _ + 3 => rfl

theorem exceptionsOf_begin (id : Nat) (signature : Signature) (firstNodeId : Nat)
    (index : NodeIndex) :
    (begin id signature firstNodeId).exceptionsOf index = [] := by
  match index with
  | 0 => rfl
  | 1 => rfl
  | 2 => rfl
  | _ + 3 => rfl

/-! ### Adding a node -/

@[simp]
theorem size_addNode (procedure : Procedure) (node : Node) :
    (procedure.addNode node).size = procedure.size + 1 := by
  simp [addNode, size]

theorem node?_addNode (procedure : Procedure) (node : Node) (index : NodeIndex) :
    (procedure.addNode node).node? index =
      if index = procedure.size then some node else procedure.node? index := by
  simp only [addNode, node?, size]
  exact Array.getElem?_push

theorem node?_addNode_self (procedure : Procedure) (node : Node) :
    (procedure.addNode node).node? procedure.size = some node := by
  rw [node?_addNode, if_pos rfl]

theorem node?_addNode_of_ne (procedure : Procedure) (node : Node) {index : NodeIndex}
    (other : index ≠ procedure.size) :
    (procedure.addNode node).node? index = procedure.node? index := by
  rw [node?_addNode, if_neg other]

theorem kind?_addNode_of_lt {procedure : Procedure} {node : Node} {index : NodeIndex}
    (known : index < procedure.size) :
    (procedure.addNode node).kind? index = procedure.kind? index :=
  kind?_congr (node?_addNode_of_ne _ _ (Nat.ne_of_lt known))

theorem kind?_addNode_self (procedure : Procedure) (node : Node) :
    (procedure.addNode node).kind? procedure.size = some node.kind := by
  rw [kind?, node?_addNode_self]
  rfl

theorem successorsOf_addNode (procedure : Procedure) {node : Node} (closed : node.successors = [])
    (index : NodeIndex) :
    (procedure.addNode node).successorsOf index = procedure.successorsOf index := by
  by_cases new : index = procedure.size
  · subst new
    rw [successorsOf_of_size_le (Nat.le_refl _), successorsOf, node?_addNode_self]
    exact closed
  · exact successorsOf_congr (node?_addNode_of_ne _ _ new)

theorem exceptionsOf_addNode (procedure : Procedure) {node : Node}
    (unguarded : node.exceptions = [])
    (index : NodeIndex) :
    (procedure.addNode node).exceptionsOf index = procedure.exceptionsOf index := by
  by_cases new : index = procedure.size
  · subst new
    rw [exceptionsOf_of_size_le (Nat.le_refl _), exceptionsOf, node?_addNode_self]
    exact unguarded
  · exact exceptionsOf_congr (node?_addNode_of_ne _ _ new)

/-! ### Changing a node -/

@[simp]
theorem size_modifyNode (procedure : Procedure) (index : NodeIndex) (change : Node → Node) :
    (procedure.modifyNode index change).size = procedure.size := by
  simp [modifyNode, size]

/-- A change to a node that is there leaves `stray` as it is. -/
theorem stray_modifyNode {procedure : Procedure} {index : NodeIndex}
    (known : index < procedure.size) (change : Node → Node) :
    (procedure.modifyNode index change).stray = procedure.stray :=
  if_pos known

/-- What went astray once is not forgotten, so `stray` is empty exactly if it was and the node is
there. -/
theorem stray_modifyNode_eq_none {procedure : Procedure} {index : NodeIndex}
    {change : Node → Node} : (procedure.modifyNode index change).stray = none ↔
      procedure.stray = none ∧ index < procedure.size := by
  by_cases known : index < procedure.size
  · rw [stray_modifyNode known]
    exact ⟨fun stray => ⟨stray, known⟩, And.left⟩
  · refine ⟨fun stray => ?_, fun both => absurd both.2 known⟩
    exact absurd ((if_neg known).symm.trans stray) (Option.some_ne_none index)

theorem node?_modifyNode_self (procedure : Procedure) (index : NodeIndex) (change : Node → Node) :
    (procedure.modifyNode index change).node? index = (procedure.node? index).map change := by
  simp only [modifyNode, node?, Array.getElem?_modify, if_pos]

theorem node?_modifyNode_of_ne (procedure : Procedure) {index other : NodeIndex}
    (change : Node → Node) (distinct : other ≠ index) :
    (procedure.modifyNode index change).node? other = procedure.node? other := by
  simp only [modifyNode, node?, Array.getElem?_modify, if_neg (Ne.symm distinct)]

/-- A view of `node?` that a change keeps sees no difference. -/
theorem map_modifyNode {α : Type} (view : Node → α) {change : Node → Node}
    (kept : ∀ node, view (change node) = view node) (procedure : Procedure)
    (changed index : NodeIndex) :
    ((procedure.modifyNode changed change).node? index).map view =
      (procedure.node? index).map view := by
  by_cases same : index = changed
  · subst same
    rw [node?_modifyNode_self, Option.map_map]
    exact congrArg (Option.map · _) (funext kept)
  · rw [node?_modifyNode_of_ne _ _ same]

@[simp]
theorem size_link (procedure : Procedure) (source target : NodeIndex) :
    (procedure.link source target).size = procedure.size := size_modifyNode ..

theorem stray_link {procedure : Procedure} {source : NodeIndex} (known : source < procedure.size)
    (target : NodeIndex) : (procedure.link source target).stray = procedure.stray :=
  stray_modifyNode known _

@[simp]
theorem size_setException (procedure : Procedure) (source target : NodeIndex) :
    (procedure.setException source target).size = procedure.size := size_modifyNode ..

@[simp]
theorem size_append (procedure : Procedure) (index : NodeIndex) (commands : List Command) :
    (procedure.append index commands).size = procedure.size := size_modifyNode ..

theorem node?_link_of_ne (procedure : Procedure) {source target other : NodeIndex}
    (distinct : other ≠ source) :
    (procedure.link source target).node? other = procedure.node? other :=
  node?_modifyNode_of_ne _ _ distinct

theorem node?_setException_of_ne (procedure : Procedure) {source target other : NodeIndex}
    (distinct : other ≠ source) :
    (procedure.setException source target).node? other = procedure.node? other :=
  node?_modifyNode_of_ne _ _ distinct

theorem node?_append_of_ne (procedure : Procedure) {index other : NodeIndex}
    (commands : List Command) (distinct : other ≠ index) :
    (procedure.append index commands).node? other = procedure.node? other :=
  node?_modifyNode_of_ne _ _ distinct

/-- A new edge comes last among the successors of its source. -/
theorem node?_link_self {procedure : Procedure} {source target : NodeIndex} {node : Node}
    (found : procedure.node? source = some node) (fresh : target ∉ node.successors) :
    (procedure.link source target).node? source =
      some { node with successors := node.successors ++ [target] } := by
  rw [link, node?_modifyNode_self, found, Option.map_some]
  simp [fresh]

theorem node?_setException_self {procedure : Procedure} {source target : NodeIndex} {node : Node}
    (found : procedure.node? source = some node) :
    (procedure.setException source target).node? source =
      some { node with exceptions := [target] } := by
  rw [setException, node?_modifyNode_self, found, Option.map_some]

theorem node?_append_self {procedure : Procedure} {index : NodeIndex} {node : Node}
    {commands : List Command} (found : procedure.node? index = some node) :
    (procedure.append index commands).node? index =
      some { node with commands := node.commands ++ commands } := by
  rw [append, node?_modifyNode_self, found, Option.map_some]

/-! ### Views of a changed procedure -/

section Changed

variable (procedure : Procedure) (source target index : NodeIndex) (commands : List Command)

@[simp]
theorem kind?_link : (procedure.link source target).kind? index = procedure.kind? index :=
  map_modifyNode Node.kind (by intro node; split <;> rfl) ..

@[simp]
theorem commandsOf_link :
    (procedure.link source target).commandsOf index = procedure.commandsOf index :=
  congrArg (Option.getD · [])
    (map_modifyNode Node.commands (by intro node; split <;> rfl) ..)

@[simp]
theorem exceptionsOf_link :
    (procedure.link source target).exceptionsOf index = procedure.exceptionsOf index :=
  congrArg (Option.getD · [])
    (map_modifyNode Node.exceptions (by intro node; split <;> rfl) ..)

@[simp]
theorem kind?_setException :
    (procedure.setException source target).kind? index = procedure.kind? index :=
  map_modifyNode Node.kind (by intro _; rfl) ..

@[simp]
theorem commandsOf_setException :
    (procedure.setException source target).commandsOf index = procedure.commandsOf index :=
  congrArg (Option.getD · []) (map_modifyNode Node.commands (by intro _; rfl) ..)

@[simp]
theorem successorsOf_setException :
    (procedure.setException source target).successorsOf index = procedure.successorsOf index :=
  congrArg (Option.getD · []) (map_modifyNode Node.successors (by intro _; rfl) ..)

@[simp]
theorem kind?_append : (procedure.append source commands).kind? index = procedure.kind? index :=
  map_modifyNode Node.kind (by intro _; rfl) ..

@[simp]
theorem successorsOf_append :
    (procedure.append source commands).successorsOf index = procedure.successorsOf index :=
  congrArg (Option.getD · []) (map_modifyNode Node.successors (by intro _; rfl) ..)

@[simp]
theorem exceptionsOf_append :
    (procedure.append source commands).exceptionsOf index = procedure.exceptionsOf index :=
  congrArg (Option.getD · []) (map_modifyNode Node.exceptions (by intro _; rfl) ..)

end Changed

theorem successorsOf_link_self {procedure : Procedure} {source target : NodeIndex}
    (known : source < procedure.size) (fresh : target ∉ procedure.successorsOf source) :
    (procedure.link source target).successorsOf source =
      procedure.successorsOf source ++ [target] := by
  obtain ⟨node, found⟩ := node?_isSome.mpr known
  have unlisted : target ∉ node.successors := by rwa [successorsOf, found] at fresh
  rw [successorsOf, successorsOf, node?_link_self found unlisted, found]
  rfl

theorem successorsOf_link_of_ne (procedure : Procedure) {source target other : NodeIndex}
    (distinct : other ≠ source) :
    (procedure.link source target).successorsOf other = procedure.successorsOf other :=
  successorsOf_congr (node?_link_of_ne _ distinct)

/-- An edge that is there already is not added again. -/
theorem successorsOf_link_of_mem {procedure : Procedure} {source target : NodeIndex}
    (listed : target ∈ procedure.successorsOf source) (index : NodeIndex) :
    (procedure.link source target).successorsOf index = procedure.successorsOf index := by
  by_cases same : index = source
  · subst same
    obtain ⟨node, found⟩ := node?_isSome.mpr (lt_size_of_mem_successorsOf listed)
    rw [successorsOf, found] at listed
    refine successorsOf_congr ?_
    rw [link, node?_modifyNode_self, found, Option.map_some, if_pos]
    exact List.contains_iff_mem.mpr listed
  · exact successorsOf_link_of_ne _ same

/-- Every edge after a link is an old one or the new one. -/
theorem mem_successorsOf_link {procedure : Procedure} {source target index next : NodeIndex}
    (edge : next ∈ (procedure.link source target).successorsOf index) :
    next ∈ procedure.successorsOf index ∨ (index = source ∧ next = target) := by
  by_cases same : index = source
  · subst same
    have known := lt_size_of_mem_successorsOf edge
    rw [size_link] at known
    by_cases listed : target ∈ procedure.successorsOf index
    · rw [successorsOf_link_of_mem listed] at edge
      exact .inl edge
    · rw [successorsOf_link_self known listed, List.mem_append, List.mem_singleton] at edge
      exact edge.imp (fun old => old) fun new => ⟨rfl, new⟩
  · rw [successorsOf_link_of_ne _ same] at edge
    exact .inl edge

theorem exceptionsOf_setException_self {procedure : Procedure} {source : NodeIndex}
    (known : source < procedure.size) (target : NodeIndex) :
    (procedure.setException source target).exceptionsOf source = [target] := by
  obtain ⟨node, found⟩ := node?_isSome.mpr known
  rw [exceptionsOf, node?_setException_self found]
  rfl

theorem commandsOf_append_self {procedure : Procedure} {index : NodeIndex}
    (known : index < procedure.size) (commands : List Command) :
    (procedure.append index commands).commandsOf index =
      procedure.commandsOf index ++ commands := by
  obtain ⟨node, found⟩ := node?_isSome.mpr known
  rw [commandsOf, commandsOf, node?_append_self found, found]
  rfl

theorem commandsOf_append_of_ne (procedure : Procedure) {index other : NodeIndex}
    (commands : List Command) (distinct : other ≠ index) :
    (procedure.append index commands).commandsOf other = procedure.commandsOf other :=
  commandsOf_congr (node?_append_of_ne _ _ distinct)

/-! ### Forks -/

/-- Add a node together with its two ways out, which follow it in the array. -/
def addFork (procedure : Procedure) (entry taken notTaken : Node) : Procedure :=
  procedure
    |>.addNode entry
    |>.addNode taken
    |>.addNode notTaken
    |>.link procedure.size (procedure.size + 1)
    |>.link procedure.size (procedure.size + 2)

section Fork

variable (procedure : Procedure) (entry taken notTaken : Node)

theorem size_addFork :
    (procedure.addFork entry taken notTaken).size = procedure.size + 3 := by
  unfold addFork
  simp only [size_link, size_addNode]

theorem node?_addFork_of_ne {index : NodeIndex} (other : index ≠ procedure.size) :
    (procedure.addFork entry taken notTaken).node? index =
      (((procedure.addNode entry).addNode taken).addNode notTaken).node? index := by
  unfold addFork
  rw [node?_link_of_ne _ other, node?_link_of_ne _ other]

theorem node?_addFork_of_lt {index : NodeIndex} (old : index < procedure.size) :
    (procedure.addFork entry taken notTaken).node? index = procedure.node? index := by
  rw [node?_addFork_of_ne _ _ _ _ (Nat.ne_of_lt old), node?_addNode_of_ne, node?_addNode_of_ne,
    node?_addNode_of_ne _ _ (Nat.ne_of_lt old)]
  · rw [size_addNode]
    exact Nat.ne_of_lt (Nat.lt_succ_of_lt old)
  · rw [size_addNode, size_addNode]
    exact Nat.ne_of_lt (Nat.lt_add_right 2 old)

theorem node?_addFork_taken :
    (procedure.addFork entry taken notTaken).node? (procedure.size + 1) = some taken := by
  have second : (procedure.addNode entry).size = procedure.size + 1 := size_addNode ..
  have other : procedure.size + 1 ≠ procedure.size := Nat.succ_ne_self _
  rw [node?_addFork_of_ne _ _ _ _ other, node?_addNode_of_ne, ← second, node?_addNode_self]
  rw [size_addNode, second]
  exact Nat.ne_of_lt (Nat.lt_succ_self _)

theorem node?_addFork_notTaken :
    (procedure.addFork entry taken notTaken).node? (procedure.size + 2) = some notTaken := by
  have third : ((procedure.addNode entry).addNode taken).size = procedure.size + 2 := by
    rw [size_addNode, size_addNode]
  rw [node?_addFork_of_ne _ _ _ _ (Nat.ne_of_gt (Nat.lt_add_of_pos_right (by decide))), ← third,
    node?_addNode_self]

theorem node?_addFork_entry (closed : entry.successors = []) :
    (procedure.addFork entry taken notTaken).node? procedure.size =
      some { entry with successors := [procedure.size + 1, procedure.size + 2] } := by
  have added : (((procedure.addNode entry).addNode taken).addNode notTaken).node? procedure.size =
      some entry := by
    rw [node?_addNode_of_ne, node?_addNode_of_ne, node?_addNode_self]
    · rw [size_addNode]
      exact Nat.ne_of_lt (Nat.lt_succ_self _)
    · rw [size_addNode, size_addNode]
      exact Nat.ne_of_lt (Nat.lt_add_of_pos_right Nat.two_pos)
  have takenFresh : procedure.size + 1 ∉ entry.successors := by simp [closed]
  have linked := node?_link_self added takenFresh
  rw [closed] at linked
  have notTakenFresh : procedure.size + 2 ∉ [] ++ [procedure.size + 1] := by simp
  exact node?_link_self linked notTakenFresh

end Fork

end Procedure

end BytecodeFlow

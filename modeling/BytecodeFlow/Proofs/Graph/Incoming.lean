/-
This file says what the incoming edges of a finished procedure are. The
`visitOrder` lists every node once, whatever the shape of the graph, and each
node on it enters itself at the targets of its edges. So incoming and outgoing
edges are dual to each other, edge for edge, and finishing once more changes
nothing, not even an order.
-/

import Mathlib.Data.List.Nodup
import Mathlib.Logic.Function.Iterate
import BytecodeFlow.Proofs.Graph.Finishing

namespace BytecodeFlow

/-- A node with sources added to its incoming edges. -/
def Node.enter (node : Node) (sources exceptionSources : List NodeIndex) : Node :=
  { node with
    predecessors := node.predecessors ++ sources
    exceptionPredecessors := node.exceptionPredecessors ++ exceptionSources }

namespace Procedure

def predecessorsOf (procedure : Procedure) (index : NodeIndex) : List NodeIndex :=
  ((procedure.node? index).map Node.predecessors).getD []

def exceptionPredecessorsOf (procedure : Procedure) (index : NodeIndex) : List NodeIndex :=
  ((procedure.node? index).map Node.exceptionPredecessors).getD []

/-! ### The visiting order -/

theorem mem_extendOrder {order : Array NodeIndex} {indices : List NodeIndex} {index : NodeIndex} :
    index ∈ (extendOrder order indices).toList ↔ index ∈ order.toList ∨ index ∈ indices := by
  unfold extendOrder
  induction indices generalizing order with
  | nil => simp
  | cons first rest inductionHypothesis =>
    rw [List.foldl_cons, inductionHypothesis]
    by_cases known : first ∈ order
    · simp only [Array.contains_eq_mem, known, decide_true, if_true, List.mem_cons]
      constructor
      · exact fun member => member.imp_right .inr
      · rintro (old | rfl | new)
        · exact .inl old
        · exact .inl (Array.mem_toList_iff.mpr known)
        · exact .inr new
    · simp [known, or_assoc]

theorem nodup_extendOrder {order : Array NodeIndex} (distinct : order.toList.Nodup)
    (indices : List NodeIndex) : (extendOrder order indices).toList.Nodup := by
  unfold extendOrder
  induction indices generalizing order with
  | nil => exact distinct
  | cons first rest inductionHypothesis =>
    rw [List.foldl_cons]
    refine inductionHypothesis ?_
    by_cases known : first ∈ order
    · simpa [known] using distinct
    · simp only [Array.contains_eq_mem, known, decide_false, Bool.false_eq_true, if_false,
        Array.toList_push]
      refine List.nodup_append.mpr ⟨distinct, List.nodup_singleton first, ?_⟩
      rintro old member _ last rfl
      rw [List.mem_singleton.mp last] at member
      exact known (Array.mem_toList_iff.mp member)

/-- `reachableOrder` visits no node twice. -/
theorem nodup_reachableOrder (procedure : Procedure) :
    procedure.reachableOrder.toList.Nodup := by
  unfold reachableOrder
  refine List.foldlRecOn (motive := fun order : Array NodeIndex => order.toList.Nodup) _ _
    (List.nodup_singleton start) fun order distinct turn _ => ?_
  split
  · exact nodup_extendOrder distinct _
  · exact distinct

theorem nodup_visitOrder (procedure : Procedure) : procedure.visitOrder.Nodup :=
  nodup_extendOrder (nodup_reachableOrder procedure) _

/-- Every node is in `visitOrder`, also one that the start does not lead to. -/
theorem mem_visitOrder {procedure : Procedure} {index : NodeIndex}
    (known : index < procedure.size) : index ∈ procedure.visitOrder :=
  mem_extendOrder.mpr (.inr (List.mem_range.mpr known))

/-! ### Entering predecessors -/

/-- The sources of the edges to a node in the order of their visit, each as often as an edge leads
from it to the node. -/
def sourcesOf (order : List NodeIndex) (targets : NodeIndex → List NodeIndex)
    (index : NodeIndex) : List NodeIndex :=
  order.flatMap fun source => List.replicate ((targets source).count index) source

theorem count_sourcesOf {order : List NodeIndex} (distinct : order.Nodup)
    (targets : NodeIndex → List NodeIndex) (index source : NodeIndex) :
    (sourcesOf order targets index).count source =
      if source ∈ order then (targets source).count index else 0 := by
  unfold sourcesOf
  induction order with
  | nil => rfl
  | cons first rest inductionHypothesis =>
    obtain ⟨new, distinct⟩ := List.nodup_cons.mp distinct
    rw [List.flatMap_cons, List.count_append, inductionHypothesis distinct, List.count_replicate]
    by_cases same : source = first
    · subst same
      simp [new]
    · simp [same, Ne.symm same]

/-- A node is changed as often as it is among the targets. -/
theorem getElem?_foldl_modify (change : Node → Node) (targets : List NodeIndex)
    (nodes : Array Node) (index : NodeIndex) :
    (targets.foldl (fun nodes target => nodes.modify target change) nodes)[index]? =
      nodes[index]?.map change^[targets.count index] := by
  induction targets generalizing nodes with
  | nil => simp
  | cons first rest inductionHypothesis =>
    rw [List.foldl_cons, inductionHypothesis, Array.getElem?_modify]
    by_cases same : first = index
    · subst same
      rw [if_pos rfl, Option.map_map, List.count_cons_self, Function.iterate_succ]
    · rw [if_neg same, List.count_cons_of_ne same]

theorem iterate_predecessors (source : NodeIndex) (count : Nat) (node : Node) :
    (fun target : Node => { target with predecessors := target.predecessors ++ [source] })^[count]
      node = node.enter (List.replicate count source) [] := by
  induction count generalizing node with
  | zero => simp [Node.enter]
  | succ count inductionHypothesis =>
    rw [Function.iterate_succ_apply, inductionHypothesis]
    simp [Node.enter, List.replicate_succ]

theorem iterate_exceptionPredecessors (source : NodeIndex) (count : Nat) (node : Node) :
    (fun target : Node => { target with
        exceptionPredecessors := target.exceptionPredecessors ++ [source] })^[count] node =
      node.enter [] (List.replicate count source) := by
  induction count generalizing node with
  | zero => simp [Node.enter]
  | succ count inductionHypothesis =>
    rw [Function.iterate_succ_apply, inductionHypothesis]
    simp [Node.enter, List.replicate_succ]

/-- A source enters itself at a node once for each of its edges to the node. -/
theorem node?_enterPredecessor (procedure : Procedure) (source index : NodeIndex) :
    node? { procedure with nodes := enterPredecessor procedure.nodes source } index =
      (procedure.node? index).map
        (·.enter (List.replicate ((procedure.successorsOf source).count index) source)
          (List.replicate ((procedure.exceptionsOf source).count index) source)) := by
  unfold enterPredecessor successorsOf exceptionsOf node?
  cases found : procedure.nodes[source]? with
  | none => simp [Node.enter]
  | some node =>
    dsimp only
    rw [getElem?_foldl_modify, getElem?_foldl_modify, Option.map_map]
    refine congrArg (Option.map · _) (funext fun target => ?_)
    rw [Function.comp_apply, iterate_predecessors, iterate_exceptionPredecessors]
    simp [Node.enter]

/-- The sources of an order enter themselves one after the other. Their outgoing edges are the
same at each turn, since entering a source changes incoming edges only. -/
theorem node?_foldl_enterPredecessor (order : List NodeIndex) (procedure : Procedure)
    (index : NodeIndex) :
    node? { procedure with nodes := order.foldl enterPredecessor procedure.nodes } index =
      (procedure.node? index).map
        (·.enter (sourcesOf order procedure.successorsOf index)
          (sourcesOf order procedure.exceptionsOf index)) := by
  induction order generalizing procedure with
  | nil => simp [sourcesOf, Node.enter]
  | cons source rest inductionHypothesis =>
    let entered : Procedure :=
      { procedure with nodes := enterPredecessor procedure.nodes source }
    have views : ∀ other, (entered.node? other).map Node.outgoing =
        (procedure.node? other).map Node.outgoing :=
      enterPredecessor_outgoing procedure.nodes source
    have successors : entered.successorsOf = procedure.successorsOf :=
      funext fun other => congrArg (Option.getD · [])
        (map_of_outgoing Node.successors (fun _ => rfl) (views other))
    have exceptions : entered.exceptionsOf = procedure.exceptionsOf :=
      funext fun other => congrArg (Option.getD · [])
        (map_of_outgoing Node.exceptions (fun _ => rfl) (views other))
    rw [List.foldl_cons]
    refine (inductionHypothesis entered).trans ?_
    rw [successors, exceptions, node?_enterPredecessor, Option.map_map]
    refine congrArg (Option.map · _) (funext fun node => ?_)
    simp [Node.enter, sourcesOf]

/-- What `computePredecessors` makes of the incoming edges: the `sourcesOf` a node. -/
theorem node?_computePredecessors (procedure : Procedure) (index : NodeIndex) :
    procedure.computePredecessors.node? index =
      (procedure.node? index).map
        (·.outgoing.enter (sourcesOf procedure.visitOrder procedure.successorsOf index)
          (sourcesOf procedure.visitOrder procedure.exceptionsOf index)) := by
  let cleared : Procedure := { procedure with nodes := procedure.nodes.map Node.outgoing }
  have found : ∀ other, cleared.node? other = (procedure.node? other).map Node.outgoing :=
    fun _ => Array.getElem?_map ..
  have successors : cleared.successorsOf = procedure.successorsOf := by
    funext other
    rw [successorsOf, successorsOf, found, Option.map_map]
    rfl
  have exceptions : cleared.exceptionsOf = procedure.exceptionsOf := by
    funext other
    rw [exceptionsOf, exceptionsOf, found, Option.map_map]
    rfl
  refine (node?_foldl_enterPredecessor procedure.visitOrder cleared index).trans ?_
  rw [successors, exceptions, found, Option.map_map]
  rfl

theorem successorsOf_computePredecessors (procedure : Procedure) :
    procedure.computePredecessors.successorsOf = procedure.successorsOf :=
  funext fun index => congrArg (Option.getD · [])
    (map_of_outgoing Node.successors (fun _ => rfl) (computePredecessors_outgoing procedure index))

theorem exceptionsOf_computePredecessors (procedure : Procedure) :
    procedure.computePredecessors.exceptionsOf = procedure.exceptionsOf :=
  funext fun index => congrArg (Option.getD · [])
    (map_of_outgoing Node.exceptions (fun _ => rfl) (computePredecessors_outgoing procedure index))

/-- Over the whole visiting order no edge is missed: where there is no node, there are no edges. -/
theorem count_sourcesOf_visitOrder (procedure : Procedure)
    {targets : NodeIndex → List NodeIndex}
    (bounded : ∀ source, procedure.size ≤ source → targets source = [])
    (index source : NodeIndex) :
    (sourcesOf procedure.visitOrder targets index).count source =
      (targets source).count index := by
  rw [count_sourcesOf (nodup_visitOrder procedure)]
  split
  · rfl
  next unvisited =>
    have beyond := Nat.le_of_not_lt fun known => unvisited (mem_visitOrder known)
    rw [bounded source beyond, List.count_nil]

theorem count_predecessorsOf {procedure : Procedure} {index : NodeIndex}
    (known : index < procedure.size) (source : NodeIndex) :
    (procedure.computePredecessors.predecessorsOf index).count source =
      (procedure.successorsOf source).count index := by
  obtain ⟨node, found⟩ := node?_isSome.mpr known
  rw [predecessorsOf, node?_computePredecessors, found]
  exact count_sourcesOf_visitOrder procedure (fun _ => successorsOf_of_size_le) index source

theorem count_exceptionPredecessorsOf {procedure : Procedure} {index : NodeIndex}
    (known : index < procedure.size) (source : NodeIndex) :
    (procedure.computePredecessors.exceptionPredecessorsOf index).count source =
      (procedure.exceptionsOf source).count index := by
  obtain ⟨node, found⟩ := node?_isSome.mpr known
  rw [exceptionPredecessorsOf, node?_computePredecessors, found]
  exact count_sourcesOf_visitOrder procedure (fun _ => exceptionsOf_of_size_le) index source

/-! ### Finishing twice -/

theorem neighbours_eq (procedure : Procedure) (index : NodeIndex) :
    procedure.neighbours index = procedure.successorsOf index ++ procedure.exceptionsOf index := by
  unfold neighbours successorsOf exceptionsOf node?
  cases procedure.nodes[index]? <;> rfl

theorem size_computePredecessors (procedure : Procedure) :
    procedure.computePredecessors.size = procedure.size := by
  have same : ∀ index,
      procedure.computePredecessors.node? index = none ↔ procedure.node? index = none := by
    intro index
    rw [node?_computePredecessors, Option.map_eq_none_iff]
  exact Nat.le_antisymm (node?_eq_none.mp ((same _).mpr (node?_eq_none.mpr (Nat.le_refl _))))
    (node?_eq_none.mp ((same _).mp (node?_eq_none.mpr (Nat.le_refl _))))

/-- `visitOrder` does not depend on incoming edges. -/
theorem visitOrder_computePredecessors (procedure : Procedure) :
    procedure.computePredecessors.visitOrder = procedure.visitOrder := by
  have size : procedure.computePredecessors.nodes.size = procedure.nodes.size :=
    size_computePredecessors procedure
  have neighbours : procedure.computePredecessors.neighbours = procedure.neighbours := by
    funext index
    rw [neighbours_eq, neighbours_eq, successorsOf_computePredecessors,
      exceptionsOf_computePredecessors]
  rw [visitOrder, visitOrder, reachableOrder, reachableOrder, size, neighbours]

theorem computePredecessors_idem (procedure : Procedure) :
    procedure.computePredecessors.computePredecessors = procedure.computePredecessors := by
  refine ext_of_node? rfl rfl rfl (fun index => ?_) rfl
  rw [node?_computePredecessors, visitOrder_computePredecessors, successorsOf_computePredecessors,
    exceptionsOf_computePredecessors, node?_computePredecessors, Option.map_map]
  rfl

theorem finishedSuccessors_idem (index : NodeIndex) (successors : List NodeIndex) :
    finishedSuccessors index (finishedSuccessors index successors) =
      finishedSuccessors index successors := by
  unfold finishedSuccessors
  split
  · simp
  · rfl

theorem finishedExceptions_idem (index : NodeIndex) (exceptions : List NodeIndex) :
    finishedExceptions index (finishedExceptions index exceptions) =
      finishedExceptions index exceptions := by
  unfold finishedExceptions
  split_ifs <;> simp_all

/-- Connecting the sink again goes astray where it went astray before, if there is no sink. -/
theorem stray_completeExceptions_finish (procedure : Procedure) :
    procedure.finish.completeExceptions.stray = procedure.finish.stray := by
  have once : procedure.finish.stray =
      if sink < procedure.size then procedure.stray else some sink :=
    stray_completeExceptions procedure
  rw [stray_completeExceptions, size_finish, once]
  split
  · rfl
  · rfl

/-- `completeExceptions` leaves a procedure as it is after `finish`. -/
theorem completeExceptions_finish (procedure : Procedure) :
    procedure.finish.completeExceptions = procedure.finish := by
  refine ext_of_node? rfl rfl rfl (fun index => ?_) (stray_completeExceptions_finish procedure)
  rw [completeExceptions_node?]
  cases found : procedure.finish.node? index with
  | none => rfl
  | some node =>
    have successors := map_finish Node.successors (fun _ => rfl) procedure index
    have exceptions := map_finish Node.exceptions (fun _ => rfl) procedure index
    rw [found, Option.map_some] at successors exceptions
    obtain ⟨_, -, successors⟩ := Option.map_eq_some_iff.mp successors.symm
    obtain ⟨_, -, exceptions⟩ := Option.map_eq_some_iff.mp exceptions.symm
    have sameSuccessors : finishedSuccessors index node.successors = node.successors := by
      rw [← successors]
      exact finishedSuccessors_idem ..
    have sameExceptions : finishedExceptions index node.exceptions = node.exceptions := by
      rw [← exceptions]
      exact finishedExceptions_idem ..
    rw [Option.map_some, sameSuccessors, sameExceptions]

theorem finish_idem (procedure : Procedure) : procedure.finish.finish = procedure.finish :=
  calc procedure.finish.finish
      = procedure.finish.computePredecessors := by
        rw [finish, completeExceptions_finish]
    _ = procedure.finish := computePredecessors_idem _

/-! ### Assembled procedures -/

/-- A procedure that is built step by step from `begin`. Edges are added between nodes that exist,
and it may have been finished in between. -/
inductive Assembled : Procedure → Prop
  | begin (id : Nat) (signature : Signature) (firstNodeId : Nat) :
    Assembled (begin id signature firstNodeId)
  | addNode {procedure : Procedure} (kind : NodeKind) (location : Location)
      (blockEnd : Option Offset) (commands : List Command) (assembled : Assembled procedure) :
    Assembled (procedure.addNode { Node.empty kind location with blockEnd, commands })
  | append {procedure : Procedure} (index : NodeIndex) (commands : List Command)
      (assembled : Assembled procedure) : Assembled (procedure.append index commands)
  | link {procedure : Procedure} {source target : NodeIndex} (assembled : Assembled procedure)
      (sourceKnown : source < procedure.size) (targetKnown : target < procedure.size) :
    Assembled (procedure.link source target)
  | setException {procedure : Procedure} {source target : NodeIndex}
      (assembled : Assembled procedure) (sourceKnown : source < procedure.size)
      (targetKnown : target < procedure.size) :
    Assembled (procedure.setException source target)
  | finish {procedure : Procedure} (assembled : Assembled procedure) :
    Assembled procedure.finish

/-- What holds of the outgoing edges of an `Assembled` procedure, finished or not. -/
structure Linked (procedure : Procedure) : Prop where
  sink_lt : sink < procedure.size
  distinct : ∀ index, (procedure.successorsOf index).Nodup
  successors_lt : ∀ index, ∀ target ∈ procedure.successorsOf index, target < procedure.size
  exceptions_lt : ∀ index, ∀ target ∈ procedure.exceptionsOf index, target < procedure.size
  atMostOne : ∀ index, (procedure.exceptionsOf index).length ≤ 1

theorem nodup_finishedSuccessors (index : NodeIndex) {successors : List NodeIndex}
    (distinct : successors.Nodup) : (finishedSuccessors index successors).Nodup := by
  unfold finishedSuccessors
  split
  next missing =>
    exact List.nodup_append.mpr ⟨distinct, List.nodup_singleton exit,
      fun old member new last same => missing.2 (List.mem_singleton.mp last ▸ same ▸ member)⟩
  · exact distinct

theorem exit_mem_finishedSuccessors (successors : List NodeIndex) :
    exit ∈ finishedSuccessors sink successors := by
  by_cases listed : exit ∈ successors <;> simp [finishedSuccessors, listed]

theorem length_finishedExceptions (index : NodeIndex) {exceptions : List NodeIndex}
    (atMostOne : exceptions.length ≤ 1) : (finishedExceptions index exceptions).length ≤ 1 := by
  unfold finishedExceptions
  split_ifs <;> simp [atMostOne]

theorem finishedExceptions_ne_nil {index : NodeIndex} {exceptions : List NodeIndex}
    (other : index ∉ [start, exit, sink]) : finishedExceptions index exceptions ≠ [] := by
  unfold finishedExceptions
  split_ifs <;> simp_all

namespace Linked

variable {procedure : Procedure}

/-- A `Linked` procedure stays so with new nodes and commands while the edges are the same. -/
theorem of_edges {other : Procedure} (linked : procedure.Linked)
    (size : procedure.size ≤ other.size)
    (successors : ∀ index, other.successorsOf index = procedure.successorsOf index)
    (exceptions : ∀ index, other.exceptionsOf index = procedure.exceptionsOf index) :
    other.Linked where
  sink_lt := Nat.lt_of_lt_of_le linked.sink_lt size
  distinct index := successors index ▸ linked.distinct index
  successors_lt index target edge := by
    rw [successors] at edge
    exact Nat.lt_of_lt_of_le (linked.successors_lt index target edge) size
  exceptions_lt index target edge := by
    rw [exceptions] at edge
    exact Nat.lt_of_lt_of_le (linked.exceptions_lt index target edge) size
  atMostOne index := exceptions index ▸ linked.atMostOne index

theorem begin (id : Nat) (signature : Signature) (firstNodeId : Nat) :
    (Procedure.begin id signature firstNodeId).Linked where
  sink_lt := Nat.lt_succ_self 2
  distinct index := by
    rw [successorsOf_begin]
    exact List.nodup_nil
  successors_lt index target edge := by
    rw [successorsOf_begin] at edge
    cases edge
  exceptions_lt index target edge := by
    rw [exceptionsOf_begin] at edge
    cases edge
  atMostOne index := by
    rw [exceptionsOf_begin]
    exact Nat.zero_le 1

theorem link (linked : procedure.Linked) {source target : NodeIndex}
    (sourceKnown : source < procedure.size) (targetKnown : target < procedure.size) :
    (procedure.link source target).Linked where
  sink_lt := by
    rw [size_link]
    exact linked.sink_lt
  distinct index := by
    by_cases listed : target ∈ procedure.successorsOf source
    · rw [successorsOf_link_of_mem listed]
      exact linked.distinct index
    by_cases same : index = source
    · subst same
      rw [successorsOf_link_self sourceKnown listed]
      exact List.nodup_append.mpr ⟨linked.distinct index, List.nodup_singleton target,
        fun old member new last same => listed (List.mem_singleton.mp last ▸ same ▸ member)⟩
    · rw [successorsOf_link_of_ne _ same]
      exact linked.distinct index
  successors_lt index next edge := by
    rw [size_link]
    rcases mem_successorsOf_link edge with old | ⟨-, rfl⟩
    · exact linked.successors_lt index next old
    · exact targetKnown
  exceptions_lt index next edge := by
    rw [size_link]
    rw [exceptionsOf_link] at edge
    exact linked.exceptions_lt index next edge
  atMostOne index := by
    rw [exceptionsOf_link]
    exact linked.atMostOne index

theorem setException (linked : procedure.Linked) {source target : NodeIndex}
    (sourceKnown : source < procedure.size) (targetKnown : target < procedure.size) :
    (procedure.setException source target).Linked where
  sink_lt := by
    rw [size_setException]
    exact linked.sink_lt
  distinct index := by
    rw [successorsOf_setException]
    exact linked.distinct index
  successors_lt index next edge := by
    rw [successorsOf_setException] at edge
    rw [size_setException]
    exact linked.successors_lt index next edge
  exceptions_lt index next edge := by
    rw [size_setException]
    by_cases same : index = source
    · subst same
      rw [exceptionsOf_setException_self sourceKnown, List.mem_singleton] at edge
      exact edge ▸ targetKnown
    · rw [exceptionsOf_congr (node?_setException_of_ne _ same)] at edge
      exact linked.exceptions_lt index next edge
  atMostOne index := by
    by_cases same : index = source
    · subst same
      rw [exceptionsOf_setException_self sourceKnown]
      exact Nat.le_refl 1
    · rw [exceptionsOf_congr (node?_setException_of_ne _ same)]
      exact linked.atMostOne index

theorem finish (linked : procedure.Linked) : procedure.finish.Linked where
  sink_lt := by
    rw [size_finish]
    exact linked.sink_lt
  distinct index := by
    by_cases known : index < procedure.size
    · rw [successorsOf_finish known]
      exact nodup_finishedSuccessors index (linked.distinct index)
    · rw [successorsOf_of_size_le (by rw [size_finish]; exact Nat.le_of_not_lt known)]
      exact List.nodup_nil
  successors_lt index target edge := by
    have known := lt_size_of_mem_successorsOf edge
    rw [size_finish] at known ⊢
    rw [successorsOf_finish known] at edge
    rcases mem_finishedSuccessors edge with old | rfl
    · exact linked.successors_lt index target old
    · exact Nat.lt_trans (Nat.lt_succ_self 1) linked.sink_lt
  exceptions_lt index target edge := by
    have known := lt_size_of_mem_exceptionsOf edge
    rw [size_finish] at known ⊢
    rw [exceptionsOf_finish known] at edge
    rcases mem_finishedExceptions edge with old | rfl | rfl
    · exact linked.exceptions_lt index target old
    · exact Nat.lt_trans (Nat.lt_succ_self 1) linked.sink_lt
    · exact linked.sink_lt
  atMostOne index := by
    by_cases known : index < procedure.size
    · rw [exceptionsOf_finish known]
      exact length_finishedExceptions index (linked.atMostOne index)
    · rw [exceptionsOf_of_size_le (by rw [size_finish]; exact Nat.le_of_not_lt known)]
      exact Nat.zero_le 1

end Linked

theorem Assembled.linked {procedure : Procedure} (assembled : procedure.Assembled) :
    procedure.Linked := by
  induction assembled with
  | begin id signature firstNodeId => exact .begin id signature firstNodeId
  | addNode kind location blockEnd commands assembled inductionHypothesis =>
    refine inductionHypothesis.of_edges ?_ (successorsOf_addNode _ rfl) (exceptionsOf_addNode _ rfl)
    rw [size_addNode]
    exact Nat.le_succ _
  | append index commands assembled inductionHypothesis =>
    exact inductionHypothesis.of_edges (Nat.le_of_eq (size_append ..).symm)
      (successorsOf_append _ index · commands) (exceptionsOf_append _ index · commands)
  | link assembled sourceKnown targetKnown inductionHypothesis =>
    exact inductionHypothesis.link sourceKnown targetKnown
  | setException assembled sourceKnown targetKnown inductionHypothesis =>
    exact inductionHypothesis.setException sourceKnown targetKnown
  | finish assembled inductionHypothesis => exact inductionHypothesis.finish

/-! ### The edges of a finished procedure -/

/-- Incoming edges mirror the outgoing ones, exceptions of every node go somewhere, and `finish`
changes nothing any more. -/
structure Finished (procedure : Procedure) : Prop where
  dual : ∀ source target, (procedure.predecessorsOf target).count source =
    (procedure.successorsOf source).count target
  once : ∀ source target, (procedure.successorsOf source).count target ≤ 1
  exceptionsDual : ∀ source target, (procedure.exceptionPredecessorsOf target).count source =
    (procedure.exceptionsOf source).count target
  total : ∀ index < procedure.size, index ∉ [start, exit, sink] →
    ∃ handler < procedure.size, procedure.exceptionsOf index = [handler]
  start_exceptions : procedure.exceptionsOf start = [exit]
  exit_exceptions : procedure.exceptionsOf exit = []
  sink_exceptions : procedure.exceptionsOf sink = [exit]
  sink_successors : exit ∈ procedure.successorsOf sink
  settled : procedure.finish = procedure

section Dual

variable {procedure : Procedure} (linked : procedure.Linked)

include linked

/-- An edge is counted alike at its two ends. Where the target is no node there is no edge to count,
since all edges lead to nodes. -/
theorem finish_dual (source target : NodeIndex) :
    (procedure.finish.predecessorsOf target).count source =
      (procedure.finish.successorsOf source).count target := by
  have same := successorsOf_computePredecessors procedure.completeExceptions
  by_cases known : target < procedure.completeExceptions.size
  · rw [finish, count_predecessorsOf known, same]
  · have beyond : procedure.finish.size ≤ target := by
      rw [finish, size_computePredecessors]
      exact Nat.le_of_not_lt known
    have absent : target ∉ procedure.finish.successorsOf source := fun edge =>
      Nat.not_lt.mpr beyond (linked.finish.successors_lt source target edge)
    rw [List.count_eq_zero_of_not_mem absent, predecessorsOf, node?_eq_none.mpr beyond]
    rfl

theorem finish_exceptionsDual (source target : NodeIndex) :
    (procedure.finish.exceptionPredecessorsOf target).count source =
      (procedure.finish.exceptionsOf source).count target := by
  have same := exceptionsOf_computePredecessors procedure.completeExceptions
  by_cases known : target < procedure.completeExceptions.size
  · rw [finish, count_exceptionPredecessorsOf known, same]
  · have beyond : procedure.finish.size ≤ target := by
      rw [finish, size_computePredecessors]
      exact Nat.le_of_not_lt known
    have absent : target ∉ procedure.finish.exceptionsOf source := fun edge =>
      Nat.not_lt.mpr beyond (linked.finish.exceptions_lt source target edge)
    rw [List.count_eq_zero_of_not_mem absent, exceptionPredecessorsOf, node?_eq_none.mpr beyond]
    rfl

theorem finish_total {index : NodeIndex} (known : index < procedure.finish.size)
    (other : index ∉ [start, exit, sink]) :
    ∃ handler < procedure.finish.size, procedure.finish.exceptionsOf index = [handler] := by
  have atMostOne := linked.finish.atMostOne index
  have within := linked.finish.exceptions_lt index
  have handled : procedure.finish.exceptionsOf index ≠ [] := by
    rw [size_finish] at known
    rw [exceptionsOf_finish known]
    exact finishedExceptions_ne_nil other
  cases exceptions : procedure.finish.exceptionsOf index with
  | nil => exact absurd exceptions handled
  | cons handler rest =>
    rw [exceptions] at atMostOne within
    have alone : rest = [] :=
      List.eq_nil_of_length_eq_zero (Nat.le_zero.mp (Nat.le_of_succ_le_succ atMostOne))
    exact ⟨handler, within handler List.mem_cons_self, by rw [alone]⟩

end Dual

/-- However a procedure was built (`Assembled`), `finish` gives every edge its reverse, and every
exception exactly one way to go (`Finished`). -/
theorem finished_of_assembled {procedure : Procedure} (assembled : procedure.Assembled) :
    procedure.finish.Finished := by
  have linked := assembled.linked
  have exitKnown : exit < procedure.size := Nat.lt_trans (Nat.lt_succ_self 1) linked.sink_lt
  have startKnown : start < procedure.size := Nat.lt_trans Nat.zero_lt_one exitKnown
  exact {
    dual := finish_dual linked
    once := fun source => List.nodup_iff_count_le_one.mp (linked.finish.distinct source)
    exceptionsDual := finish_exceptionsDual linked
    total := fun index known other => finish_total linked known other
    start_exceptions := exceptionsOf_finish startKnown
    exit_exceptions := exceptionsOf_finish exitKnown
    sink_exceptions := exceptionsOf_finish linked.sink_lt
    sink_successors := by
      rw [successorsOf_finish linked.sink_lt]
      exact exit_mem_finishedSuccessors _
    settled := finish_idem procedure }

/-- A node that loops and one that the start does not lead to, with exceptions of the start that
`finish` takes back. -/
def looping : Procedure :=
  begin 0 ⟨"looping", [], [], .void, ⟨none, ""⟩⟩ 0
    |>.addNode (.empty .join ⟨none, ""⟩)
    |>.addNode (.empty .statement ⟨none, ""⟩)
    |>.link start 3
    |>.link 3 3
    |>.setException start 4

/-- The procedure `looping`, finished and then built on: it gets a handler, and edges out of the
exit. -/
def reopened : Procedure :=
  looping.finish
    |>.addNode (.empty .handler ⟨none, ""⟩)
    |>.link 4 3
    |>.link exit 3
    |>.setException exit 3
    |>.setException 3 5

theorem looping_assembled : looping.Assembled := by
  refine .setException (.link (.link (.addNode _ _ none [] (.addNode _ _ none [] (.begin ..)))
    ?_ ?_) ?_ ?_) ?_ ?_ <;> decide

theorem reopened_assembled : reopened.Assembled := by
  refine .setException (.setException (.link (.link (.addNode _ _ none [] looping_assembled.finish)
    ?_ ?_) ?_ ?_) ?_ ?_) ?_ ?_ <;> decide +kernel

theorem reopened_finished : reopened.Assembled ∧ reopened.finish.Finished :=
  ⟨reopened_assembled, finished_of_assembled reopened_assembled⟩

end Procedure

end BytecodeFlow

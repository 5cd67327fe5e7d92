/-
This file says when the temporaries of a procedure are assigned before they are
used (`Defined`). `Reaches` follows the paths through a procedure with the
temporaries that were assigned on the way; an exception may come before
anything of its node is done, so on an exceptional edge nothing of the node
counts. It is enough to give each node a demand, which the ways to the node
have to meet (`Meets`).
-/

import BytecodeFlow.Proofs.Graph.Finishing
import BytecodeFlow.Proofs.Graph.Growth

namespace BytecodeFlow

/-! ### Reading and assigning temporaries -/

/-- The temporaries in an expression. -/
def Expr.idents : Expr → List Ident
  | .var ident => [ident]
  | .address _ => []
  | .field base _ _ => base.idents
  | .const _ => []
  | .binary _ left right => left.idents ++ right.idents
  | .unary _ operand => operand.idents
  | .thrown value => value.idents
  | .sizeOf _ => []

/-- The temporaries in the values of an operand stack or a list of arguments, as `Expr.idents` lists
them. -/
def identsOf (values : List Value) : List Ident := values.flatMap fun value => value.expr.idents

theorem identsOf_cons (value : Value) (values : List Value) :
    identsOf (value :: values) = value.expr.idents ++ identsOf values := List.flatMap_cons

theorem identsOf_subset {fewer more : List Value} (subset : fewer ⊆ more) :
    identsOf fewer ⊆ identsOf more := by
  intro ident member
  obtain ⟨value, listed, inside⟩ := List.mem_flatMap.mp member
  exact List.mem_flatMap.mpr ⟨value, subset listed, inside⟩

/-- The temporaries that a command reads. -/
def Command.reads : Command → List Ident
  | .load _ address _ _ => address.idents
  | .store address value _ _ => address.idents ++ value.idents
  | .prune condition _ _ _ => condition.idents
  | .call _ _ callee arguments _ _ => callee.idents ++ identsOf arguments

/-- The temporary that a command assigns, if it does. -/
def Command.assigns : Command → List Ident
  | .load result _ _ _ => [result]
  | .store _ _ _ _ => []
  | .prune _ _ _ _ => []
  | .call result _ _ _ _ _ => [result]

def assignedBy (commands : List Command) : List Ident := commands.flatMap Command.assigns

/-- Each command `reads` only temporaries that are known or that an earlier command `assigns`. -/
def Defined (known : List Ident) : List Command → Prop
  | [] => True
  | command :: rest => command.reads ⊆ known ∧ Defined (known ++ command.assigns) rest

instance decidableDefined (known : List Ident) :
    (commands : List Command) → Decidable (Defined known commands)
  | [] => .isTrue trivial
  | command :: rest =>
    haveI := decidableDefined (known ++ command.assigns) rest
    inferInstanceAs (Decidable (command.reads ⊆ known ∧ Defined (known ++ command.assigns) rest))

theorem assignedBy_append (first second : List Command) :
    assignedBy (first ++ second) = assignedBy first ++ assignedBy second := List.flatMap_append

theorem Defined.mono {fewer more : List Ident} (subset : fewer ⊆ more) {commands : List Command}
    (defined : Defined fewer commands) : Defined more commands := by
  induction commands generalizing fewer more with
  | nil => trivial
  | cons command rest inductionHypothesis =>
    obtain ⟨reads, later⟩ := defined
    refine ⟨fun ident read => subset (reads read), inductionHypothesis ?_ later⟩
    exact List.append_subset.mpr ⟨List.subset_append_of_subset_left _ subset,
      List.subset_append_right _ _⟩

theorem Defined.append {known : List Ident} {first second : List Command}
    (defined : Defined known first) (later : Defined (known ++ assignedBy first) second) :
    Defined known (first ++ second) := by
  induction first generalizing known with
  | nil =>
    rw [assignedBy, List.flatMap_nil, List.append_nil] at later
    exact later
  | cons command rest inductionHypothesis =>
    refine ⟨defined.1, inductionHypothesis defined.2 ?_⟩
    rw [List.append_assoc]
    exact later

theorem Defined.of_reads {known : List Ident} {commands : List Command}
    (reads : ∀ command ∈ commands, command.reads ⊆ known) : Defined known commands := by
  induction commands generalizing known with
  | nil => trivial
  | cons command rest inductionHypothesis =>
    obtain ⟨first, others⟩ := List.forall_mem_cons.mp reads
    exact ⟨first, inductionHypothesis fun other member =>
      List.subset_append_of_subset_left _ (others other member)⟩

/-- What `Defined` says of a single command. -/
theorem Defined.reads_subset {known : List Ident} {before after : List Command}
    {command : Command} (defined : Defined known (before ++ command :: after)) :
    command.reads ⊆ known ++ assignedBy before := by
  induction before generalizing known with
  | nil =>
    rw [assignedBy, List.flatMap_nil, List.append_nil]
    exact defined.1
  | cons first rest inductionHypothesis =>
    have reads := inductionHypothesis defined.2
    rw [List.append_assoc] at reads
    exact reads

namespace Procedure

/-! ### Paths -/

/-- A path leads from the start to a node, and the given temporaries are assigned on it before the
node. -/
inductive Reaches (procedure : Procedure) : NodeIndex → List Ident → Prop
  | start : Reaches procedure start []
  | onward {source target : NodeIndex} {assigned : List Ident}
    (path : Reaches procedure source assigned) (edge : target ∈ procedure.successorsOf source) :
    Reaches procedure target (assigned ++ assignedBy (procedure.commandsOf source))
  | exceptional {source target : NodeIndex} {assigned : List Ident}
    (path : Reaches procedure source assigned) (edge : target ∈ procedure.exceptionsOf source) :
    Reaches procedure target assigned

/-- The temporaries that are known after a node, if its demand is met: its demand and what its
commands assign, as in `assignedBy`. -/
def supplied (procedure : Procedure) (demand : NodeIndex → List Ident) (index : NodeIndex) :
    List Ident :=
  demand index ++ assignedBy (procedure.commandsOf index)

/-- The commands of each node are `Defined` by its demand, and what is `supplied` at the source of
an edge meets the demand at its target. -/
structure Meets (procedure : Procedure) (demand : NodeIndex → List Ident) : Prop where
  start_demand : demand start = []
  defined : ∀ index, Defined (demand index) (procedure.commandsOf index)
  onward : ∀ source, ∀ target ∈ procedure.successorsOf source,
    target < procedure.size ∧ demand target ⊆ procedure.supplied demand source
  exceptional : ∀ source, ∀ target ∈ procedure.exceptionsOf source,
    target < procedure.size ∧ demand target = []

theorem Meets.demand_subset {procedure : Procedure} {demand : NodeIndex → List Ident}
    (meets : procedure.Meets demand) {index : NodeIndex} {assigned : List Ident}
    (path : procedure.Reaches index assigned) : demand index ⊆ assigned := by
  induction path with
  | start =>
    rw [meets.start_demand]
    exact List.nil_subset _
  | onward _ edge inductionHypothesis =>
    refine List.Subset.trans (meets.onward _ _ edge).2 (List.append_subset.mpr ⟨?_, ?_⟩)
    · exact List.subset_append_of_subset_left _ inductionHypothesis
    · exact List.subset_append_right _ _
  | exceptional _ edge _ =>
    rw [(meets.exceptional _ _ edge).2]
    exact List.nil_subset _

/-- Where a procedure `Meets` some demand, what is assigned on a path that `Reaches` a node suffices
for its commands to be `Defined`. -/
theorem Meets.defined_on_path {procedure : Procedure} {demand : NodeIndex → List Ident}
    (meets : procedure.Meets demand) {index : NodeIndex} {assigned : List Ident}
    (path : procedure.Reaches index assigned) :
    Defined assigned (procedure.commandsOf index) :=
  (meets.defined index).mono (meets.demand_subset path)

namespace Meets

variable {procedure : Procedure} {demand : NodeIndex → List Ident}

/-! ### Building -/

/-- Without code nothing is demanded. -/
theorem begin (id : Nat) (signature : Signature) (firstNodeId : Nat) :
    (Procedure.begin id signature firstNodeId).Meets fun _ => [] where
  start_demand := rfl
  defined index := by
    rw [commandsOf_begin]
    trivial
  onward source target edge := by
    rw [successorsOf_begin] at edge
    cases edge
  exceptional source target edge := by
    rw [exceptionsOf_begin] at edge
    cases edge

/-- A new node may have any demand that it can do with. -/
theorem addNode (meets : procedure.Meets demand) (begun : start < procedure.size) {node : Node}
    {needed : List Ident} (closed : node.successors = []) (bare : node.exceptions = [])
    (defined : Defined needed node.commands) :
    (procedure.addNode node).Meets (Function.update demand procedure.size needed) := by
  have agree : ∀ {index}, index < procedure.size →
      Function.update demand procedure.size needed index = demand index :=
    fun old => Function.update_of_ne (Nat.ne_of_lt old) _ _
  have grown : ∀ {index}, index < procedure.size → index < (procedure.addNode node).size := by
    intro index old
    rw [size_addNode]
    exact Nat.lt_succ_of_lt old
  constructor
  · rw [agree begun]
    exact meets.start_demand
  · intro index
    by_cases new : index = procedure.size
    · rw [new, Function.update_self, commandsOf, node?_addNode_self]
      exact defined
    · rw [Function.update_of_ne new, commandsOf_congr (node?_addNode_of_ne _ _ new)]
      exact meets.defined index
  · intro source target edge
    rw [successorsOf_addNode _ closed] at edge
    have old := lt_size_of_mem_successorsOf edge
    obtain ⟨known, met⟩ := meets.onward source target edge
    refine ⟨grown known, ?_⟩
    rw [supplied, agree known, agree old,
      commandsOf_congr (node?_addNode_of_ne _ _ (Nat.ne_of_lt old))]
    exact met
  · intro source target edge
    rw [exceptionsOf_addNode _ bare] at edge
    obtain ⟨known, met⟩ := meets.exceptional source target edge
    exact ⟨grown known, (agree known).trans met⟩

theorem link (meets : procedure.Meets demand) {source target : NodeIndex}
    (known : target < procedure.size) (met : demand target ⊆ procedure.supplied demand source) :
    (procedure.link source target).Meets demand where
  start_demand := meets.start_demand
  defined index := by
    rw [commandsOf_link]
    exact meets.defined index
  onward index next edge := by
    rw [size_link, supplied, commandsOf_link]
    rcases mem_successorsOf_link edge with old | ⟨rfl, rfl⟩
    · exact meets.onward index next old
    · exact ⟨known, met⟩
  exceptional index next edge := by
    rw [exceptionsOf_link] at edge
    rw [size_link]
    exact meets.exceptional index next edge

/-- Commands may be added to a node that supplies what they read. -/
theorem append (meets : procedure.Meets demand) {index : NodeIndex}
    (known : index < procedure.size) {commands : List Command}
    (defined : Defined (procedure.supplied demand index) commands) :
    (procedure.append index commands).Meets demand where
  start_demand := meets.start_demand
  defined other := by
    by_cases same : other = index
    · rw [same, commandsOf_append_self known]
      exact (meets.defined index).append defined
    · rw [commandsOf_append_of_ne _ _ same]
      exact meets.defined other
  onward source target edge := by
    rw [successorsOf_append] at edge
    rw [size_append]
    obtain ⟨targetKnown, met⟩ := meets.onward source target edge
    refine ⟨targetKnown, List.Subset.trans met (List.append_subset.mpr ⟨?_, ?_⟩)⟩
    · exact List.subset_append_left _ _
    · obtain ⟨more, grown⟩ := (Extends.append procedure index commands).commandsOf source
      rw [supplied, ← grown, assignedBy_append]
      exact List.subset_append_of_subset_right _ (List.subset_append_left _ _)
  exceptional source target edge := by
    rw [exceptionsOf_append] at edge
    rw [size_append]
    exact meets.exceptional source target edge

theorem setException (meets : procedure.Meets demand) {source target : NodeIndex}
    (known : target < procedure.size) (met : demand target = []) :
    (procedure.setException source target).Meets demand where
  start_demand := meets.start_demand
  defined index := by
    rw [commandsOf_setException]
    exact meets.defined index
  onward index next edge := by
    rw [successorsOf_setException] at edge
    rw [size_setException, supplied, commandsOf_setException]
    exact meets.onward index next edge
  exceptional index next edge := by
    rw [size_setException]
    by_cases same : index = source
    · have sourceKnown := lt_size_of_mem_exceptionsOf edge
      rw [size_setException] at sourceKnown
      rw [same] at edge sourceKnown
      rw [exceptionsOf_setException_self sourceKnown, List.mem_singleton] at edge
      rw [edge]
      exact ⟨known, met⟩
    · rw [exceptionsOf_congr (node?_setException_of_ne _ same)] at edge
      exact meets.exceptional index next edge

/-- `Procedure.finish` adds edges to the exit and the sink only. -/
theorem finish (meets : procedure.Meets demand) (sinkKnown : sink < procedure.size)
    (exitDemand : demand exit = []) (sinkDemand : demand sink = []) :
    procedure.finish.Meets demand where
  start_demand := meets.start_demand
  defined index := by
    rw [commandsOf_finish]
    exact meets.defined index
  onward source target edge := by
    have known := lt_size_of_mem_successorsOf edge
    rw [size_finish] at known ⊢
    rw [supplied, commandsOf_finish]
    rw [successorsOf_finish known] at edge
    rcases mem_finishedSuccessors edge with old | rfl
    · exact meets.onward source target old
    · rw [exitDemand]
      exact ⟨Nat.lt_of_succ_lt sinkKnown, List.nil_subset _⟩
  exceptional source target edge := by
    have known := lt_size_of_mem_exceptionsOf edge
    rw [size_finish] at known ⊢
    rw [exceptionsOf_finish known] at edge
    rcases mem_finishedExceptions edge with old | rfl | rfl
    · exact meets.exceptional source target old
    · exact ⟨Nat.lt_of_succ_lt sinkKnown, exitDemand⟩
    · exact ⟨sinkKnown, sinkDemand⟩

end Meets

end Procedure

end BytecodeFlow

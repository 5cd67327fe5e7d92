/-
This file compares a procedure under construction with what it becomes later
(`Extends`). Building never takes anything back: a node that is there stays
there, keeps its kind, and only gets more commands and more ways out
(`Node.GrowsTo`).
-/

import BytecodeFlow.Proofs.Graph.Building

namespace BytecodeFlow

/-- A node becomes another by more commands and more ways out. -/
structure Node.GrowsTo (node grown : Node) : Prop where
  kind : grown.kind = node.kind
  commands : node.commands <+: grown.commands
  successors : node.successors <+: grown.successors

theorem Node.GrowsTo.refl (node : Node) : node.GrowsTo node :=
  ⟨rfl, List.prefix_refl _, List.prefix_refl _⟩

theorem Node.GrowsTo.trans {first second third : Node} (former : first.GrowsTo second)
    (latter : second.GrowsTo third) : first.GrowsTo third :=
  ⟨latter.kind.trans former.kind, former.commands.trans latter.commands,
    former.successors.trans latter.successors⟩

namespace Procedure

/-- Every node of a procedure is there in another, where it is one that it `GrowsTo`. -/
def Extends (first second : Procedure) : Prop :=
  ∀ index node, first.node? index = some node →
    ∃ grown, second.node? index = some grown ∧ node.GrowsTo grown

namespace Extends

variable {first second third : Procedure}

theorem refl (procedure : Procedure) : procedure.Extends procedure :=
  fun _ node found => ⟨node, found, .refl node⟩

theorem trans (former : first.Extends second) (latter : second.Extends third) :
    first.Extends third := by
  intro index node found
  obtain ⟨grown, led, grows⟩ := former index node found
  obtain ⟨last, ledOn, growsOn⟩ := latter index grown led
  exact ⟨last, ledOn, grows.trans growsOn⟩

theorem size_le (extended : first.Extends second) : first.size ≤ second.size := by
  refine Nat.le_of_not_lt fun fewer => ?_
  obtain ⟨node, found⟩ := node?_isSome.mpr fewer
  obtain ⟨grown, led, -⟩ := extended _ node found
  exact Nat.lt_irrefl _ (node?_isSome.mp ⟨grown, led⟩)

theorem kind? (extended : first.Extends second) {index : NodeIndex}
    (known : index < first.size) : second.kind? index = first.kind? index := by
  obtain ⟨node, found⟩ := node?_isSome.mpr known
  obtain ⟨grown, led, grows⟩ := extended index node found
  rw [Procedure.kind?, Procedure.kind?, found, led]
  exact congrArg some grows.kind

theorem commandsOf (extended : first.Extends second) (index : NodeIndex) :
    first.commandsOf index <+: second.commandsOf index := by
  rw [Procedure.commandsOf, Procedure.commandsOf]
  cases found : first.node? index with
  | none => exact List.nil_prefix
  | some node =>
    obtain ⟨grown, led, grows⟩ := extended index node found
    rw [led]
    exact grows.commands

theorem successorsOf (extended : first.Extends second) (index : NodeIndex) :
    first.successorsOf index <+: second.successorsOf index := by
  rw [Procedure.successorsOf, Procedure.successorsOf]
  cases found : first.node? index with
  | none => exact List.nil_prefix
  | some node =>
    obtain ⟨grown, led, grows⟩ := extended index node found
    rw [led]
    exact grows.successors

/-- A procedure `Extends` another in which all nodes stay as they are. -/
theorem of_kept (kept : ∀ index < first.size, second.node? index = first.node? index) :
    first.Extends second := by
  intro index node found
  exact ⟨node, (kept index (node?_isSome.mp ⟨node, found⟩)).trans found, .refl node⟩

/-! ### Ways of building -/

theorem addNode (procedure : Procedure) (node : Node) :
    procedure.Extends (procedure.addNode node) :=
  of_kept fun _ known => node?_addNode_of_ne _ _ (Nat.ne_of_lt known)

theorem modifyNode (procedure : Procedure) (index : NodeIndex) {change : Node → Node}
    (grows : ∀ node : Node, node.GrowsTo (change node)) :
    procedure.Extends (procedure.modifyNode index change) := by
  intro other node found
  by_cases same : other = index
  · subst same
    exact ⟨change node, by rw [node?_modifyNode_self, found, Option.map_some], grows node⟩
  · exact ⟨node, by rw [node?_modifyNode_of_ne _ _ same, found], .refl node⟩

theorem link (procedure : Procedure) (source target : NodeIndex) :
    procedure.Extends (procedure.link source target) := by
  refine modifyNode procedure source fun node => ?_
  split
  · exact .refl node
  · exact ⟨rfl, List.prefix_refl _, List.prefix_append _ _⟩

theorem setException (procedure : Procedure) (source target : NodeIndex) :
    procedure.Extends (procedure.setException source target) :=
  modifyNode procedure source fun _ => ⟨rfl, List.prefix_refl _, List.prefix_refl _⟩

theorem append (procedure : Procedure) (index : NodeIndex) (commands : List Command) :
    procedure.Extends (procedure.append index commands) :=
  modifyNode procedure index fun _ => ⟨rfl, List.prefix_append _ _, List.prefix_refl _⟩

end Extends

end Procedure

end BytecodeFlow

/-
This file describes a turn while it is underway (`Underway`). The walk on which
the turn started is its base. A turn owns the node that its path follows and
every node that it adds (`Owned`); it changes no other node, and the one that
was there before only grows at its end. The nodes in hand and the nodes after
which the turn queues paths are its own.
-/

import BytecodeFlow.Proofs.Walk.LooseEnds

namespace BytecodeFlow

namespace Walk

/-- A turn that starts from the base may change a node. -/
def Owned (base : Walk) (node : NodeIndex) : Prop :=
  node = base.previous ∨ base.procedure.size ≤ node

/-- A turn that started from the base has led to a walk that is `Linear` with some nodes in hand.
What it changed is `Owned`. -/
structure Underway (base walk : Walk) (held : List NodeIndex) : Prop where
  linear : walk.Linear held
  followed : base.previous < base.procedure.size
  grown : base.procedure.size ≤ walk.procedure.size
  others : ∀ index < base.procedure.size, index ≠ base.previous →
    walk.procedure.node? index = base.procedure.node? index
  own : ∀ node, base.procedure.node? base.previous = some node → ∃ commands successors,
    walk.procedure.node? base.previous = some { node with
      commands := node.commands ++ commands
      successors := node.successors ++ successors } ∧ (base.current = none → commands = [])
  entriesKept : ∀ (offset : Offset) (entry : NodeIndex), base.entries[offset]? = some entry →
    walk.entries[offset]? = some entry
  openedKept : ∀ offset, base.opened.getD offset [] <+: walk.opened.getD offset []
  queued : ∃ pushed, walk.worklist = pushed ++ base.worklist ∧ ∀ pending ∈ pushed,
    base.Owned pending.previous ∧ (pending.previous = base.previous → base.current = none →
      ∀ node, pending.continuation ≠ .append node)
  heldOwned : ∀ node ∈ held, base.Owned node
  previous : walk.previous = base.previous
  current : ∀ node, walk.current = some node →
    (node = base.previous ∧ base.current = some node) ∨ base.procedure.size ≤ node

namespace Underway

variable {base walk : Walk} {held : List NodeIndex}

/-- A turn starts with the node that its path follows in hand. -/
theorem start (linear : base.Linear [base.previous])
    (current : ∀ node, base.current = some node → node = base.previous) :
    base.Underway base [base.previous] where
  linear
  followed := (linear.loose base.previous List.mem_cons_self).1
  grown := Nat.le_refl _
  others _ _ _ := rfl
  own node found := ⟨[], [], by simpa using found, fun _ => rfl⟩
  entriesKept _ _ found := found
  openedKept _ := List.prefix_refl _
  queued := ⟨[], rfl, fun _ member => absurd member List.not_mem_nil⟩
  heldOwned node member := .inl (List.mem_singleton.mp member)
  previous := rfl
  current node known := .inl ⟨current node known, known⟩

/-- What a turn does to the rest of the walk does not matter. -/
theorem of_fields {other : Walk} (underway : base.Underway walk held)
    (procedure : other.procedure = walk.procedure) (worklist : other.worklist = walk.worklist)
    (opened : other.opened = walk.opened) (entries : other.entries = walk.entries)
    (previous : other.previous = walk.previous) (current : other.current = walk.current) :
    base.Underway other held where
  linear := underway.linear.of_fields procedure worklist opened entries
  followed := underway.followed
  grown := by
    rw [procedure]
    exact underway.grown
  others := by
    rw [procedure]
    exact underway.others
  own := by
    rw [procedure]
    exact underway.own
  entriesKept := by
    rw [entries]
    exact underway.entriesKept
  openedKept := by
    rw [opened]
    exact underway.openedKept
  queued := by
    rw [worklist]
    exact underway.queued
  heldOwned := underway.heldOwned
  previous := previous.trans underway.previous
  current := by
    rw [current]
    exact underway.current

theorem perm {other : List NodeIndex} (underway : base.Underway walk held)
    (same : held.Perm other) : base.Underway walk other :=
  { underway with
    linear := underway.linear.perm same
    heldOwned := fun node member => underway.heldOwned node (same.mem_iff.mpr member) }

/-! ### Nodes and edges -/

/-- A new node comes into hand. -/
theorem addNode (underway : base.Underway walk held) (node : Node) (closed : node.successors = []) :
    base.Underway { walk with procedure := walk.procedure.addNode node }
      (walk.procedure.size :: held) := by
  have older : ∀ index < base.procedure.size,
      (walk.procedure.addNode node).node? index = walk.procedure.node? index := fun index known =>
    Procedure.node?_addNode_of_ne _ _ (Nat.ne_of_lt (Nat.lt_of_lt_of_le known underway.grown))
  exact { underway with
    linear := underway.linear.addNode node closed
    grown := by
      rw [Procedure.size_addNode]
      exact Nat.le_succ_of_le underway.grown
    others := fun index known other => (older index known).trans (underway.others index known other)
    own := by
      intro own found
      have known := Procedure.node?_isSome.mp ⟨own, found⟩
      rw [older _ known]
      exact underway.own own found
    heldOwned := by
      intro index member
      rcases List.mem_cons.mp member with rfl | old
      · exact .inr underway.grown
      · exact underway.heldOwned index old }

/-- A change of a node that is `Owned`, after which other nodes may be in hand. -/
theorem modify (underway : base.Underway walk held) {index : NodeIndex} {change : Node → Node}
    {left : List NodeIndex}
    (linear : Linear { walk with procedure := walk.procedure.modifyNode index change } left)
    (subset : ∀ node ∈ left, node ∈ held) (owned : base.Owned index)
    (grows : ∀ node, index = base.previous → ∃ commands successors, change node =
      { node with
        commands := node.commands ++ commands
        successors := node.successors ++ successors } ∧ (base.current = none → commands = [])) :
    base.Underway { walk with procedure := walk.procedure.modifyNode index change } left :=
  { underway with
    linear
    grown := by
      rw [Procedure.size_modifyNode]
      exact underway.grown
    others := by
      intro other known distinct
      have unchanged : other ≠ index := by
        rintro rfl
        rcases owned with same | new
        · exact distinct same
        · exact Nat.lt_irrefl _ (Nat.lt_of_lt_of_le known new)
      rw [Procedure.node?_modifyNode_of_ne _ _ unchanged]
      exact underway.others other known distinct
    own := by
      intro node found
      obtain ⟨commands, successors, led, quiet⟩ := underway.own node found
      by_cases same : index = base.previous
      · subst same
        rw [Procedure.node?_modifyNode_self, led, Option.map_some]
        obtain ⟨moreCommands, moreSuccessors, changed, stillQuiet⟩ := grows { node with
          commands := node.commands ++ commands
          successors := node.successors ++ successors } rfl
        refine ⟨commands ++ moreCommands, successors ++ moreSuccessors, ?_, ?_⟩
        · rw [changed]
          simp only [List.append_assoc]
        · intro fresh
          rw [quiet fresh, stillQuiet fresh]
          rfl
      · rw [Procedure.node?_modifyNode_of_ne _ _ (Ne.symm same)]
        exact ⟨commands, successors, led, quiet⟩
    heldOwned := fun node member => underway.heldOwned node (subset node member) }

/-- A new edge only extends a node. -/
theorem link_grows (base : Walk) (target : NodeIndex) (node : Node) :
    ∃ commands successors, (if node.successors.contains target then node
      else { node with successors := node.successors ++ [target] }) =
      { node with
        commands := node.commands ++ commands
        successors := node.successors ++ successors } ∧ (base.current = none → commands = []) := by
  split
  · exact ⟨[], [], by simp, fun _ => rfl⟩
  · exact ⟨[], [target], by simp, fun _ => rfl⟩

/-- An edge takes its source out of hand. -/
theorem link {source target : NodeIndex} (underway : base.Underway walk (source :: held))
    (known : target < walk.procedure.size) (notStart : target ≠ Procedure.start)
    (alone : walk.procedure.IsPrune target →
      ∀ index, target ∉ walk.procedure.successorsOf index) :
    base.Underway { walk with procedure := walk.procedure.link source target } held :=
  underway.modify (underway.linear.link known notStart alone)
    (fun _ member => List.mem_cons_of_mem _ member)
    (underway.heldOwned source List.mem_cons_self) fun node _ => link_grows base target node

/-- An edge to a node that is `Joinable`. -/
theorem join {source target : NodeIndex} (underway : base.Underway walk (source :: held))
    (joinable : walk.procedure.Joinable target) :
    base.Underway { walk with procedure := walk.procedure.link source target } held :=
  underway.link joinable.known joinable.notStart fun prune => absurd prune joinable.notPrune

/-- A second way out of a node, next to one on the opposite condition. -/
theorem link_second {source taken notTaken : NodeIndex} {condition : Expr} {kind : BranchKind}
    (underway : base.Underway walk held) (owned : base.Owned source)
    (only : walk.procedure.successorsOf source = [taken])
    (holds : walk.procedure.Prunes taken condition true kind)
    (fails : walk.procedure.Prunes notTaken (.not condition) false kind)
    (alone : ∀ index, notTaken ∉ walk.procedure.successorsOf index)
    (notStart : notTaken ≠ Procedure.start) :
    base.Underway { walk with procedure := walk.procedure.link source notTaken } held :=
  underway.modify (underway.linear.link_second only holds fails alone notStart)
    (fun _ member => member) owned fun node _ => link_grows base notTaken node

/-- Commands may be added to the node of the current block. -/
theorem append {node : NodeIndex} (underway : base.Underway walk held)
    (current : walk.current = some node) (commands : List Command) :
    base.Underway { walk with procedure := walk.procedure.append node commands } held := by
  have owned := underway.current node current
  refine underway.modify (underway.linear.append node commands) (fun _ member => member)
    (owned.imp And.left fun new => new) fun own same => ⟨commands, [], by simp, fun fresh => ?_⟩
  rcases owned with ⟨-, continued⟩ | new
  · rw [fresh] at continued
    cases continued
  · exact absurd (same ▸ new) (Nat.not_le_of_lt underway.followed)

/-- The exceptions of a new node may be sent to a handler. -/
theorem setException {source : NodeIndex} (underway : base.Underway walk held)
    (new : base.procedure.size ≤ source) (target : NodeIndex) :
    base.Underway { walk with procedure := walk.procedure.setException source target } held :=
  underway.modify (underway.linear.setException source target) (fun _ member => member) (.inr new)
    fun _ same => absurd (same ▸ new) (Nat.not_le_of_lt underway.followed)

/-! ### Waiting paths and tables -/

/-- A waiting path takes the node that it follows out of hand. It may continue the node of the
current block, or a new one. -/
theorem queue {pending : Pending} (underway : base.Underway walk (pending.previous :: held))
    (appends : ∀ node, pending.continuation = .append node → node = pending.previous ∧
      (walk.current = some node ∨ base.procedure.size ≤ node)) :
    base.Underway (walk.queue pending) held :=
  { underway with
    linear := underway.linear.queue fun node continued => (appends node continued).1
    queued := by
      obtain ⟨pushed, worklist, owned⟩ := underway.queued
      refine ⟨pending :: pushed, congrArg (pending :: ·) worklist, ?_⟩
      intro other member
      rcases List.mem_cons.mp member with rfl | old
      · refine ⟨underway.heldOwned _ List.mem_cons_self, fun same fresh node continued => ?_⟩
        obtain ⟨rfl, current | new⟩ := appends node continued
        · rcases underway.current _ current with ⟨-, known⟩ | new
          · rw [fresh] at known
            cases known
          · exact absurd (same ▸ new) (Nat.not_le_of_lt underway.followed)
        · exact absurd (same ▸ new) (Nat.not_le_of_lt underway.followed)
      · exact owned other old
    heldOwned := fun node member => underway.heldOwned node (List.mem_cons_of_mem _ member) }

theorem record_opened (underway : base.Underway walk held) {node : NodeIndex}
    (joinable : walk.procedure.Joinable node) (offset : Offset) (stack : List Value) :
    base.Underway { walk with
      opened := walk.opened.insert offset (walk.opened.getD offset [] ++ [(node, stack)]) }
      held :=
  { underway with
    linear := underway.linear.record_opened joinable offset stack
    openedKept := by
      intro other
      rw [Std.ExtTreeMap.getD_insert]
      split
      · rename_i same
        rw [Std.LawfulEqCmp.eq_of_compare same] 
        exact (underway.openedKept other).trans (List.prefix_append _ _)
      · exact underway.openedKept other }

theorem record_entry (underway : base.Underway walk held) {node : NodeIndex}
    (joinable : walk.procedure.Joinable node) (offset : Offset)
    (fresh : walk.entries[offset]? = none) :
    base.Underway { walk with entries := walk.entries.insert offset node } held :=
  { underway with
    linear := underway.linear.record_entry joinable offset
    entriesKept := by
      intro other entry found
      have kept := underway.entriesKept other entry found
      rw [Std.ExtTreeMap.getElem?_insert]
      split
      · rename_i same
        rw [← Std.LawfulEqCmp.eq_of_compare same, fresh] at kept
        cases kept
      · exact kept }

/-- A new node may become the node of the current block. -/
theorem settle {node : NodeIndex} (underway : base.Underway walk held)
    (new : base.procedure.size ≤ node) :
    base.Underway { walk with current := some node } held :=
  { underway with
    linear := underway.linear.of_fields rfl rfl rfl rfl
    current := by
      intro other known
      cases known
      exact .inr new }

end Underway

end Walk

end BytecodeFlow

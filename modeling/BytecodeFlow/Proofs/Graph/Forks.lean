/-
This file describes the normal flow of a procedure under construction, as
`Shaped`. A node has no way out, one, or two (`WaysOut`); two ways out lead to
nodes that let a path pass on one condition and on its negation (`Prunes`), and
nothing else leads to these. Nothing leads to the start, and nothing leaves the
exit or the sink. The description is kept by every way of building that a walk
uses.
-/

import BytecodeFlow.Proofs.Graph.Growth

namespace BytecodeFlow

namespace Procedure

/-- A node lets a path pass only if a condition holds, and is one branch of a construct. -/
def Prunes (procedure : Procedure) (index : NodeIndex) (condition : Expr) (branch : Bool)
    (kind : BranchKind) : Prop :=
  procedure.kind? index = some (.prune branch kind) ∧
    ∃ location, (procedure.commandsOf index).head? = some (.prune condition branch kind location)

def IsPrune (procedure : Procedure) (index : NodeIndex) : Prop :=
  ∃ branch kind, procedure.kind? index = some (.prune branch kind)

/-- The ways out of a node: none, one, or two that `Prunes` makes the branches of one condition. -/
inductive WaysOut (procedure : Procedure) : List NodeIndex → Prop
  | none : WaysOut procedure []
  | one (next : NodeIndex) : WaysOut procedure [next]
  | two (taken notTaken : NodeIndex) (condition : Expr) (kind : BranchKind)
    (holds : procedure.Prunes taken condition true kind)
    (fails : procedure.Prunes notTaken (.not condition) false kind) :
    WaysOut procedure [taken, notTaken]

/-- The normal flow of a procedure that is not finished yet: each node has `WaysOut`, nothing leads
to the start, nothing follows the exit and the sink, and one node leads to a prune. -/
structure Shaped (procedure : Procedure) : Prop where
  exitKind : procedure.kind? exit = some .exit
  sinkKind : procedure.kind? sink = some .sink
  exitCloses : procedure.successorsOf exit = []
  sinkCloses : procedure.successorsOf sink = []
  waysOut : ∀ index, procedure.WaysOut (procedure.successorsOf index)
  leadsOn : ∀ source target, target ∈ procedure.successorsOf source →
    target ≠ start ∧ target < procedure.size
  oneSource : ∀ target, procedure.IsPrune target → ∀ first second,
    target ∈ procedure.successorsOf first → target ∈ procedure.successorsOf second →
      first = second

/-- A node to which any number of nodes may lead: neither the start nor one that `IsPrune`. -/
structure Joinable (procedure : Procedure) (index : NodeIndex) : Prop where
  known : index < procedure.size
  notStart : index ≠ start
  notPrune : ¬ procedure.IsPrune index

theorem Prunes.isPrune {procedure : Procedure} {index : NodeIndex} {condition : Expr}
    {branch : Bool} {kind : BranchKind} (prunes : procedure.Prunes index condition branch kind) :
    procedure.IsPrune index := ⟨branch, kind, prunes.1⟩

theorem Prunes.known {procedure : Procedure} {index : NodeIndex} {condition : Expr}
    {branch : Bool} {kind : BranchKind} (prunes : procedure.Prunes index condition branch kind) :
    index < procedure.size := lt_size_of_kind? prunes.1

theorem WaysOut.mono {first second : Procedure} {successors : List NodeIndex}
    (kept : ∀ index condition branch kind, first.Prunes index condition branch kind →
      second.Prunes index condition branch kind)
    (waysOut : first.WaysOut successors) : second.WaysOut successors := by
  cases waysOut with
  | none => exact .none
  | one next => exact .one next
  | two taken notTaken condition kind holds fails =>
    exact .two taken notTaken condition kind (kept _ _ _ _ holds) (kept _ _ _ _ fails)

theorem WaysOut.length_le {procedure : Procedure} {successors : List NodeIndex}
    (waysOut : procedure.WaysOut successors) : successors.length ≤ 2 := by
  cases waysOut with
  | none => exact Nat.zero_le _
  | one => exact Nat.le_succ _
  | two => exact Nat.le_refl _

/-- What is `Joinable` stays so when the node is not replaced. -/
theorem Joinable.mono {first second : Procedure} {index : NodeIndex}
    (grown : first.size ≤ second.size)
    (kept : index < first.size → second.kind? index = first.kind? index)
    (joinable : first.Joinable index) : second.Joinable index where
  known := Nat.lt_of_lt_of_le joinable.known grown
  notStart := joinable.notStart
  notPrune := by
    rintro ⟨branch, kind, prune⟩
    exact joinable.notPrune ⟨branch, kind, by rw [← kept joinable.known]; exact prune⟩

theorem Joinable.extends {first second : Procedure} {index : NodeIndex}
    (joinable : first.Joinable index) (extended : first.Extends second) : second.Joinable index :=
  joinable.mono extended.size_le fun known => extended.kind? known

theorem Shaped.joinable_exit {procedure : Procedure} (shaped : procedure.Shaped) :
    procedure.Joinable exit where
  known := lt_size_of_kind? shaped.exitKind
  notStart := by decide
  notPrune := by
    rintro ⟨branch, kind, prune⟩
    rw [shaped.exitKind] at prune
    cases prune

theorem Shaped.joinable_sink {procedure : Procedure} (shaped : procedure.Shaped) :
    procedure.Joinable sink where
  known := lt_size_of_kind? shaped.sinkKind
  notStart := by decide
  notPrune := by
    rintro ⟨branch, kind, prune⟩
    rw [shaped.sinkKind] at prune
    cases prune

theorem Shaped.sink_lt {procedure : Procedure} (shaped : procedure.Shaped) :
    sink < procedure.size := lt_size_of_kind? shaped.sinkKind

/-! ### Changes that keep the flow -/

/-- Changes that add no edge and keep the first commands leave a procedure `Shaped`. -/
theorem Shaped.congr {first second : Procedure} (shaped : first.Shaped)
    (size : second.size = first.size) (kinds : ∀ index, second.kind? index = first.kind? index)
    (edges : ∀ index, second.successorsOf index = first.successorsOf index)
    (kept : ∀ index condition branch kind, first.Prunes index condition branch kind →
      second.Prunes index condition branch kind) : second.Shaped where
  exitKind := (kinds exit).trans shaped.exitKind
  sinkKind := (kinds sink).trans shaped.sinkKind
  exitCloses := (edges exit).trans shaped.exitCloses
  sinkCloses := (edges sink).trans shaped.sinkCloses
  waysOut index := by
    rw [edges]
    exact (shaped.waysOut index).mono kept
  leadsOn source target edge := by
    rw [edges] at edge
    rw [size]
    exact shaped.leadsOn source target edge
  oneSource target prune one other fromOne fromOther := by
    rw [edges] at fromOne fromOther
    obtain ⟨branch, kind, known⟩ := prune
    exact shaped.oneSource target ⟨branch, kind, by rw [← kinds]; exact known⟩ one other fromOne
      fromOther

theorem Shaped.setException {procedure : Procedure} (shaped : procedure.Shaped)
    (source target : NodeIndex) : (procedure.setException source target).Shaped :=
  shaped.congr (size_setException ..) (kind?_setException _ _ _) (successorsOf_setException _ _ _)
    fun index condition branch kind prunes => by
      rw [Prunes, kind?_setException, commandsOf_setException]
      exact prunes

theorem Prunes.append {procedure : Procedure} {index : NodeIndex} {condition : Expr}
    {branch : Bool} {kind : BranchKind} (prunes : procedure.Prunes index condition branch kind)
    (changed : NodeIndex) (commands : List Command) :
    (procedure.append changed commands).Prunes index condition branch kind := by
  obtain ⟨known, location, first⟩ := prunes
  refine ⟨by rwa [kind?_append], location, ?_⟩
  by_cases same : index = changed
  · subst same
    rw [commandsOf_append_self (lt_size_of_kind? known), List.head?_append, first]
    rfl
  · rwa [commandsOf_append_of_ne _ _ same]

theorem Shaped.append {procedure : Procedure} (shaped : procedure.Shaped) (index : NodeIndex)
    (commands : List Command) : (procedure.append index commands).Shaped :=
  shaped.congr (size_append ..) (kind?_append _ _ · _) (successorsOf_append _ _ · _)
    fun _ _ _ _ prunes => prunes.append index commands

/-! ### New nodes and edges -/

theorem Prunes.addNode {procedure : Procedure} {index : NodeIndex} {condition : Expr}
    {branch : Bool} {kind : BranchKind} (prunes : procedure.Prunes index condition branch kind)
    (node : Node) : (procedure.addNode node).Prunes index condition branch kind := by
  have same := node?_addNode_of_ne procedure node (Nat.ne_of_lt prunes.known)
  rw [Prunes, kind?_congr same, commandsOf_congr same]
  exact prunes

theorem Prunes.link {procedure : Procedure} {index : NodeIndex} {condition : Expr}
    {branch : Bool} {kind : BranchKind} (prunes : procedure.Prunes index condition branch kind)
    (source target : NodeIndex) :
    (procedure.link source target).Prunes index condition branch kind := by
  rw [Prunes, kind?_link, commandsOf_link]
  exact prunes

/-- A new node without edges leaves a procedure `Shaped`. -/
theorem Shaped.addNode {procedure : Procedure} (shaped : procedure.Shaped) {node : Node}
    (closed : node.successors = []) : (procedure.addNode node).Shaped where
  exitKind := (kind?_addNode_of_lt (lt_size_of_kind? shaped.exitKind)).trans shaped.exitKind
  sinkKind := (kind?_addNode_of_lt (lt_size_of_kind? shaped.sinkKind)).trans shaped.sinkKind
  exitCloses := (successorsOf_addNode _ closed exit).trans shaped.exitCloses
  sinkCloses := (successorsOf_addNode _ closed sink).trans shaped.sinkCloses
  waysOut index := by
    rw [successorsOf_addNode _ closed]
    exact (shaped.waysOut index).mono fun _ _ _ _ prunes => prunes.addNode node
  leadsOn source target edge := by
    rw [successorsOf_addNode _ closed] at edge
    obtain ⟨notStart, known⟩ := shaped.leadsOn source target edge
    exact ⟨notStart, by rw [size_addNode]; exact Nat.lt_succ_of_lt known⟩
  oneSource target prune first second fromFirst fromSecond := by
    rw [successorsOf_addNode _ closed] at fromFirst fromSecond
    obtain ⟨branch, kind, pruneKind⟩ := prune
    rw [kind?_addNode_of_lt (shaped.leadsOn first target fromFirst).2] at pruneKind
    exact shaped.oneSource target ⟨branch, kind, pruneKind⟩ first second fromFirst fromSecond

/-- The conditions on a new edge besides the `WaysOut` of its source. -/
theorem Shaped.link_of_waysOut {procedure : Procedure} (shaped : procedure.Shaped)
    {source target : NodeIndex} (notExit : source ≠ exit) (notSink : source ≠ sink)
    (known : target < procedure.size) (notStart : target ≠ start)
    (alone : procedure.IsPrune target → ∀ index, target ∉ procedure.successorsOf index)
    (waysOut : procedure.WaysOut ((procedure.link source target).successorsOf source)) :
    (procedure.link source target).Shaped where
  exitKind := (kind?_link ..).trans shaped.exitKind
  sinkKind := (kind?_link ..).trans shaped.sinkKind
  exitCloses := (successorsOf_link_of_ne _ notExit.symm).trans shaped.exitCloses
  sinkCloses := (successorsOf_link_of_ne _ notSink.symm).trans shaped.sinkCloses
  waysOut index := by
    have kept := fun index condition branch kind
      (prunes : procedure.Prunes index condition branch kind) => prunes.link source target
    by_cases same : index = source
    · subst same
      exact waysOut.mono kept
    · rw [successorsOf_link_of_ne _ same]
      exact (shaped.waysOut index).mono kept
  leadsOn index next edge := by
    rw [size_link]
    rcases mem_successorsOf_link edge with old | ⟨-, rfl⟩
    · exact shaped.leadsOn index next old
    · exact ⟨notStart, known⟩
  oneSource next prune first second fromFirst fromSecond := by
    obtain ⟨branch, kind, pruneKind⟩ := prune
    rw [kind?_link] at pruneKind
    have isPrune : procedure.IsPrune next := ⟨branch, kind, pruneKind⟩
    rcases mem_successorsOf_link fromFirst with oldFirst | ⟨rfl, rfl⟩
    · rcases mem_successorsOf_link fromSecond with oldSecond | ⟨rfl, rfl⟩
      · exact shaped.oneSource next isPrune first second oldFirst oldSecond
      · exact absurd oldFirst (alone isPrune first)
    · rcases mem_successorsOf_link fromSecond with oldSecond | ⟨rfl, -⟩
      · exact absurd oldSecond (alone isPrune second)
      · rfl

/-- A first way out of a node. -/
theorem Shaped.link {procedure : Procedure} (shaped : procedure.Shaped) {source target : NodeIndex}
    (loose : procedure.successorsOf source = []) (sourceKnown : source < procedure.size)
    (notExit : source ≠ exit) (notSink : source ≠ sink)
    (known : target < procedure.size) (notStart : target ≠ start)
    (alone : procedure.IsPrune target → ∀ index, target ∉ procedure.successorsOf index) :
    (procedure.link source target).Shaped := by
  refine shaped.link_of_waysOut notExit notSink known notStart alone ?_
  rw [successorsOf_link_self sourceKnown (by rw [loose]; exact List.not_mem_nil), loose]
  exact .one target

/-- A second way out of a node, next to one on the opposite condition. -/
theorem Shaped.link_second {procedure : Procedure} (shaped : procedure.Shaped)
    {source taken notTaken : NodeIndex} {condition : Expr} {kind : BranchKind}
    (only : procedure.successorsOf source = [taken])
    (holds : procedure.Prunes taken condition true kind)
    (fails : procedure.Prunes notTaken (.not condition) false kind)
    (alone : ∀ index, notTaken ∉ procedure.successorsOf index) (notStart : notTaken ≠ start) :
    (procedure.link source notTaken).Shaped := by
  have edge : taken ∈ procedure.successorsOf source := by rw [only]; exact List.mem_singleton_self _
  have sourceKnown := lt_size_of_mem_successorsOf edge
  refine shaped.link_of_waysOut ?_ ?_ fails.known notStart (fun _ => alone) ?_
  · rintro rfl
    rw [shaped.exitCloses] at only
    cases only
  · rintro rfl
    rw [shaped.sinkCloses] at only
    cases only
  · rw [successorsOf_link_self sourceKnown (alone source), only]
    exact .two taken notTaken condition kind holds fails

end Procedure

end BytecodeFlow

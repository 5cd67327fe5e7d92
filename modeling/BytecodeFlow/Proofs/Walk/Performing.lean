/-
This file shows that performing an operation keeps a turn in order, and that
nothing is left in hand once it is performed without a fault (`Settles`): every
way on is an edge or a waiting path. The end that the current path hangs on is
its `owner`: the node of the current block, or before it has one the node it is
reached from.
-/

import BytecodeFlow.Proofs.Walk.Entries
import BytecodeFlow.Walk.Step

namespace BytecodeFlow

namespace Walk

/-- The node that the current path hangs on: the current one, or else the previous one. -/
def owner (walk : Walk) : NodeIndex := walk.current.getD walk.previous

/-- `attachHandler` builds the entry of the handler and changes no edges and no commands that are
there. -/
theorem attachHandler_cases (routine : Routine) (walk : Walk) (node : NodeIndex) :
    (routine.regions.exceptionTarget? walk.offset = none ∧
      walk.attachHandler routine node = walk) ∨
    ∃ target equipped entry, routine.regions.exceptionTarget? walk.offset = some target ∧
      Equipped routine walk equipped ∧
      (∀ start, target.start? routine.regions = some start →
        equipped.entries[start]? = some entry) ∧
      walk.attachHandler routine node =
        { equipped with procedure := equipped.procedure.setException node entry } := by
  unfold attachHandler
  cases found : routine.regions.exceptionTarget? walk.offset with
  | none => exact .inl ⟨rfl, rfl⟩
  | some target =>
    exact .inr ⟨target, _, _, rfl, Equipped.handlerEntry walk target,
      fun start known => handlerEntry_recorded walk known, rfl⟩

section Attached

variable (routine : Routine) (walk : Walk) (node : NodeIndex) {index : NodeIndex}

theorem attachHandler_rest :
    ∃ procedure worklist entries nextStamp fault, walk.attachHandler routine node =
      { walk with procedure, worklist, entries, nextStamp, fault } := by
  rcases attachHandler_cases routine walk node with ⟨-, same⟩ | ⟨_, equipped, _, -, built, -, same⟩
  · exact ⟨_, _, _, _, _, same⟩
  · obtain ⟨_, _, _, _, _, rfl⟩ := built.rest
    exact ⟨_, _, _, _, _, same⟩

theorem attachHandler_extends :
    walk.procedure.Extends (walk.attachHandler routine node).procedure := by
  rcases attachHandler_cases routine walk node with ⟨-, same⟩ | ⟨_, equipped, _, -, built, -, same⟩
  · rw [same]
    exact .refl _
  · rw [same]
    exact built.outgrows.extended.trans (.setException _ _ _)

theorem successorsOf_attachHandler (known : index < walk.procedure.size) :
    (walk.attachHandler routine node).procedure.successorsOf index =
      walk.procedure.successorsOf index := by
  rcases attachHandler_cases routine walk node with ⟨-, same⟩ | ⟨_, equipped, _, -, built, -, same⟩
  · rw [same]
  · rw [same, Procedure.successorsOf_setException]
    exact Procedure.successorsOf_congr (built.kept index known)

theorem prunes_attachHandler {condition : Expr} {branch : Bool} {kind : BranchKind}
    (prunes : walk.procedure.Prunes index condition branch kind) :
    (walk.attachHandler routine node).procedure.Prunes index condition branch kind := by
  rcases attachHandler_cases routine walk node with ⟨-, same⟩ | ⟨_, equipped, _, -, built, -, same⟩
  · rw [same]
    exact prunes
  · have kept := built.kept index prunes.known
    rw [same, Procedure.Prunes, Procedure.kind?_setException, Procedure.commandsOf_setException,
      Procedure.kind?_congr kept, Procedure.commandsOf_congr kept]
    exact prunes

end Attached

theorem current_openNode (routine : Routine) (walk : Walk) (kind : NodeKind) :
    (walk.openNode routine kind).1.current = some (walk.openNode routine kind).2 := by
  unfold openNode
  split
  · rename_i current
    exact current
  · rfl

namespace Underway

variable {base walk : Walk} {held : List NodeIndex} (routine : Routine)

/-! ### The node of the current block -/

theorem addBlockNode (underway : base.Underway walk (walk.previous :: held)) {kind : NodeKind}
    (notPrune : ∀ branch branchKind, kind ≠ .prune branch branchKind) :
    base.Underway (walk.addBlockNode routine kind) (walk.procedure.size :: held) := by
  let node := { Node.empty kind walk.location with
    blockEnd := routine.regions.blockEnd? walk.blockStart }
  have joinable : (walk.procedure.addNode node).Joinable walk.procedure.size :=
    underway.linear.shaped.joinable_new notPrune
  have added := (underway.addNode node rfl).perm (List.Perm.swap ..)
  have attached := (added.join joinable).attachHandler routine underway.grown
  have lasting := (joinable.extends (.link _ walk.previous walk.procedure.size)).extends
    (attachHandler_extends routine { walk with
      procedure := (walk.procedure.addNode node).link walk.previous walk.procedure.size }
      walk.procedure.size)
  exact ((attached.record_opened lasting _ _).settle underway.grown).of_fields rfl rfl rfl rfl rfl
    rfl

/-- The node of the current block takes the place of the `owner` that the path hung on. -/
theorem openNode (underway : base.Underway walk (walk.owner :: held)) {kind : NodeKind}
    (notPrune : ∀ branch branchKind, kind ≠ .prune branch branchKind) :
    base.Underway (walk.openNode routine kind).1 ((walk.openNode routine kind).2 :: held) ∧
      (walk.openNode routine kind).1.current = some (walk.openNode routine kind).2 := by
  unfold Walk.openNode
  cases current? : walk.current with
  | some node =>
    rw [owner, current?] at underway
    exact ⟨underway, current?⟩
  | none =>
    rw [owner, current?] at underway
    exact ⟨underway.addBlockNode routine notPrune, rfl⟩

theorem currentNode (underway : base.Underway walk (walk.owner :: held)) :
    base.Underway (walk.currentNode routine).1 ((walk.currentNode routine).2 :: held) ∧
      (walk.currentNode routine).1.current = some (walk.currentNode routine).2 :=
  underway.openNode routine fun _ _ impossible => by cases impossible

theorem emit (underway : base.Underway walk [walk.owner]) (command : Command) :
    base.Underway (walk.emit routine command) [(walk.emit routine command).owner] := by
  have notPrune : ∀ branch kind, NodeKind.statement ≠ .prune branch kind :=
    fun _ _ impossible => by cases impossible
  obtain ⟨opened, current⟩ := underway.openNode routine notPrune
  have owns : (walk.emit routine command).owner = (walk.openNode routine .statement).2 := by
    show (walk.openNode routine .statement).1.current.getD _ = _
    rw [current]
    rfl
  rw [owns]
  exact (opened.append current [command]).of_fields rfl rfl rfl rfl rfl rfl

/-! ### Branches -/

/-- Two ways out on opposite conditions take the place of their source. -/
theorem addPrunes {source : NodeIndex} (underway : base.Underway walk (source :: held))
    (condition : Expr) (kind : BranchKind) :
    let (first, taken) := walk.addPrune routine source condition true kind
    let (second, notTaken) := first.addPrune routine source (.not condition) false kind
    base.Underway second (notTaken :: taken :: held) ∧ base.procedure.size ≤ taken ∧
      base.procedure.size ≤ notTaken := by
  obtain ⟨sourceKnown, sourceCloses, -⟩ := underway.linear.loose source List.mem_cons_self
  have owned := underway.heldOwned source List.mem_cons_self
  have shaped := underway.linear.shaped
  let taken := walk.procedure.size
  let takenNode := pruneNode condition true kind walk.location
    (routine.regions.blockEnd? walk.offset)
  let linked : Walk := { walk with
    procedure := (walk.procedure.addNode takenNode).link source taken }
  let first := linked.attachHandler routine taken
  let notTaken := first.procedure.size
  let notTakenNode := pruneNode (.not condition) false kind first.location
    (routine.regions.blockEnd? first.offset)
  have positive : ∀ {procedure : Procedure}, procedure.Shaped → procedure.size ≠ Procedure.start :=
    fun shaped => Nat.ne_of_gt (Nat.lt_trans (by decide) shaped.sink_lt)
  have takenLinked : base.Underway linked (taken :: held) := by
    have added := (underway.addNode takenNode rfl).perm (List.Perm.swap ..)
    refine added.link ?_ (positive shaped) fun _ index => ?_
    · rw [Procedure.size_addNode]
      exact Nat.lt_succ_self _
    · rw [Procedure.successorsOf_addNode _ rfl]
      exact shaped.not_mem_successorsOf (Nat.le_refl _) index
  have attached : base.Underway first (taken :: held) :=
    takenLinked.attachHandler routine underway.grown
  have only : first.procedure.successorsOf source = [taken] := by
    have known : source < (walk.procedure.addNode takenNode).size := by
      rw [Procedure.size_addNode]
      exact Nat.lt_succ_of_lt sourceKnown
    rw [successorsOf_attachHandler routine linked taken (by rwa [Procedure.size_link]),
      Procedure.successorsOf_link_self known, Procedure.successorsOf_addNode _ rfl, sourceCloses]
    · rfl
    · rw [Procedure.successorsOf_addNode _ rfl, sourceCloses]
      exact List.not_mem_nil
  have holds : first.procedure.Prunes taken condition true kind :=
    prunes_attachHandler routine linked taken ((Procedure.prunes_new rfl rfl).link source taken)
  have forked := (attached.addNode notTakenNode rfl).link_second owned
    (by rw [Procedure.successorsOf_addNode _ rfl]; exact only)
    (holds.addNode notTakenNode) (Procedure.prunes_new rfl rfl)
    (fun index => by
      rw [Procedure.successorsOf_addNode _ rfl]
      exact attached.linear.shaped.not_mem_successorsOf (Nat.le_refl _) index)
    (positive attached.linear.shaped)
  exact ⟨forked.attachHandler routine attached.grown, underway.grown, attached.grown⟩

/-! ### Going on -/

/-- The path goes on from a node of its own. -/
theorem branchFrom {source : NodeIndex} (underway : base.Underway walk (source :: held))
    (continues : walk.current = some source ∨ base.procedure.size ≤ source) (target : Offset) :
    base.Underway (walk.branchFrom routine source target) held := by
  refine underway.queue fun node continued => ?_
  dsimp only [snapshot] at continued
  split at continued
  · cases continued
  · cases continued
    exact ⟨rfl, continues⟩

theorem branchFrom_each {cases : List (NodeIndex × Offset)}
    (underway : base.Underway walk (cases.map Prod.fst))
    (new : ∀ one ∈ cases, base.procedure.size ≤ one.1) :
    base.Underway (cases.foldl (fun walk (taken, target) => walk.branchFrom routine taken target)
      walk) [] := by
  induction cases generalizing walk with
  | nil => exact underway
  | cons one rest inductionHypothesis =>
    exact inductionHypothesis
      (underway.branchFrom routine (.inr (new one List.mem_cons_self)) one.2)
      fun other member => new other (List.mem_cons_of_mem _ member)

/-- Each target of a switch gets a node, and one more is left for the next instruction. -/
theorem addCases (value : Expr) (targets : List Offset) (position : Nat) {source : NodeIndex}
    (reversed : List (NodeIndex × Offset))
    (underway : base.Underway walk (source :: reversed.map Prod.fst))
    (continues : walk.current = some source ∨ base.procedure.size ≤ source)
    (new : ∀ one ∈ reversed, base.procedure.size ≤ one.1) :
    let (after, last, cases) := Walk.addCases routine value position targets source reversed walk
    base.Underway after (last :: cases.map Prod.fst) ∧
      (after.current = some last ∨ base.procedure.size ≤ last) ∧
      ∀ one ∈ cases, base.procedure.size ≤ one.1 := by
  induction targets generalizing position source reversed walk with
  | nil => exact ⟨underway, continues, new⟩
  | cons target rest inductionHypothesis =>
    obtain ⟨forked, takenNew, notTakenNew⟩ := underway.addPrunes routine
      (.binary .equal value (.int position)) .switch
    refine inductionHypothesis (position + 1) ((_, target) :: reversed) forked
      (.inr notTakenNew) fun one member => ?_
    rcases List.mem_cons.mp member with rfl | old
    · exact takenNew
    · exact new one old

end Underway

/-- A turn that was `Underway` from the base is over: unless it found a fault, nothing is in
hand. -/
def Settles (base after : Walk) : Prop :=
  ∃ left, base.Underway after left ∧ (after.fault = none → left = [])

namespace Underway

variable {base walk : Walk} {held : List NodeIndex} (routine : Routine)

theorem settles (underway : base.Underway walk []) : base.Settles walk :=
  ⟨[], underway, fun _ => rfl⟩

theorem fail (underway : base.Underway walk held) (fault : Fault) :
    base.Settles (walk.fail fault) :=
  ⟨held, underway.of_fields rfl rfl rfl rfl rfl rfl, fun impossible => by cases impossible⟩

theorem fallThrough (underway : base.Underway walk [walk.owner]) :
    base.Settles (walk.fallThrough routine) := by
  unfold Walk.fallThrough
  split
  · rename_i next following
    refine settles ?_
    unfold fallThroughTo
    split
    · exact underway.queue fun node continued => by cases continued
    · split
      · rename_i node current
        rw [owner, current] at underway
        refine underway.queue fun node continued => ?_
        cases continued
        exact ⟨rfl, .inl current⟩
      · rename_i current
        rw [owner, current] at underway
        exact underway.queue fun node continued => by cases continued
  · exact underway.fail _

theorem jump (underway : base.Underway walk [walk.owner]) (target : Offset) :
    base.Settles (walk.jump routine target) := by
  obtain ⟨opened, current⟩ := underway.currentNode routine
  exact (opened.branchFrom routine (.inl current) target).settles

theorem branch (underway : base.Underway walk [walk.owner]) (condition : Expr) (target : Offset) :
    base.Settles (walk.branch routine condition target) := by
  unfold Walk.branch
  split
  · rename_i next following
    obtain ⟨opened, -⟩ := underway.currentNode routine
    obtain ⟨forked, takenNew, notTakenNew⟩ := opened.addPrunes routine condition
      .conditional
    exact ((forked.branchFrom routine (.inr notTakenNew) next).branchFrom routine (.inr takenNew)
      target).settles
  · exact underway.fail _

theorem select (underway : base.Underway walk [walk.owner]) (value : Expr)
    (targets : List Offset) : base.Settles (walk.select routine value targets) := by
  unfold Walk.select
  split
  · rename_i next following
    obtain ⟨opened, current⟩ := underway.currentNode routine
    obtain ⟨added, continues, new⟩ := opened.addCases routine value targets 0 []
      (.inl current) fun _ member => absurd member List.not_mem_nil
    exact ((added.branchFrom routine continues next).branchFrom_each routine new).settles
  · exact underway.fail _

/-! ### Calls -/

theorem load (underway : base.Underway walk [walk.owner]) (address : Expr) (typ : Typ) :
    base.Underway (walk.load routine address typ) [(walk.load routine address typ).owner] := by
  have used : base.Underway (walk.useIdents 1) [(walk.useIdents 1).owner] :=
    underway.of_fields rfl rfl rfl rfl rfl rfl
  exact (used.emit routine _).of_fields rfl rfl rfl rfl rfl rfl

theorem invoke (underway : base.Underway walk [walk.owner]) (callee : MethodRef)
    (arguments : List Value) (isVirtual : Bool) :
    base.Underway (walk.invoke routine callee arguments isVirtual)
      [(walk.invoke routine callee arguments isVirtual).owner] := by
  have used : base.Underway (walk.useIdents 1) [(walk.useIdents 1).owner] :=
    underway.of_fields rfl rfl rfl rfl rfl rfl
  unfold Walk.invoke
  dsimp only
  split
  · exact used.emit routine _
  · exact (used.emit routine _).of_fields rfl rfl rfl rfl rfl rfl

theorem construct (underway : base.Underway walk [walk.owner]) (callee : MethodRef)
    (arguments : List Value) :
    base.Underway (walk.construct routine callee arguments)
      [(walk.construct routine callee arguments).owner] := by
  have used : base.Underway (walk.useIdents 1) [(walk.useIdents 1).owner] :=
    underway.of_fields rfl rfl rfl rfl rfl rfl
  have allocated := used.emit routine (.call walk.nextIdent
    (.ofName callee.declaringType) (.function allocateFunction)
    [⟨.sizeOf (Typ.ofName callee.declaringType).stripPointer, .void⟩] false walk.location)
  have usedAgain : base.Underway (Walk.useIdents (Walk.emit (walk.useIdents 1) routine _) 1) _ :=
    allocated.of_fields rfl rfl rfl rfl rfl rfl
  exact (emit routine usedAgain _).of_fields rfl rfl rfl rfl rfl rfl

/-! ### Leaving -/

theorem finish (underway : base.Underway walk [walk.owner]) (value : Option Expr) :
    base.Settles (walk.finish routine value) := by
  cases value with
  | some value =>
    obtain ⟨opened, -⟩ := (underway.emit routine (.store .returnSlot value
      (.ofName routine.method.returnType) walk.location)).currentNode routine
    exact (opened.join opened.linear.shaped.joinable_exit).settles
  | none =>
    obtain ⟨opened, -⟩ := underway.currentNode routine
    exact (opened.join opened.linear.shaped.joinable_exit).settles

theorem raise (underway : base.Underway walk [walk.owner]) (exception : Value) :
    base.Settles (walk.raise routine exception) := by
  obtain ⟨opened, -⟩ := (underway.emit routine (.store .returnSlot
    (.thrown exception.expr) exception.typ walk.location)).currentNode routine
  obtain ⟨built, joinable⟩ := opened.exceptionDestination routine
  exact (built.join joinable).settles

theorem enterFinally (underway : base.Underway walk [walk.owner]) (position : Nat)
    (exit : FinallyExit) : base.Settles (walk.enterFinally routine position exit) := by
  unfold Walk.enterFinally
  split
  · rename_i clause found
    obtain ⟨opened, -⟩ := underway.currentNode routine
    exact (opened.queue fun node continued => by cases continued).settles
  · exact underway.fail _

theorem leave (underway : base.Underway walk [walk.owner]) (target : Offset) :
    base.Settles (walk.leave routine target) := by
  have cleared : base.Underway { walk with stack := [] } [walk.owner] :=
    underway.of_fields rfl rfl rfl rfl rfl rfl
  unfold Walk.leave
  dsimp only
  split
  · exact enterFinally routine cleared _ _
  · exact jump routine cleared target

theorem endFinally (underway : base.Underway walk [walk.owner]) :
    base.Settles (walk.endFinally routine) := by
  unfold Walk.endFinally
  split
  · have cleared : base.Underway { walk with stack := [], finallyExit := none } [walk.owner] :=
      underway.of_fields rfl rfl rfl rfl rfl rfl
    exact jump routine cleared _
  · have cleared : base.Underway { walk with finallyExit := none } [walk.owner] :=
      underway.of_fields rfl rfl rfl rfl rfl rfl
    exact raise routine cleared _
  · exact underway.fail _

/-- A turn `Settles` with `perform`: without a fault, nothing is left in hand. -/
theorem perform (underway : base.Underway walk [walk.owner]) (operation : Operation) :
    base.Settles (walk.perform routine operation) := by
  cases operation with
  | proceed => exact underway.fallThrough routine
  | load address typ => exact (underway.load routine address typ).fallThrough routine
  | store address typ value => exact (underway.emit routine _).fallThrough routine
  | invoke callee arguments isVirtual =>
    exact (underway.invoke routine callee arguments isVirtual).fallThrough routine
  | construct callee arguments =>
    exact (underway.construct routine callee arguments).fallThrough routine
  | jump target => exact underway.jump routine target
  | branch condition target => exact underway.branch routine condition target
  | select value targets => exact underway.select routine value targets
  | finish value => exact underway.finish routine value
  | raise exception => exact underway.raise routine exception
  | leave target => exact underway.leave routine target
  | endFinally => exact underway.endFinally routine

end Underway

end Walk

end BytecodeFlow

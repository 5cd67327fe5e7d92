/-
This file shows that a turn leaves no orphans (`Walk.Rooted`), however it ends.
The entry of a handler is built before anything leads to it, and building it
may build further entries; each of them waits for one edge, which comes from
the entry that was built before it or from the node whose exceptions it
handles. Everything else that a turn adds is linked at once with the node that
the path hangs on.
-/

import BytecodeFlow.Proofs.Graph.Descent
import BytecodeFlow.Proofs.Walk.Additions

namespace BytecodeFlow

namespace Walk

/-! ### Entries of handlers -/

section Entries

variable {routine : Routine} {walk : Walk}

theorem sprouts_finallyEntry (routine : Routine) (walk : Walk) (position : Nat) :
    walk.procedure.Sprouts (walk.finallyEntry routine position).1.procedure
      [(walk.finallyEntry routine position).2] := by
  unfold finallyEntry
  split
  · split
    · exact .refl ..
    · exact .addNode walk.procedure rfl
  · exact .refl ..

/-- What is recorded as the entry of a handler `Receives` exceptions. -/
theorem EntriesApart.receives (apart : walk.EntriesApart) {offset : Offset} {entry : NodeIndex}
    (recorded : walk.entries[offset]? = some entry) : walk.procedure.Receives entry :=
  .inr (apart.kinds offset entry recorded)

theorem receives_handlerEntry (apart : walk.EntriesApart) (target : HandlerTarget) :
    (walk.handlerEntry routine target).1.procedure.Receives
      (walk.handlerEntry routine target).2 := by
  cases start? : target.start? routine.regions with
  | some start =>
    exact ((Equipped.handlerEntry walk target).apart apart).receives
      (handlerEntry_recorded walk start?)
  | none =>
    cases target with
    | «catch» position =>
      have beyond : routine.regions.catches.drop position = [] := by
        have missing : routine.regions.catches[position]? = none := Option.map_eq_none_iff.mp start?
        exact List.drop_eq_nil_of_le (List.getElem?_eq_none_iff.mp missing)
      unfold handlerEntry
      simp only [beyond]
      exact .inl rfl
    | «finally» position =>
      have missing : routine.regions.finallies[position]? = none := Option.map_eq_none_iff.mp start?
      unfold handlerEntry finallyEntry
      simp only [missing]
      exact .inl rfl

/-- A node that may still get a handler: it is `Inner`, and not the start. -/
structure Unhandled (procedure : Procedure) (index : NodeIndex) : Prop where
  inner : procedure.Inner index
  notStart : index ≠ Procedure.start
  bare : procedure.exceptionsOf index = []

theorem Unhandled.equipped {other : Walk} {index : NodeIndex}
    (unhandled : Unhandled walk.procedure index) (equipped : Equipped routine walk other) :
    Unhandled other.procedure index where
  inner := unhandled.inner.mono equipped.outgrows.extended
  notStart := unhandled.notStart
  bare := by
    rw [Procedure.exceptionsOf_congr (equipped.kept index unhandled.inner.known)]
    exact unhandled.bare

theorem Unhandled.setException {procedure : Procedure} {index source : NodeIndex}
    (unhandled : Unhandled procedure index) (other : index ≠ source) (target : NodeIndex) :
    Unhandled (procedure.setException source target) index where
  inner := unhandled.inner.mono (.setException _ _ _)
  notStart := unhandled.notStart
  bare := by
    rw [Procedure.exceptionsOf_congr (Procedure.node?_setException_of_ne _ other)]
    exact unhandled.bare

theorem sprouts_guardCatch (routine : Routine) (apart : walk.EntriesApart) (clause : CatchClause)
    {entry : NodeIndex}
    (unhandled : ∀ index, entry ≤ index → index < entry + 3 → Unhandled walk.procedure index) :
    walk.procedure.Sprouts (walk.guardCatch routine clause entry).procedure [] := by
  unfold guardCatch
  split
  next position around =>
    let guarding := (walk.finallyEntry routine position).2
    have built : Equipped routine walk (walk.finallyEntry routine position).1 :=
      .finallyEntry routine walk position
    have receives : (walk.finallyEntry routine position).1.procedure.Receives guarding :=
      receives_handlerEntry apart (.finally position)
    have first := unhandled entry (Nat.le_refl _) (Nat.lt_add_of_pos_right (by decide))
    have second := ((unhandled (entry + 1) (Nat.le_add_right ..)
      (Nat.add_lt_add_left (by decide) entry)).equipped built).setException
      (Nat.ne_of_gt (Nat.lt_succ_self entry)) guarding
    have third := (((unhandled (entry + 2) (Nat.le_add_right ..)
      (Nat.lt_succ_self _)).equipped built).setException
      (Nat.ne_of_gt (Nat.lt_add_of_pos_right Nat.two_pos)) guarding).setException
      (Nat.ne_of_gt (Nat.lt_succ_self (entry + 1))) guarding
    have sent := (sprouts_finallyEntry routine walk position).adopt_exception first.inner
      first.notStart (first.equipped built).bare receives
    have sentSecond := sent.further
      (.setException second.bare (receives.mono (.setException _ _ _)))
    exact sentSecond.further (.setException third.bare
      ((receives.mono (.setException _ _ _)).mono (.setException _ _ _)))
  · exact .refl ..

/-- Of the nodes of a catch entry only the entry waits. -/
theorem sprouts_addCatchNodes (deep : Procedure.sink < walk.procedure.size)
    (clause : CatchClause) :
    walk.procedure.Sprouts (walk.addCatchNodes routine clause).procedure [walk.procedure.size] :=
  .addFork deep rfl rfl rfl

theorem unhandled_addCatchNodes (deep : Procedure.sink < walk.procedure.size)
    (clause : CatchClause) {index : NodeIndex} (new : walk.procedure.size ≤ index)
    (known : index < walk.procedure.size + 3) :
    Unhandled (walk.addCatchNodes routine clause).procedure index := by
  have behind := Nat.lt_of_lt_of_le deep new
  have size : (walk.addCatchNodes routine clause).procedure.size = walk.procedure.size + 3 :=
    Procedure.size_addFork ..
  refine ⟨⟨by rw [size]; exact known, ?_, Nat.ne_of_gt behind⟩, ?_, ?_⟩
  · exact Nat.ne_of_gt (Nat.lt_trans (by decide) behind)
  · exact Nat.ne_of_gt (Nat.lt_trans (by decide) behind)
  · have bare : (walk.addCatchNodes routine clause).procedure.exceptionsOf index =
        walk.procedure.exceptionsOf index := by
      unfold addCatchNodes useIdents
      dsimp only
      rw [Procedure.exceptionsOf_link, Procedure.exceptionsOf_link,
        Procedure.exceptionsOf_addNode _ rfl, Procedure.exceptionsOf_addNode _ rfl,
        Procedure.exceptionsOf_addNode _ rfl]
    rw [bare, Procedure.exceptionsOf_of_size_le new]

theorem sprouts_passOn (walk : Walk) (clause : CatchClause) {rest : List CatchClause}
    (inductionHypothesis : walk.procedure.Sprouts (catchEntry routine rest walk).1.procedure
      [(catchEntry routine rest walk).2]) :
    walk.procedure.Sprouts (walk.passOn routine clause rest).1.procedure
      [(walk.passOn routine clause rest).2] := by
  unfold passOn
  split
  · exact inductionHypothesis
  · split
    · exact sprouts_finallyEntry routine walk _
    · exact .refl ..

/-- Of all the nodes that are built for the entry of a catch clause only the entry waits. -/
theorem sprouts_catchEntry (clauses : List CatchClause)
    (listed : ∀ clause ∈ clauses, clause ∈ routine.regions.catches) {walk : Walk}
    (apart : walk.EntriesApart) (deep : Procedure.sink < walk.procedure.size) :
    walk.procedure.Sprouts (catchEntry routine clauses walk).1.procedure
      [(catchEntry routine clauses walk).2] := by
  induction clauses generalizing walk with
  | nil => exact .refl ..
  | cons clause rest inductionHypothesis =>
    cases entry? : walk.entries[clause.handler.start]? with
    | some entry =>
      rw [catchEntry_known _ entry?]
      exact .refl ..
    | none =>
      rw [catchEntry_fresh _ entry?]
      have others : ∀ other ∈ rest, other ∈ routine.regions.catches := fun other member =>
        listed other (List.mem_cons_of_mem _ member)
      let entry := walk.procedure.size
      let added := walk.addCatchNodes routine clause
      let passed := added.passOn routine clause rest
      have built : Equipped routine walk added := .addCatchNodes routine walk entry?
      have further : Equipped routine added passed.1 :=
        .passOn added clause fun walk => (Equipped.catchEntry rest others walk).1
      have unhandled : ∀ index, entry ≤ index → index < entry + 3 →
          Unhandled added.procedure index := fun index => unhandled_addCatchNodes deep clause
      have addedDeep := Nat.lt_of_lt_of_le deep built.outgrows.extended.size_le
      have missed := (sprouts_passOn added clause
        (inductionHypothesis others (built.apart apart) addedDeep)).adopt_link
        (unhandled (entry + 2) (Nat.le_add_right ..) (Nat.lt_succ_self _)).inner
      have linked : ∀ index, entry ≤ index → index < entry + 3 →
          Unhandled (passed.1.procedure.link (entry + 2) passed.2) index := by
        intro index new known
        have kept := (unhandled index new known).equipped further
        refine ⟨kept.inner.mono (.link _ _ _), kept.notStart, ?_⟩
        rw [Procedure.exceptionsOf_link]
        exact kept.bare
      have linkedApart : EntriesApart { passed.1 with
          procedure := passed.1.procedure.link (entry + 2) passed.2 } :=
        (further.apart (built.apart apart)).mono rfl (.link _ _ _)
      have guarded := sprouts_guardCatch routine linkedApart clause linked
      exact ((sprouts_addCatchNodes deep clause).further missed).further guarded

theorem sprouts_handlerEntry (apart : walk.EntriesApart)
    (deep : Procedure.sink < walk.procedure.size) (target : HandlerTarget) :
    walk.procedure.Sprouts (walk.handlerEntry routine target).1.procedure
      [(walk.handlerEntry routine target).2] := by
  unfold handlerEntry
  split
  · split
    · exact .refl ..
    next position clause rest dropped =>
      refine sprouts_catchEntry _ (fun other member => ?_) apart deep
      rw [← dropped] at member
      exact List.mem_of_mem_drop member
  · exact sprouts_finallyEntry routine walk _

theorem sprouts_attachHandler (apart : walk.EntriesApart)
    (deep : Procedure.sink < walk.procedure.size) {node : NodeIndex}
    (unhandled : Unhandled walk.procedure node) :
    walk.procedure.Sprouts (walk.attachHandler routine node).procedure [] := by
  unfold attachHandler
  split
  next target guarded =>
    exact (sprouts_handlerEntry apart deep target).adopt_exception unhandled.inner
      unhandled.notStart (unhandled.equipped (.handlerEntry walk target)).bare
      (receives_handlerEntry apart target)
  · exact .refl ..

end Entries

/-! ### Operations -/

/-- A turn that started from the base has left no orphans so far: the graph `Sprouts` with no node
that waits. -/
structure Descends (base walk : Walk) : Prop where
  sprouts : base.procedure.Sprouts walk.procedure []
  apart : walk.EntriesApart
  deep : Procedure.sink < walk.procedure.size
  owner : walk.procedure.Inner walk.owner

namespace Descends

variable {base walk other : Walk} (routine : Routine)

theorem of_fields (descends : base.Descends walk) (procedure : other.procedure = walk.procedure)
    (entries : other.entries = walk.entries) (owner : other.owner = walk.owner) :
    base.Descends other where
  sprouts := by
    rw [procedure]
    exact descends.sprouts
  apart := descends.apart.mono entries (by rw [procedure]; exact .refl _)
  deep := by
    rw [procedure]
    exact descends.deep
  owner := by
    rw [procedure, owner]
    exact descends.owner

/-- A walk still `Descends` when something is built on top that belongs to an `Inner` node. -/
theorem extend (descends : base.Descends walk)
    (sprouts : walk.procedure.Sprouts other.procedure []) (apart : other.EntriesApart)
    (owner : other.procedure.Inner other.owner) : base.Descends other where
  sprouts := descends.sprouts.further sprouts
  apart
  deep := Nat.lt_of_lt_of_le descends.deep sprouts.extended.size_le
  owner

/-- From any time on a turn leaves no orphans. -/
theorem restart (descends : base.Descends walk) : walk.Descends walk :=
  { descends with sprouts := .refl .. }

theorem modify (descends : base.Descends walk) {procedure : Procedure}
    (sprouts : walk.procedure.Sprouts procedure []) :
    base.Descends { walk with procedure } :=
  descends.extend sprouts (descends.apart.mono rfl sprouts.extended)
    (descends.owner.mono sprouts.extended)

/-! ### Nodes for code -/

/-- A node that follows an inner one is not an orphan. -/
theorem addGuarded (descends : base.Descends walk) {source : NodeIndex}
    (inner : walk.procedure.Inner source) (node : Node) (bare : node.exceptions = []) :
    base.Descends (attachHandler { walk with
      procedure := (walk.procedure.addNode node).link source walk.procedure.size } routine
        walk.procedure.size) ∧
    (attachHandler { walk with
      procedure := (walk.procedure.addNode node).link source walk.procedure.size } routine
        walk.procedure.size).procedure.Inner walk.procedure.size := by
  let new := walk.procedure.size
  let linked : Walk := { walk with procedure := (walk.procedure.addNode node).link source new }
  have added : walk.procedure.Sprouts linked.procedure [] :=
    (Procedure.Sprouts.addNode walk.procedure bare).adopt_link inner
  have before : base.Descends linked := descends.modify added
  obtain ⟨newInner, notStart⟩ := Procedure.Sprouts.inner_new descends.deep node
  have unhandled : Unhandled linked.procedure new := by
    refine ⟨newInner.mono (.link _ _ _), notStart, ?_⟩
    rw [Procedure.exceptionsOf_link, Procedure.exceptionsOf_addNode _ bare,
      Procedure.exceptionsOf_of_size_le (Nat.le_refl _)]
  have attached : linked.procedure.Sprouts (linked.attachHandler routine new).procedure [] :=
    sprouts_attachHandler before.apart before.deep unhandled
  have adds : Adds routine (fun _ => True) walk (linked.attachHandler routine new) :=
    .addGuarded walk node bare source
  refine ⟨before.extend attached (adds.apart descends.apart) ?_,
    unhandled.inner.mono attached.extended⟩
  obtain ⟨_, _, _, _, _, same⟩ := attachHandler_rest routine linked new
  have owner : (linked.attachHandler routine new).owner = walk.owner := by
    rw [same]
    rfl
  rw [owner]
  exact before.owner.mono attached.extended

theorem openNode (descends : base.Descends walk) (kind : NodeKind) :
    base.Descends (walk.openNode routine kind).1 ∧
      (walk.openNode routine kind).1.procedure.Inner (walk.openNode routine kind).2 := by
  unfold Walk.openNode
  split
  next node current =>
    have owner : walk.owner = node := by rw [Walk.owner, current]; rfl
    exact ⟨descends, owner ▸ descends.owner⟩
  next current =>
    have owner : walk.owner = walk.previous := by rw [Walk.owner, current]; rfl
    obtain ⟨added, inner⟩ := descends.addGuarded routine (owner ▸ descends.owner)
      { Node.empty kind walk.location with
        blockEnd := routine.regions.blockEnd? walk.blockStart } rfl
    exact ⟨added.extend (.refl ..) (added.apart.mono rfl (.refl _)) inner, inner⟩

theorem currentNode (descends : base.Descends walk) :
    base.Descends (walk.currentNode routine).1 ∧
      (walk.currentNode routine).1.procedure.Inner (walk.currentNode routine).2 :=
  descends.openNode routine .join

theorem emit (descends : base.Descends walk) (command : Command) :
    base.Descends (walk.emit routine command) :=
  (descends.openNode routine .statement).1.modify (.append ..)

theorem addPrune (descends : base.Descends walk) {source : NodeIndex}
    (inner : walk.procedure.Inner source) (condition : Expr) (branch : Bool) (kind : BranchKind) :
    base.Descends (walk.addPrune routine source condition branch kind).1 ∧
      (walk.addPrune routine source condition branch kind).1.procedure.Inner
        (walk.addPrune routine source condition branch kind).2 :=
  descends.addGuarded routine inner _ rfl

/-! ### Going on -/

theorem fail (descends : base.Descends walk) (fault : Fault) : base.Descends (walk.fail fault) :=
  descends.of_fields rfl rfl rfl

theorem branchFrom (descends : base.Descends walk) (source : NodeIndex) (target : Offset) :
    base.Descends (walk.branchFrom routine source target) :=
  descends.of_fields rfl rfl rfl

theorem fallThrough (descends : base.Descends walk) :
    base.Descends (walk.fallThrough routine) := by
  unfold Walk.fallThrough
  split
  · exact descends.of_fields rfl rfl rfl
  · exact descends.fail _

theorem jump (descends : base.Descends walk) (target : Offset) :
    base.Descends (walk.jump routine target) :=
  (descends.currentNode routine).1.branchFrom routine _ target

/-- Two ways out of an inner node. -/
theorem addPrunes (descends : base.Descends walk) {source : NodeIndex}
    (inner : walk.procedure.Inner source) (condition : Expr) (kind : BranchKind) :
    let (first, _) := walk.addPrune routine source condition true kind
    let (second, notTaken) := first.addPrune routine source (.not condition) false kind
    base.Descends second ∧ second.procedure.Inner notTaken := by
  obtain ⟨added, -⟩ := descends.addPrune routine inner condition true kind
  have grown : walk.procedure.Extends
      (walk.addPrune routine source condition true kind).1.procedure :=
    (descends.restart.addPrune routine inner condition true kind).1.sprouts.extended
  exact added.addPrune routine (inner.mono grown) (.not condition) false kind

theorem branch (descends : base.Descends walk) (condition : Expr) (target : Offset) :
    base.Descends (walk.branch routine condition target) := by
  unfold Walk.branch
  split
  next next following =>
    obtain ⟨opened, inner⟩ := descends.currentNode routine
    obtain ⟨forked, -⟩ := opened.addPrunes routine inner condition .conditional
    exact (forked.branchFrom routine _ next).branchFrom routine _ target
  · exact descends.fail _

theorem addCases (value : Expr) (targets : List Offset) (position : Nat) {source : NodeIndex}
    (reversed : List (NodeIndex × Offset)) (descends : base.Descends walk)
    (inner : walk.procedure.Inner source) :
    base.Descends (Walk.addCases routine value position targets source reversed walk).1 := by
  induction targets generalizing position source reversed walk with
  | nil => exact descends
  | cons target rest inductionHypothesis =>
    obtain ⟨forked, last⟩ := descends.addPrunes routine inner (.binary .equal value (.int position))
      .switch
    exact inductionHypothesis (position + 1) _ forked last

theorem branchFrom_each (cases : List (NodeIndex × Offset)) (descends : base.Descends walk) :
    base.Descends (cases.foldl (fun walk (taken, target) => walk.branchFrom routine taken target)
      walk) := by
  induction cases generalizing walk with
  | nil => exact descends
  | cons one rest inductionHypothesis =>
    exact inductionHypothesis (descends.branchFrom routine one.1 one.2)

theorem select (descends : base.Descends walk) (value : Expr) (targets : List Offset) :
    base.Descends (walk.select routine value targets) := by
  unfold Walk.select
  split
  next next following =>
    obtain ⟨opened, inner⟩ := descends.currentNode routine
    have added := opened.addCases routine value targets 0 [] inner
    exact branchFrom_each routine _ (added.branchFrom routine _ next)
  · exact descends.fail _

/-! ### Calls -/

theorem load (descends : base.Descends walk) (address : Expr) (typ : Typ) :
    base.Descends (walk.load routine address typ) := by
  have used : base.Descends (walk.useIdents 1) := descends.of_fields rfl rfl rfl
  exact (used.emit routine _).of_fields rfl rfl rfl

theorem invoke (descends : base.Descends walk) (callee : MethodRef) (arguments : List Value)
    (isVirtual : Bool) : base.Descends (walk.invoke routine callee arguments isVirtual) := by
  have used : base.Descends (walk.useIdents 1) := descends.of_fields rfl rfl rfl
  unfold Walk.invoke
  dsimp only
  split
  · exact used.emit routine _
  · exact (used.emit routine _).of_fields rfl rfl rfl

theorem construct (descends : base.Descends walk) (callee : MethodRef) (arguments : List Value) :
    base.Descends (walk.construct routine callee arguments) := by
  have used : base.Descends (walk.useIdents 1) := descends.of_fields rfl rfl rfl
  have allocated := used.emit routine (.call walk.nextIdent
    (.ofName callee.declaringType) (.function allocateFunction)
    [⟨.sizeOf (Typ.ofName callee.declaringType).stripPointer, .void⟩] false walk.location)
  have usedAgain : base.Descends (Walk.useIdents (Walk.emit (walk.useIdents 1) routine _) 1) :=
    allocated.of_fields rfl rfl rfl
  exact (usedAgain.emit routine _).of_fields rfl rfl rfl

/-! ### Leaving -/

theorem finish (descends : base.Descends walk) (value : Option Expr) :
    base.Descends (walk.finish routine value) := by
  cases value with
  | some value => exact ((descends.emit routine _).currentNode routine).1.modify (.link ..)
  | none => exact (descends.currentNode routine).1.modify (.link ..)

/-- The node that throws leads to the handler. -/
theorem linkDestination (descends : base.Descends walk) {node : NodeIndex}
    (inner : walk.procedure.Inner node) :
    base.Descends { (walk.exceptionDestination routine).1 with
      procedure := (walk.exceptionDestination routine).1.procedure.link node
        (walk.exceptionDestination routine).2 } := by
  unfold exceptionDestination
  split
  next target guarded =>
    have built : Equipped routine walk (walk.handlerEntry routine target).1 :=
      .handlerEntry walk target
    have entered : walk.procedure.Sprouts (walk.handlerEntry routine target).1.procedure
        [(walk.handlerEntry routine target).2] :=
      sprouts_handlerEntry descends.apart descends.deep target
    have linked := entered.adopt_link inner
    refine descends.extend linked ((built.apart descends.apart).mono rfl (.link _ _ _)) ?_
    have owner : (walk.handlerEntry routine target).1.owner = walk.owner := by
      obtain ⟨_, _, _, _, _, same⟩ := built.rest
      rw [same]
      rfl
    exact owner.symm ▸ descends.owner.mono linked.extended
  · exact descends.modify (.link ..)

theorem raise (descends : base.Descends walk) (exception : Value) :
    base.Descends (walk.raise routine exception) := by
  obtain ⟨opened, inner⟩ := (descends.emit routine
    (.store .returnSlot (.thrown exception.expr) exception.typ walk.location)).currentNode routine
  exact opened.linkDestination routine inner

theorem enterFinally (descends : base.Descends walk) (position : Nat) (exit : FinallyExit) :
    base.Descends (walk.enterFinally routine position exit) := by
  unfold Walk.enterFinally
  split
  · exact (descends.currentNode routine).1.of_fields rfl rfl rfl
  · exact descends.fail _

theorem leave (descends : base.Descends walk) (target : Offset) :
    base.Descends (walk.leave routine target) := by
  have cleared : base.Descends { walk with stack := [] } := descends.of_fields rfl rfl rfl
  unfold Walk.leave
  dsimp only
  split
  · exact cleared.enterFinally routine _ _
  · exact cleared.jump routine target

theorem endFinally (descends : base.Descends walk) :
    base.Descends (walk.endFinally routine) := by
  unfold Walk.endFinally
  split
  · have cleared : base.Descends { walk with stack := [], finallyExit := none } :=
      descends.of_fields rfl rfl rfl
    exact cleared.jump routine _
  · have cleared : base.Descends { walk with finallyExit := none } :=
      descends.of_fields rfl rfl rfl
    exact cleared.raise routine _
  · exact descends.fail _

/-- After `perform` a walk `Descends` from its base, even if it fails halfway. -/
theorem perform (descends : base.Descends walk) (operation : Operation) :
    base.Descends (walk.perform routine operation) := by
  cases operation with
  | proceed => exact descends.fallThrough routine
  | load address typ => exact (descends.load routine address typ).fallThrough routine
  | store address typ value => exact (descends.emit routine _).fallThrough routine
  | invoke callee arguments isVirtual =>
    exact (descends.invoke routine callee arguments isVirtual).fallThrough routine
  | construct callee arguments =>
    exact (descends.construct routine callee arguments).fallThrough routine
  | jump target => exact descends.jump routine target
  | branch condition target => exact descends.branch routine condition target
  | select value targets => exact descends.select routine value targets
  | finish value => exact descends.finish routine value
  | raise exception => exact descends.raise routine exception
  | leave target => exact descends.leave routine target
  | endFinally => exact descends.endFinally routine

end Descends

/-! ### Turns -/

variable {routine : Routine} {limits : Limits} {before after : Walk} {pending : Pending}
  {outcome : Option Outcome}

theorem Turned.descends {offset : Offset} {arrived : Walk} (start : arrived.Descends arrived)
    (turned : Turned routine offset arrived after outcome) : arrived.Descends after := by
  cases turned with
  | joined node shared => exact start.modify (.link ..)
  | halted location reason remaining => exact start.of_fields rfl rfl rfl
  | performed instruction resolved =>
    have ready : arrived.Descends (arrived.ready routine instruction resolved.stack) :=
      start.of_fields rfl rfl rfl
    exact ready.perform routine resolved.operation

/-- A walk whose graph has no orphans, in the sense of `Procedure.Rooted`. -/
structure Rooted (walk : Walk) : Prop where
  rooted : walk.procedure.Rooted
  apart : walk.EntriesApart

/-- A turn leaves a walk `Rooted`, also if it gives the method up. -/
theorem TakesUp.rooted (takesUp : TakesUp routine limits before pending after outcome)
    (linear : before.Linear []) (rooted : before.Rooted) : after.Rooted := by
  obtain ⟨rest, left, waiting, turned, -, -⟩ := takesUp.underway linear
  have arrived := arrive_underway linear waiting
  obtain ⟨known, -, notExit, notSink⟩ := arrived.linear.loose _ List.mem_cons_self
  have start : (before.arrive pending rest).Descends (before.arrive pending rest) :=
    { sprouts := .refl ..
      apart := rooted.apart.mono rfl (.refl _)
      deep := rooted.rooted.deep
      owner := ⟨known, notExit, notSink⟩ }
  have descends := turned.descends start
  exact ⟨rooted.rooted.sprouts descends.sprouts, descends.apart⟩

theorem Turns.rooted (turns : Turns routine limits before after) (linear : before.Linear [])
    (rooted : before.Rooted) : after.Rooted := by
  induction turns with
  | refl => exact rooted
  | tail turns turn inductionHypothesis =>
    obtain ⟨pending, takesUp⟩ := turn
    exact takesUp.rooted (Turns.linear turns linear) inductionHypothesis

/-- A run leaves a walk `Rooted`, however it ends. -/
theorem Ends.rooted {outcome : Outcome} (ends : Ends routine limits before after outcome)
    (linear : before.Linear []) (rooted : before.Rooted) : after.Rooted := by
  cases ends with
  | complete _ turns finished => exact Turns.rooted turns linear rooted
  | abandoned last _ pending _ turns takesUp =>
    exact takesUp.rooted (Turns.linear turns linear) (Turns.rooted turns linear rooted)

end Walk

end BytecodeFlow

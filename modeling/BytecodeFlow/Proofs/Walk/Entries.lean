/-
This file shows that building the entries of handlers keeps a turn in order
(`Underway`). An entry is a new node which paths may join. A `catchEntry` has
the two ways out of its type test; one of them waits for the code of the
handler, and the other leads on to the entry of the next clause, of the
finally, or to the sink. So whatever is in hand before an entry is built is in
hand afterwards.
-/

import BytecodeFlow.Proofs.Walk.Underway
import BytecodeFlow.Proofs.Walk.Handlers

namespace BytecodeFlow

namespace Procedure

/-- A new node that is not a branch is `Joinable`. -/
theorem Shaped.joinable_new {procedure : Procedure} (shaped : procedure.Shaped) {node : Node}
    (notPrune : ∀ branch kind, node.kind ≠ .prune branch kind) :
    (procedure.addNode node).Joinable procedure.size where
  known := by
    rw [size_addNode]
    exact Nat.lt_succ_self _
  notStart := Nat.ne_of_gt (Nat.lt_trans (by decide) shaped.sink_lt)
  notPrune := by
    rintro ⟨branch, kind, prune⟩
    rw [kind?_addNode_self] at prune
    exact notPrune branch kind (Option.some.inj prune)

/-- A new node `Prunes` by its first command. -/
theorem prunes_new {procedure : Procedure} {node : Node} {condition : Expr} {branch : Bool}
    {kind : BranchKind} {location : Location} (pruneKind : node.kind = .prune branch kind)
    (first : node.commands.head? = some (.prune condition branch kind location)) :
    (procedure.addNode node).Prunes procedure.size condition branch kind := by
  refine ⟨by rw [kind?_addNode_self, pruneKind], location, ?_⟩
  rw [commandsOf, node?_addNode_self]
  exact first

/-- Nothing leads to a node that is not there. -/
theorem Shaped.not_mem_successorsOf {procedure : Procedure} (shaped : procedure.Shaped)
    {target : NodeIndex} (beyond : procedure.size ≤ target) (source : NodeIndex) :
    target ∉ procedure.successorsOf source := fun edge =>
  Nat.not_le_of_lt (shaped.leadsOn source target edge).2 beyond

end Procedure

namespace Walk

namespace Underway

variable {base walk : Walk} {held : List NodeIndex} (routine : Routine)

/-! ### Finally clauses -/

theorem addFinallyEntry (underway : base.Underway walk held) (clause : FinallyClause)
    (fresh : walk.entries[clause.handler.start]? = none) :
    base.Underway (walk.addFinallyEntry routine clause) held ∧
      (walk.addFinallyEntry routine clause).procedure.Joinable walk.procedure.nextIndex := by
  have joinable : (walk.procedure.addNode (finallyEntryNode walk.nextIdent
      (routine.locationAt clause.handler.start walk.location))).Joinable walk.procedure.size :=
    underway.linear.shaped.joinable_new fun _ _ impossible => by cases impossible
  have added := underway.addNode (finallyEntryNode walk.nextIdent
    (routine.locationAt clause.handler.start walk.location)) rfl
  have entered := added.record_entry joinable clause.handler.start fresh
  refine ⟨queue (entered.of_fields rfl rfl rfl rfl rfl rfl) ?_, joinable⟩
  intro node continued
  cases continued

theorem finallyEntry (underway : base.Underway walk held) (position : Nat) :
    base.Underway (walk.finallyEntry routine position).1 held ∧
      (walk.finallyEntry routine position).1.procedure.Joinable
        (walk.finallyEntry routine position).2 := by
  unfold Walk.finallyEntry
  cases clause? : routine.regions.finallies[position]? with
  | none =>
    exact ⟨underway.of_fields rfl rfl rfl rfl rfl rfl, underway.linear.shaped.joinable_sink⟩
  | some clause =>
    dsimp only
    cases entry? : walk.entries[clause.handler.start]? with
    | some entry => exact ⟨underway, underway.linear.entries _ _ entry?⟩
    | none => exact underway.addFinallyEntry routine clause entry?

/-! ### Catch clauses -/

/-- The three nodes of a catch entry: its two ways out come into hand. -/
theorem addCatchNodes (underway : base.Underway walk held) (clause : CatchClause)
    (fresh : walk.entries[clause.handler.start]? = none) :
    base.Underway (walk.addCatchNodes routine clause)
      ((walk.procedure.size + 2) :: (walk.procedure.size + 1) :: held) := by
  have shaped := underway.linear.shaped
  let entry := walk.procedure.size
  let exception : Ident := ⟨walk.nextStamp⟩
  let unwrapped : Ident := ⟨walk.nextStamp + 1⟩
  let test : Ident := ⟨walk.nextStamp + 2⟩
  let location := routine.locationAt clause.handler.start walk.location
  let blockEnd := routine.regions.blockEnd? clause.handler.start
  let entryNode := catchEntryNode (.ofName clause.catchType) exception unwrapped test location
  let caughtNode := pruneNode (.var test) true .conditional location blockEnd
  let missed := missedNode unwrapped test location blockEnd
  let first := walk.procedure.addNode entryNode
  let second := first.addNode caughtNode
  let third := second.addNode missed
  have firstSize : first.size = entry + 1 := Procedure.size_addNode ..
  have secondSize : second.size = entry + 2 := by rw [Procedure.size_addNode, firstSize]
  have thirdSize : third.size = entry + 3 := by rw [Procedure.size_addNode, secondSize]
  have edges : ∀ index, third.successorsOf index = walk.procedure.successorsOf index := by
    intro index
    rw [Procedure.successorsOf_addNode _ rfl, Procedure.successorsOf_addNode _ rfl,
      Procedure.successorsOf_addNode _ rfl]
  have alone : ∀ target, entry ≤ target → ∀ index, target ∉ third.successorsOf index := by
    intro target beyond index
    rw [edges]
    exact shaped.not_mem_successorsOf beyond index
  -- The nodes are added one after the other, and the entry is the first to be taken out of hand.
  have added : base.Underway { walk with procedure := third }
      (entry :: (entry + 2) :: (entry + 1) :: held) := by
    have all := ((underway.addNode entryNode rfl).addNode caughtNode rfl).addNode missed rfl
    dsimp only at all
    rw [show (walk.procedure.addNode entryNode).size = entry + 1 from firstSize,
      show ((walk.procedure.addNode entryNode).addNode caughtNode).size = entry + 2 from secondSize]
      at all
    have moved : List.Perm ([entry + 2, entry + 1] ++ entry :: held)
        (entry :: (entry + 2) :: (entry + 1) :: held) := List.perm_middle
    exact all.perm moved
  have within : entry + 1 < third.size := by omega
  have linked := added.link within (Nat.succ_ne_zero _)
    fun _ => alone (entry + 1) (Nat.le_succ _)
  have only : (third.link entry (entry + 1)).successorsOf entry = [entry + 1] := by
    have known : entry < third.size := by omega
    rw [Procedure.successorsOf_link_self known (alone _ (Nat.le_succ _) _), edges,
      Procedure.successorsOf_of_size_le (Nat.le_refl _)]
    rfl
  have holds : third.Prunes (entry + 1) (.var test) true .conditional := by
    have prunes : second.Prunes first.size (.var test) true .conditional :=
      Procedure.prunes_new rfl rfl
    rw [firstSize] at prunes
    exact prunes.addNode missed
  have fails : third.Prunes (entry + 2) (.not (.var test)) false .conditional := by
    have prunes : third.Prunes second.size (.not (.var test)) false .conditional :=
      Procedure.prunes_new rfl rfl
    rwa [secondSize] at prunes
  have forked := linked.link_second (.inr underway.grown) only (holds.link _ _) (fails.link _ _)
    (fun index edge => (Procedure.mem_successorsOf_link edge).elim
      (alone _ (Nat.le_add_right ..) index) fun new => Nat.succ_ne_self _ new.2)
    (Nat.succ_ne_zero _)
  have joinable : ((third.link entry (entry + 1)).link entry (entry + 2)).Joinable entry := by
    have new : first.Joinable entry :=
      shaped.joinable_new fun _ _ impossible => by cases impossible
    refine new.mono ?_ fun known => ?_
    · rw [Procedure.size_link, Procedure.size_link]
      omega
    · have later : entry < second.size := by omega
      rw [Procedure.kind?_link, Procedure.kind?_link, Procedure.kind?_addNode_of_lt later,
        Procedure.kind?_addNode_of_lt known]
  have entered := forked.record_entry joinable clause.handler.start fresh
  exact entered.of_fields rfl rfl rfl rfl rfl rfl

theorem guardCatchNodes (underway : base.Underway walk held) {entry : NodeIndex}
    (new : base.procedure.size ≤ entry) (finallyEntry : NodeIndex) :
    base.Underway (walk.guardCatchNodes entry finallyEntry) held :=
  ((underway.setException new _).setException (Nat.le_add_right_of_le new) _).setException
    (Nat.le_add_right_of_le new) _

theorem passOn (clause : CatchClause) (rest : List CatchClause)
    (inductionHypothesis : ∀ {walk : Walk} {held : List NodeIndex}, base.Underway walk held →
      base.Underway (catchEntry routine rest walk).1 held ∧
        (catchEntry routine rest walk).1.procedure.Joinable (catchEntry routine rest walk).2)
    (underway : base.Underway walk held) :
    base.Underway (walk.passOn routine clause rest).1 held ∧
      (walk.passOn routine clause rest).1.procedure.Joinable
        (walk.passOn routine clause rest).2 := by
  unfold Walk.passOn
  split
  · exact inductionHypothesis underway
  · split
    · exact underway.finallyEntry routine _
    · exact ⟨underway, underway.linear.shaped.joinable_sink⟩

theorem guardCatch (underway : base.Underway walk held) {entry : NodeIndex}
    (new : base.procedure.size ≤ entry) (clause : CatchClause) :
    base.Underway (walk.guardCatch routine clause entry) held := by
  unfold Walk.guardCatch
  split
  · exact (underway.finallyEntry routine _).1.guardCatchNodes new _
  · exact underway

theorem catchEntry (clauses : List CatchClause)
    (listed : ∀ clause ∈ clauses, clause ∈ routine.regions.catches)
    (underway : base.Underway walk held) :
    base.Underway (Walk.catchEntry routine clauses walk).1 held ∧
      (Walk.catchEntry routine clauses walk).1.procedure.Joinable
        (Walk.catchEntry routine clauses walk).2 := by
  induction clauses generalizing walk held with
  | nil => exact ⟨underway, underway.linear.shaped.joinable_sink⟩
  | cons clause rest inductionHypothesis =>
    have recorded := (Equipped.catchEntry (clause :: rest) listed walk).2 clause rfl
    cases entry? : walk.entries[clause.handler.start]? with
    | some entry =>
      rw [catchEntry_known _ entry?]
      exact ⟨underway, underway.linear.entries _ _ entry?⟩
    | none =>
      have added := underway.addCatchNodes routine clause entry?
      obtain ⟨passed, onward⟩ := added.passOn routine clause rest
        (inductionHypothesis fun other member => listed other (List.mem_cons_of_mem _ member))
      have guarded := (passed.join onward).guardCatch routine underway.grown clause
      rw [catchEntry_fresh _ entry?] at recorded ⊢
      refine ⟨guarded.queue ?_, guarded.linear.entries _ _ recorded⟩
      intro node continued
      cases continued

/-! ### Handlers of offsets -/

theorem handlerEntry (underway : base.Underway walk held) (target : HandlerTarget) :
    base.Underway (walk.handlerEntry routine target).1 held ∧
      (walk.handlerEntry routine target).1.procedure.Joinable
        (walk.handlerEntry routine target).2 := by
  unfold Walk.handlerEntry
  split
  · split
    · exact ⟨underway.of_fields rfl rfl rfl rfl rfl rfl, underway.linear.shaped.joinable_sink⟩
    · rename_i position clause rest dropped
      refine underway.catchEntry routine _ fun other member => ?_
      rw [← dropped] at member
      exact List.mem_of_mem_drop member
  · exact underway.finallyEntry routine _

/-- The exceptions of a new node are sent to its handler. -/
theorem attachHandler (underway : base.Underway walk held) {node : NodeIndex}
    (new : base.procedure.size ≤ node) :
    base.Underway (walk.attachHandler routine node) held := by
  unfold Walk.attachHandler
  split
  · exact (underway.handlerEntry routine _).1.setException new _
  · exact underway

theorem exceptionDestination (underway : base.Underway walk held) :
    base.Underway (walk.exceptionDestination routine).1 held ∧
      (walk.exceptionDestination routine).1.procedure.Joinable
        (walk.exceptionDestination routine).2 := by
  unfold Walk.exceptionDestination
  split
  · exact underway.handlerEntry routine _
  · exact ⟨underway, underway.linear.shaped.joinable_sink⟩

end Underway

end Walk

end BytecodeFlow

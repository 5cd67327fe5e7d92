/-
This file says what a turn adds to a walk (`Adds`). Each node that it adds
belongs to the entry of a handler, or was opened for the code at the offset of
the turn, and then its exceptions go to the handler of that offset
(`GuardedFor`). Each path that it queues leads into a handler whose entry was
built, or is a way on from the instruction (`WayOn`).
-/

import BytecodeFlow.Proofs.Walk.Resolution
import BytecodeFlow.Proofs.Walk.Turning

namespace BytecodeFlow

namespace Walk

/-! ### What is added -/

/-- The exceptions of a node go to the entry of the handler that `exceptionTarget?` gives an offset,
and nowhere if it gives none. -/
def GuardedFor (routine : Routine) (walk : Walk) (offset : Offset) (index : NodeIndex) : Prop :=
  match routine.regions.exceptionTarget? offset with
  | none => walk.procedure.exceptionsOf index = []
  | some target => ∃ start entry, target.start? routine.regions = some start ∧
      walk.entries[start]? = some entry ∧ walk.procedure.exceptionsOf index = [entry]

theorem GuardedFor.mono {routine : Routine} {earlier later : Walk} {offset : Offset}
    {index : NodeIndex} (guarded : GuardedFor routine earlier offset index)
    (outgrows : later.Outgrows earlier)
    (kept : later.procedure.exceptionsOf index = earlier.procedure.exceptionsOf index) :
    GuardedFor routine later offset index := by
  unfold GuardedFor at guarded ⊢
  split at guarded
  · rw [kept]
    exact guarded
  · obtain ⟨start, entry, starts, recorded, goes⟩ := guarded
    exact ⟨start, entry, starts, outgrows.entriesKept _ _ recorded, kept.trans goes⟩

/-- What is added between two walks: nodes that are `HandlerMade` or `GuardedFor` the offset, and
paths that are allowed or a `HandlerStart`. -/
structure Adds (routine : Routine) (allowed : Pending → Prop) (before after : Walk) : Prop where
  outgrows : after.Outgrows before
  offset : after.offset = before.offset
  exceptionsKept : ∀ index < before.procedure.size,
    after.procedure.exceptionsOf index = before.procedure.exceptionsOf index
  made : ∀ index, before.procedure.size ≤ index → index < after.procedure.size →
    after.procedure.HandlerMade index ∨ GuardedFor routine after before.offset index
  apart : before.EntriesApart → after.EntriesApart
  queued : ∃ pushed, after.worklist = pushed ++ before.worklist ∧
    ∀ pending ∈ pushed, HandlerStart routine after pending ∨ allowed pending

namespace Adds

variable {routine : Routine} {allowed : Pending → Prop} {before walk after : Walk}

theorem of_equipped (equipped : Equipped routine before after) :
    Adds routine allowed before after where
  outgrows := equipped.outgrows
  offset := by
    obtain ⟨_, _, _, _, _, rfl⟩ := equipped.rest
    rfl
  exceptionsKept index known := Procedure.exceptionsOf_congr (equipped.kept index known)
  made index new known := .inl (equipped.made index new known)
  apart := equipped.apart
  queued := by
    obtain ⟨pushed, worklist, starts⟩ := equipped.queued
    exact ⟨pushed, worklist, fun pending member => .inl (starts pending member)⟩

theorem trans (former : Adds routine allowed before walk)
    (latter : Adds routine allowed walk after) :
    Adds routine allowed before after where
  outgrows := former.outgrows.trans latter.outgrows
  offset := latter.offset.trans former.offset
  exceptionsKept index known := (latter.exceptionsKept index
    (Nat.lt_of_lt_of_le known former.outgrows.extended.size_le)).trans
      (former.exceptionsKept index known)
  made := by
    intro index new known
    by_cases old : index < walk.procedure.size
    · rcases former.made index new old with handler | guarded
      · exact .inl (handler.mono latter.outgrows.extended)
      · exact .inr (guarded.mono latter.outgrows (latter.exceptionsKept index old))
    · have added := latter.made index (Nat.le_of_not_lt old) known
      rw [former.offset] at added
      exact added
  apart apart := latter.apart (former.apart apart)
  queued := by
    obtain ⟨pushed, worklist, allowed⟩ := former.queued
    obtain ⟨more, grown, moreAllowed⟩ := latter.queued
    refine ⟨more ++ pushed, by rw [grown, worklist, List.append_assoc], ?_⟩
    intro pending member
    rcases List.mem_append.mp member with new | old
    · exact moreAllowed pending new
    · exact (allowed pending old).imp_left fun start => start.mono latter.outgrows

/-- By `Adds`, changes to the rest of a walk add nothing. -/
theorem of_fields (procedure : after.procedure = before.procedure)
    (entries : after.entries = before.entries) (worklist : after.worklist = before.worklist)
    (offset : after.offset = before.offset) : Adds routine allowed before after where
  outgrows := ⟨by rw [procedure]; exact .refl _, fun _ _ found => by rw [entries]; exact found⟩
  offset := offset
  exceptionsKept index _ := by rw [procedure]
  made index new known := by
    rw [procedure] at known
    exact absurd known (Nat.not_lt_of_le new)
  apart apart := apart.mono entries (by rw [procedure]; exact .refl _)
  queued := ⟨[], worklist, fun _ member => absurd member List.not_mem_nil⟩

theorem refl (walk : Walk) : Adds routine allowed walk walk := of_fields rfl rfl rfl rfl

/-- Changes of nodes that do not touch their exceptions add nothing. -/
theorem modify {index : NodeIndex} {change : Node → Node}
    (grows : ∀ node : Node, node.GrowsTo (change node))
    (same : ∀ node, (change node).exceptions = node.exceptions) :
    Adds routine allowed walk
      { walk with procedure := walk.procedure.modifyNode index change } where
  outgrows := ⟨.modifyNode _ _ grows, fun _ _ found => found⟩
  offset := rfl
  exceptionsKept other _ := congrArg (Option.getD · [])
    (Procedure.map_modifyNode Node.exceptions same ..)
  made other new known := by
    rw [Procedure.size_modifyNode] at known
    exact absurd known (Nat.not_lt_of_le new)
  apart apart := apart.mono rfl (.modifyNode _ _ grows)
  queued := ⟨[], rfl, fun _ member => absurd member List.not_mem_nil⟩

theorem append (index : NodeIndex) (commands : List Command) :
    Adds routine allowed walk { walk with procedure := walk.procedure.append index commands } :=
  modify (fun _ => ⟨rfl, List.prefix_append _ _, List.prefix_refl _⟩) fun _ => rfl

theorem link (source target : NodeIndex) :
    Adds routine allowed walk { walk with procedure := walk.procedure.link source target } := by
  refine modify (fun node => ?_) fun node => ?_
  · split
    · exact .refl node
    · exact ⟨rfl, List.prefix_refl _, List.prefix_append _ _⟩
  · split <;> rfl

theorem imp {other : Pending → Prop} (adds : Adds routine allowed before after)
    (implies : ∀ pending, allowed pending → other pending) : Adds routine other before after :=
  { adds with
    queued := by
      obtain ⟨pushed, worklist, permitted⟩ := adds.queued
      exact ⟨pushed, worklist, fun pending member =>
        (permitted pending member).imp_right (implies pending)⟩ }

theorem queue {pending : Pending} (permitted : allowed pending) :
    Adds routine allowed walk (walk.queue pending) where
  outgrows := ⟨.refl _, fun _ _ found => found⟩
  offset := rfl
  exceptionsKept _ _ := rfl
  made _ new known := absurd known (Nat.not_lt_of_le new)
  apart apart := apart.mono rfl (.refl _)
  queued := ⟨[pending], rfl, fun other member => by
    rw [List.mem_singleton.mp member]
    exact .inr permitted⟩

/-! ### Nodes for code -/

/-- A new node is `GuardedFor` the offset. -/
theorem addGuarded (walk : Walk) (node : Node) (bare : node.exceptions = [])
    (source : NodeIndex) :
    Adds routine allowed walk (attachHandler { walk with
      procedure := (walk.procedure.addNode node).link source walk.procedure.size } routine
        walk.procedure.size) := by
  let new := walk.procedure.size
  let linked : Walk := { walk with procedure := (walk.procedure.addNode node).link source new }
  have linkedSize : linked.procedure.size = new + 1 := by
    rw [Procedure.size_link, Procedure.size_addNode]
  have extended : walk.procedure.Extends linked.procedure :=
    (Procedure.Extends.addNode walk.procedure node).trans (.link _ source new)
  have old : ∀ index < new, linked.procedure.exceptionsOf index =
      walk.procedure.exceptionsOf index := by
    intro index known
    rw [Procedure.exceptionsOf_link]
    exact Procedure.exceptionsOf_congr
      (Procedure.node?_addNode_of_ne _ _ (Nat.ne_of_lt known))
  have fresh : linked.procedure.exceptionsOf new = [] := by
    rw [Procedure.exceptionsOf_link, Procedure.exceptionsOf, Procedure.node?_addNode_self]
    exact bare
  have grows : linked.Outgrows walk := ⟨extended, fun _ _ found => found⟩
  rcases attachHandler_cases routine linked new with
    ⟨unguarded, same⟩ | ⟨target, equipped, entry, guarded, built, recorded, same⟩
  · rw [same]
    refine ⟨grows, rfl, old, fun index beyond known => .inr ?_,
      fun apart => apart.mono rfl extended, [], rfl, fun _ member => absurd member List.not_mem_nil⟩
    have within : index < new + 1 := by
      rw [← linkedSize]
      exact known
    rw [Nat.le_antisymm (Nat.le_of_lt_succ within) beyond, GuardedFor, unguarded]
    exact fresh
  · rw [same]
    have attached : equipped.procedure.Extends (equipped.procedure.setException new entry) :=
      .setException _ new entry
    have later : Outgrows { equipped with
      procedure := equipped.procedure.setException new entry } equipped :=
      ⟨attached, fun _ _ found => found⟩
    refine ⟨(grows.trans built.outgrows).trans later, ?_, ?_, ?_, ?_, ?_⟩
    · obtain ⟨_, _, _, _, _, rfl⟩ := built.rest
      rfl
    · intro index known
      rw [← old index known]
      refine Procedure.exceptionsOf_congr ?_
      rw [Procedure.node?_setException_of_ne _ (Nat.ne_of_lt known)]
      exact built.kept index (linkedSize ▸ Nat.lt_succ_of_lt known)
    · intro index beyond known
      rw [Procedure.size_setException] at known
      by_cases isNew : index = new
      · refine .inr ?_
        obtain ⟨start, starts⟩ := (Regions.handles_exceptionTarget? guarded).start?
        rw [isNew, GuardedFor, show routine.regions.exceptionTarget? walk.offset = some target from
          guarded]
        refine ⟨start, entry, starts, recorded start starts, ?_⟩
        obtain ⟨node, found⟩ := Procedure.node?_isSome.mpr (isNew ▸ known)
        rw [Procedure.exceptionsOf, Procedure.node?_setException_self found]
        rfl
      · refine .inl ((built.made index ?_ known).mono attached)
        rw [linkedSize]
        exact Nat.lt_of_le_of_ne beyond (Ne.symm isNew)
    · exact fun apart => (built.apart (apart.mono rfl extended)).mono rfl attached
    · obtain ⟨pushed, worklist, starts⟩ := built.queued
      exact ⟨pushed, worklist, fun pending member => .inl ((starts pending member).mono later)⟩

theorem addBlockNode (walk : Walk) (kind : NodeKind) :
    Adds routine allowed walk (walk.addBlockNode routine kind) :=
  (addGuarded walk { Node.empty kind walk.location with
    blockEnd := routine.regions.blockEnd? walk.blockStart } rfl walk.previous).trans
    (of_fields rfl rfl rfl rfl)

theorem openNode (walk : Walk) (kind : NodeKind) :
    Adds routine allowed walk (walk.openNode routine kind).1 := by
  unfold Walk.openNode
  split
  · exact refl walk
  · exact addBlockNode walk kind

theorem currentNode (walk : Walk) : Adds routine allowed walk (walk.currentNode routine).1 :=
  openNode walk .join

theorem emit (walk : Walk) (command : Command) :
    Adds routine allowed walk (walk.emit routine command) :=
  (openNode walk .statement).trans (append _ _)

theorem addPrune (walk : Walk) (source : NodeIndex) (condition : Expr) (branch : Bool)
    (kind : BranchKind) :
    Adds routine allowed walk (walk.addPrune routine source condition branch kind).1 :=
  addGuarded walk _ rfl source

theorem useIdents (walk : Walk) (count : Nat) : Adds routine allowed walk (walk.useIdents count) :=
  of_fields rfl rfl rfl rfl

theorem push (walk : Walk) (value : Value) : Adds routine allowed walk (walk.push value) :=
  of_fields rfl rfl rfl rfl

theorem load (walk : Walk) (address : Expr) (typ : Typ) :
    Adds routine allowed walk (walk.load routine address typ) :=
  ((useIdents walk 1).trans (emit _ _)).trans (push _ _)

theorem invoke (walk : Walk) (callee : MethodRef) (arguments : List Value) (isVirtual : Bool) :
    Adds routine allowed walk (walk.invoke routine callee arguments isVirtual) := by
  unfold Walk.invoke
  dsimp only
  split
  · exact (useIdents walk 1).trans (emit _ _)
  · exact ((useIdents walk 1).trans (emit _ _)).trans (push _ _)

theorem construct (walk : Walk) (callee : MethodRef) (arguments : List Value) :
    Adds routine allowed walk (walk.construct routine callee arguments) :=
  ((((useIdents walk 1).trans (emit _ _)).trans (useIdents _ 1)).trans (emit _ _)).trans (push _ _)

end Adds

/-! ### The way out of a finally -/

section Exit

variable (routine : Routine) (walk : Walk)

theorem finallyExit_attachHandler (node : NodeIndex) :
    (walk.attachHandler routine node).finallyExit = walk.finallyExit := by
  obtain ⟨_, _, _, _, _, same⟩ := attachHandler_rest routine walk node
  rw [same]

theorem finallyExit_openNode (kind : NodeKind) :
    (walk.openNode routine kind).1.finallyExit = walk.finallyExit := by
  unfold openNode
  split
  · rfl
  · exact finallyExit_attachHandler routine { walk with procedure := _ } _

theorem finallyExit_emit (command : Command) :
    (walk.emit routine command).finallyExit = walk.finallyExit :=
  finallyExit_openNode routine walk .statement

theorem finallyExit_addPrune (source : NodeIndex) (condition : Expr) (branch : Bool)
    (kind : BranchKind) :
    (walk.addPrune routine source condition branch kind).1.finallyExit = walk.finallyExit :=
  finallyExit_attachHandler routine { walk with procedure := _ } _

theorem finallyExit_load (address : Expr) (typ : Typ) :
    (walk.load routine address typ).finallyExit = walk.finallyExit :=
  finallyExit_openNode routine (walk.useIdents 1) .statement

theorem finallyExit_invoke (callee : MethodRef) (arguments : List Value) (isVirtual : Bool) :
    (walk.invoke routine callee arguments isVirtual).finallyExit = walk.finallyExit := by
  unfold invoke
  dsimp only
  split
  · exact finallyExit_openNode routine (walk.useIdents 1) .statement
  · exact finallyExit_openNode routine (walk.useIdents 1) .statement

theorem finallyExit_construct (callee : MethodRef) (arguments : List Value) :
    (walk.construct routine callee arguments).finallyExit = walk.finallyExit :=
  (finallyExit_openNode routine (Walk.useIdents _ 1) .statement).trans
    (finallyExit_openNode routine (walk.useIdents 1) .statement)

end Exit

/-! ### Ways on -/

/-- A path on which control goes on after the instruction at an offset. -/
inductive WayOn (routine : Routine) (instruction : Instruction) (offset : Offset)
    (exit : Option FinallyExit) (pending : Pending) : Prop
  /-- To a target of the instruction or to the next one; a finally that is being run goes on. -/
  | onward
    (leads : pending.offset ∈ instruction.branchTargets ∨
      instruction.fallsThrough = true ∧ routine.nextOffset? offset = some pending.offset)
    (keeps : pending.finallyExit = exit)
  /-- Into a finally that has to run before a leave reaches its target. -/
  | intoFinally (target : Offset) (position : Nat) (clause : FinallyClause)
    (leaves : instruction.opcode = .leave) (operand : instruction.operand = .target target)
    (runs : routine.regions.finallyForLeave? offset target = some position)
    (found : routine.regions.finallies[position]? = some clause)
    (starts : pending.offset = clause.handler.start)
    (exits : pending.finallyExit = some (.continue target))
  /-- To the target of the leave that ran a finally which ends. -/
  | afterFinally (ends : instruction.opcode = .endfinally)
    (entered : exit = some (.continue pending.offset)) (outside : pending.finallyExit = none)

/-- A path starts a new block where it leads to a leader or into a finally, and goes on with a
block elsewhere. -/
structure Fits (routine : Routine) (pending : Pending) : Prop where
  opens : pending.continuation = .newBlock → routine.leaders.contains pending.offset = true ∨
    ∃ clause ∈ routine.regions.finallies, pending.offset = clause.handler.start
  goesOn : pending.continuation ≠ .newBlock → routine.leaders.contains pending.offset = false

theorem fits_branch (routine : Routine) (walk : Walk) (source : NodeIndex) (target : Offset) :
    Fits routine (walk.snapshot target source
      (if routine.leaders.contains target then .newBlock else .append source)) := by
  cases leads : routine.leaders.contains target with
  | true => exact ⟨fun _ => .inl leads, fun other => absurd rfl other⟩
  | false => exact ⟨fun opens => (by cases opens), fun _ => leads⟩

theorem fits_fallThroughTo (routine : Routine) (walk : Walk) (next : Offset) :
    Fits routine (walk.fallThroughTo routine next) := by
  unfold fallThroughTo
  cases leads : routine.leaders.contains next with
  | true => exact ⟨fun _ => .inl leads, fun other => absurd rfl other⟩
  | false =>
    cases walk.current with
    | some node => exact ⟨fun opens => (by cases opens), fun _ => leads⟩
    | none => exact ⟨fun opens => (by cases opens), fun _ => leads⟩

namespace Adds

variable {routine : Routine} {allowed : Pending → Prop} {walk : Walk}

theorem branchFrom (source : NodeIndex) {target : Offset}
    (permitted : ∀ pending : Pending, pending.offset = target →
      pending.finallyExit = walk.finallyExit → Fits routine pending → allowed pending) :
    Adds routine allowed walk (walk.branchFrom routine source target) :=
  queue (permitted _ rfl rfl (fits_branch routine walk source target))

theorem fallThrough
    (permitted : ∀ pending : Pending, routine.nextOffset? walk.offset = some pending.offset →
      pending.finallyExit = walk.finallyExit → Fits routine pending → allowed pending) :
    Adds routine allowed walk (walk.fallThrough routine) := by
  unfold Walk.fallThrough
  split
  · rename_i next following
    refine queue (permitted _ ?_ ?_ (fits_fallThroughTo routine walk next))
    · rw [following]
      unfold fallThroughTo
      split
      · rfl
      · split <;> rfl
    · unfold fallThroughTo
      split
      · rfl
      · split <;> rfl
  · exact of_fields rfl rfl rfl rfl

theorem jump {target : Offset}
    (permitted : ∀ pending : Pending, pending.offset = target →
      pending.finallyExit = walk.finallyExit → Fits routine pending → allowed pending) :
    Adds routine allowed walk (walk.jump routine target) := by
  refine (currentNode walk).trans (branchFrom _ fun pending leads keeps fits => ?_)
  exact permitted pending leads (keeps.trans (finallyExit_openNode routine walk .join)) fits

theorem branch {condition : Expr} {target : Offset}
    (permitted : ∀ pending : Pending, pending.offset = target →
      pending.finallyExit = walk.finallyExit → Fits routine pending → allowed pending)
    (permittedNext : ∀ pending : Pending, routine.nextOffset? walk.offset = some pending.offset →
      pending.finallyExit = walk.finallyExit → Fits routine pending → allowed pending) :
    Adds routine allowed walk (walk.branch routine condition target) := by
  unfold Walk.branch
  split
  · rename_i next following
    dsimp only
    have keeps := ((finallyExit_addPrune routine _ (walk.currentNode routine).2 (.not condition)
      false .conditional).trans (finallyExit_addPrune routine _ (walk.currentNode routine).2
        condition true .conditional)).trans (finallyExit_openNode routine walk .join)
    have nodes : Adds routine allowed walk _ :=
      ((currentNode walk).trans (addPrune _ (walk.currentNode routine).2 condition true
        .conditional)).trans (addPrune _ (walk.currentNode routine).2 (.not condition) false
        .conditional)
    refine (nodes.trans (branchFrom _ fun pending leads kept fits => ?_)).trans
      (branchFrom _ fun pending leads kept fits => ?_)
    · exact permittedNext pending (by rw [following, leads]) (kept.trans keeps) fits
    · exact permitted pending leads (kept.trans keeps) fits
  · exact of_fields rfl rfl rfl rfl

theorem addCases (routine : Routine) (allowed : Pending → Prop) (value : Expr)
    (targets : List Offset) (position : Nat) (source : NodeIndex)
    (reversed : List (NodeIndex × Offset)) (walk : Walk) :
    let (after, _, cases) := Walk.addCases routine value position targets source reversed walk
    Adds routine allowed walk after ∧ after.finallyExit = walk.finallyExit ∧
      ∀ one ∈ cases, one ∈ reversed ∨ one.2 ∈ targets := by
  induction targets generalizing position source reversed walk with
  | nil => exact ⟨refl walk, rfl, fun one member => .inl member⟩
  | cons target rest inductionHypothesis =>
    let condition : Expr := .binary .equal value (.int position)
    let first := walk.addPrune routine source condition true .switch
    let second := first.1.addPrune routine source (.not condition) false .switch
    obtain ⟨added, keeps, listed⟩ := inductionHypothesis (position + 1) second.2
      ((first.2, target) :: reversed) second.1
    refine ⟨((addPrune walk source condition true .switch).trans (addPrune first.1 source
      (.not condition) false .switch)).trans added, ?_, fun one member => ?_⟩
    · exact keeps.trans ((finallyExit_addPrune routine first.1 source (.not condition) false
        .switch).trans (finallyExit_addPrune routine walk source condition true .switch))
    · rcases listed one member with earlier | later
      · rcases List.mem_cons.mp earlier with rfl | old
        · exact .inr List.mem_cons_self
        · exact .inl old
      · exact .inr (List.mem_cons_of_mem _ later)

theorem branchFrom_each (cases : List (NodeIndex × Offset)) {walk : Walk}
    (permitted : ∀ one ∈ cases, ∀ pending : Pending, pending.offset = one.2 →
      pending.finallyExit = walk.finallyExit → Fits routine pending → allowed pending) :
    Adds routine allowed walk
      (cases.foldl (fun walk (taken, target) => walk.branchFrom routine taken target) walk) := by
  induction cases generalizing walk with
  | nil => exact refl walk
  | cons one rest inductionHypothesis =>
    exact (branchFrom one.1 (permitted one List.mem_cons_self)).trans
      (inductionHypothesis fun other member => permitted other (List.mem_cons_of_mem _ member))

theorem select {value : Expr} {targets : List Offset}
    (permitted : ∀ target ∈ targets, ∀ pending : Pending, pending.offset = target →
      pending.finallyExit = walk.finallyExit → Fits routine pending → allowed pending)
    (permittedNext : ∀ pending : Pending, routine.nextOffset? walk.offset = some pending.offset →
      pending.finallyExit = walk.finallyExit → Fits routine pending → allowed pending) :
    Adds routine allowed walk (walk.select routine value targets) := by
  unfold Walk.select
  split
  · rename_i next following
    obtain ⟨added, keeps, listed⟩ := addCases routine allowed value targets 0
      (walk.currentNode routine).2 [] (walk.currentNode routine).1
    have kept := keeps.trans (finallyExit_openNode routine walk .join)
    have nodes := (currentNode walk).trans added
    refine (nodes.trans (branchFrom _ fun pending leads same fits => ?_)).trans
      (branchFrom_each _ fun one member pending leads same fits => ?_)
    · exact permittedNext pending (by rw [following, leads]) (same.trans kept) fits
    · rcases listed one member with impossible | target
      · cases impossible
      · exact permitted one.2 target pending leads (same.trans kept) fits
  · exact of_fields rfl rfl rfl rfl

theorem finish (walk : Walk) (value : Option Expr) :
    Adds routine allowed walk (walk.finish routine value) := by
  cases value with
  | some value => exact ((emit walk _).trans (currentNode _)).trans (link _ _)
  | none => exact (currentNode walk).trans (link _ _)

theorem exceptionDestination (walk : Walk) :
    Adds routine allowed walk (walk.exceptionDestination routine).1 := by
  unfold Walk.exceptionDestination
  split
  · exact of_equipped (Equipped.handlerEntry walk _)
  · exact refl walk

theorem raise (walk : Walk) (exception : Value) :
    Adds routine allowed walk (walk.raise routine exception) :=
  (((emit walk _).trans (currentNode _)).trans (exceptionDestination _)).trans (link _ _)

theorem enterFinally {position : Nat} {exit : FinallyExit}
    (permitted : ∀ (clause : FinallyClause) (pending : Pending),
      routine.regions.finallies[position]? = some clause →
      pending.offset = clause.handler.start → pending.finallyExit = some exit →
      Fits routine pending → allowed pending) :
    Adds routine allowed walk (walk.enterFinally routine position exit) := by
  unfold Walk.enterFinally
  split
  · rename_i clause found
    refine (currentNode walk).trans (queue (permitted clause _ found rfl rfl ⟨fun _ => .inr ?_,
      fun other => absurd rfl other⟩))
    exact ⟨clause, List.mem_of_getElem? found, rfl⟩
  · exact of_fields rfl rfl rfl rfl

/-- What `perform` queues is a `WayOn` from its instruction, or leads into a handler. -/
theorem perform (routine : Routine) (walk : Walk) {instruction : Instruction}
    {operation : Operation}
    (flows : operation.FlowsAs instruction) :
    Adds routine (fun queued => WayOn routine instruction walk.offset walk.finallyExit queued ∧
      Fits routine queued) walk (walk.perform routine operation) := by
  let allowed (queued : Pending) : Prop :=
    WayOn routine instruction walk.offset walk.finallyExit queued ∧ Fits routine queued
  have next : ∀ {other : Walk}, instruction.fallsThrough = true → Adds routine allowed walk other →
      other.finallyExit = walk.finallyExit →
      Adds routine allowed walk (other.fallThrough routine) := by
    intro other falls added keeps
    refine added.trans (fallThrough fun pending following same fits => ⟨?_, fits⟩)
    rw [added.offset] at following
    exact .onward (.inr ⟨falls, following⟩) (same.trans keeps)
  have toNext : instruction.fallsThrough = true → ∀ pending : Pending,
      routine.nextOffset? walk.offset = some pending.offset →
      pending.finallyExit = walk.finallyExit → Fits routine pending → allowed pending :=
    fun falls pending following keeps fits => ⟨.onward (.inr ⟨falls, following⟩) keeps, fits⟩
  have toTarget : ∀ target ∈ instruction.branchTargets, ∀ pending : Pending,
      pending.offset = target → pending.finallyExit = walk.finallyExit → Fits routine pending →
      allowed pending :=
    fun target listed pending leads keeps fits => ⟨.onward (.inl (leads ▸ listed)) keeps, fits⟩
  cases operation with
  | proceed => exact next flows (refl walk) rfl
  | load address typ => exact next flows (load walk address typ) (finallyExit_load ..)
  | store address typ value => exact next flows (emit walk _) (finallyExit_emit ..)
  | invoke callee arguments isVirtual =>
    exact next flows (invoke walk callee arguments isVirtual) (finallyExit_invoke ..)
  | construct callee arguments =>
    exact next flows (construct walk callee arguments) (finallyExit_construct ..)
  | jump target => exact jump (toTarget target flows)
  | branch condition target => exact branch (toTarget target flows.1) (toNext flows.2)
  | select value targets =>
    refine select (fun target member => toTarget target ?_) (toNext flows.2)
    rw [← flows.1]
    exact member
  | finish value => exact finish walk value
  | raise exception => exact raise walk exception
  | leave target =>
    obtain ⟨leaves, operand⟩ := flows
    have cleared : Adds routine allowed walk { walk with stack := [] } := of_fields rfl rfl rfl rfl
    show Adds _ _ walk (walk.leave routine target)
    unfold Walk.leave
    dsimp only
    split
    · rename_i position runs
      exact cleared.trans (enterFinally fun clause pending found starts exits fits =>
        ⟨.intoFinally target position clause leaves operand runs found starts exits, fits⟩)
    · exact cleared.trans (jump (toTarget target (Operation.mem_branchTargets operand)))
  | endFinally =>
    show Adds _ _ walk (walk.endFinally routine)
    unfold Walk.endFinally
    split
    · rename_i target entered
      have cleared : Adds routine allowed walk { walk with stack := [], finallyExit := none } :=
        of_fields rfl rfl rfl rfl
      refine cleared.trans (jump fun pending leads outside fits =>
        ⟨.afterFinally flows ?_ outside, fits⟩)
      rw [entered, leads]
    · rename_i exception entered
      have cleared : Adds routine allowed walk { walk with finallyExit := none } :=
        of_fields rfl rfl rfl rfl
      exact cleared.trans (raise _ _)
    · exact of_fields rfl rfl rfl rfl

end Adds

/-! ### Turns -/

/-- A path that a turn queues. -/
def Queues (before after : Walk) (pending : Pending) : Prop :=
  ∃ pushed, after.worklist = pushed ++ before.worklist.tail ∧ pending ∈ pushed

namespace TakesUp

variable {routine : Routine} {limits : Limits} {before after : Walk} {pending : Pending}

/-- What a turn `Adds` to the walk on which it starts. -/
theorem adds {outcome : Option Outcome}
    (takesUp : TakesUp routine limits before pending after outcome) :
    Adds routine
      (fun queued => ∃ instruction, routine.instructionAt? pending.offset = some instruction ∧
        WayOn routine instruction pending.offset pending.finallyExit queued ∧ Fits routine queued)
      (before.arrive pending before.worklist.tail) after := by
  obtain ⟨rest, overdue, waiting, turned⟩ := takesUp
  rw [waiting]
  cases turn_turned turned with
  | joined node shared => exact .link _ _
  | halted => exact .of_fields rfl rfl rfl rfl
  | performed instruction resolved _ fresh valid handled found resolves =>
    have performed := Adds.perform routine
      ((before.arrive pending rest).ready routine instruction resolved.stack)
      (Operation.resolves_of_resolve resolves).flowsAs
    have ready : Adds routine
        (fun queued => WayOn routine instruction pending.offset pending.finallyExit queued ∧
          Fits routine queued)
        (before.arrive pending rest)
        ((before.arrive pending rest).ready routine instruction resolved.stack) :=
      .of_fields rfl rfl rfl rfl
    exact (ready.trans performed).imp fun queued way => ⟨instruction, found, way⟩

/-- A path that waits after a turn waited before, or was queued by the turn: it is a `HandlerStart`,
or a `WayOn` from the instruction. -/
theorem waits (takesUp : TakesUp routine limits before pending after none) {queued : Pending}
    (member : queued ∈ after.worklist) :
    queued ∈ before.worklist ∨ Queues before after queued ∧
      (HandlerStart routine after queued ∨
        ∃ instruction, routine.instructionAt? pending.offset = some instruction ∧
          WayOn routine instruction pending.offset pending.finallyExit queued) := by
  obtain ⟨pushed, worklist, allowed⟩ := takesUp.adds.queued
  rw [worklist] at member
  rcases List.mem_append.mp member with new | old
  · refine .inr ⟨⟨pushed, worklist, new⟩, (allowed queued new).imp_right ?_⟩
    rintro ⟨instruction, found, way, -⟩
    exact ⟨instruction, found, way⟩
  · exact .inl (List.mem_of_mem_tail old)

end TakesUp

end Walk

end BytecodeFlow

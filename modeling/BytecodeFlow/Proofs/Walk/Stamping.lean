/-
This file follows the stamps of temporaries through a walk. The next stamp is
above those of all temporaries that a path still carries (`live`), and each
waiting path has a next stamp of its own, which is above those of what it
carries and of what the node assigns that it continues (`Pending.Timely`).
Handlers may take stamps in the middle of an instruction. They put them into
new nodes, so the node of the current block goes on with stamps above those
that it has.
-/

import BytecodeFlow.Proofs.Walk.Spending
import BytecodeFlow.Proofs.Walk.Turning

namespace BytecodeFlow

/-! ### Stamps in order -/

/-- The stamps of temporaries are below a bound. -/
def Below (bound : Nat) (idents : List Ident) : Prop := ∀ ident ∈ idents, ident.stamp < bound

namespace Below

variable {bound : Nat} {idents : List Ident}

theorem nil (bound : Nat) : Below bound [] := List.forall_mem_nil _

theorem mono (below : Below bound idents) {higher : Nat} (raised : bound ≤ higher) :
    Below higher idents :=
  fun ident member => Nat.lt_of_lt_of_le (below ident member) raised

theorem of_subset {fewer : List Ident} (below : Below bound idents) (subset : fewer ⊆ idents) :
    Below bound fewer :=
  fun ident member => below ident (subset member)

/-- A temporary with the bound as its stamp is a new one. -/
theorem not_mem (below : Below bound idents) : (⟨bound⟩ : Ident) ∉ idents :=
  fun member => Nat.lt_irrefl _ (below _ member)

end Below

/-- Commands assign temporaries in the order of their stamps. -/
def Rising (commands : List Command) : Prop :=
  (assignedBy commands).Pairwise fun earlier later => earlier.stamp < later.stamp

namespace Rising

variable {commands : List Command}

theorem nodup (rising : Rising commands) : (assignedBy commands).Nodup :=
  List.Pairwise.imp (fun lower same => Nat.ne_of_lt lower (congrArg Ident.stamp same)) rising

/-- Commands stay `Rising` if what another one assigns is above all that was assigned before. -/
theorem append (rising : Rising commands) {bound : Nat}
    (below : Below bound (assignedBy commands)) {command : Command}
    (above : ∀ ident ∈ command.assigns, bound ≤ ident.stamp) :
    Rising (commands ++ [command]) := by
  have single : command.assigns.Pairwise fun earlier later => earlier.stamp < later.stamp := by
    cases command with
    | load | call => exact List.pairwise_singleton _ _
    | store | prune => exact List.Pairwise.nil
  unfold Rising
  rw [assignedBy_append, show assignedBy [command] = command.assigns from List.flatMap_singleton ..]
  exact List.pairwise_append.mpr ⟨rising, single, fun earlier old later new =>
    Nat.lt_of_lt_of_le (below earlier old) (above later new)⟩

end Rising

/-- The stamps of what a node assigns are `Below` a bound. -/
def Procedure.AssignsBelow (procedure : Procedure) (bound : Nat) (node : NodeIndex) : Prop :=
  node < procedure.size ∧ Below bound (assignedBy (procedure.commandsOf node))

theorem Procedure.AssignsBelow.mono {procedure : Procedure} {bound higher : Nat} {node : NodeIndex}
    (below : procedure.AssignsBelow bound node) (raised : bound ≤ higher) :
    procedure.AssignsBelow higher node :=
  ⟨below.1, below.2.mono raised⟩

/-- The temporaries that a waiting path carries: those of its stack, and those `held` since the
start of its block. -/
def Pending.live (pending : Pending) : List Ident := identsOf pending.stack ++ pending.held

/-- The next stamp of a waiting path is above those of what is `live` on it, and of what the node
assigns that it continues. -/
structure Pending.Timely (procedure : Procedure) (pending : Pending) : Prop where
  live : Below pending.nextStamp pending.live
  continued : ∀ node, pending.continuation = .append node →
    procedure.AssignsBelow pending.nextStamp node

/-- A path into a new block continues no node, so that it is `Timely`. -/
theorem Pending.Timely.of_newBlock {procedure : Procedure} {pending : Pending}
    (live : Below pending.nextStamp pending.live) (starts : pending.continuation = .newBlock) :
    pending.Timely procedure where
  live
  continued node continues := by
    rw [starts] at continues
    cases continues

namespace Walk

/-- The temporaries that the current path carries, at its block's start or now. -/
def live (walk : Walk) : List Ident :=
  identsOf walk.stack ++ (identsOf walk.blockStack ++ contextIdents walk.finallyExit)

/-- The stamps of a walk are in order: `Rising` in each node, `Below` the next one for the current
path, and `Timely` for each path that waits. -/
structure Stamped (walk : Walk) : Prop where
  rising : ∀ index, Rising (walk.procedure.commandsOf index)
  live : Below walk.nextStamp walk.live
  waiting : ∀ pending ∈ walk.worklist, pending.Timely walk.procedure

/-- Something is built beside the current block: the nodes that are there assign what they did,
and no path is queued that continues one. -/
structure Advances (before after : Walk) : Prop where
  current : after.current = before.current
  stamps : before.nextStamp ≤ after.nextStamp
  kept : ∀ bound node, before.procedure.AssignsBelow bound node →
    after.procedure.AssignsBelow bound node
  queued : ∀ pending ∈ after.worklist,
    pending ∈ before.worklist ∨ pending.continuation = .newBlock
  stamped : before.Stamped → after.Stamped

namespace Advances

variable {before walk after : Walk}

theorem refl (walk : Walk) : Advances walk walk :=
  ⟨rfl, Nat.le_refl _, fun _ _ below => below, fun _ member => .inl member, fun stamped => stamped⟩

theorem trans (former : Advances before walk) (latter : Advances walk after) :
    Advances before after where
  current := latter.current.trans former.current
  stamps := Nat.le_trans former.stamps latter.stamps
  kept bound node below := latter.kept bound node (former.kept bound node below)
  queued pending member := by
    rcases latter.queued pending member with old | starts
    · exact former.queued pending old
    · exact .inr starts
  stamped start := latter.stamped (former.stamped start)

/-! ### Single changes -/

/-- Changes of the graph that leave the commands of its nodes alone. -/
theorem change (procedure : Procedure) (grown : walk.procedure.size ≤ procedure.size)
    (kept : ∀ index < walk.procedure.size,
      procedure.commandsOf index = walk.procedure.commandsOf index)
    (rising : walk.Stamped → ∀ index, Rising (procedure.commandsOf index)) :
    Advances walk { walk with procedure } := by
  have below : ∀ bound node, walk.procedure.AssignsBelow bound node →
      procedure.AssignsBelow bound node := by
    rintro bound node ⟨known, assigned⟩
    refine ⟨Nat.lt_of_lt_of_le known grown, ?_⟩
    rw [kept node known]
    exact assigned
  refine ⟨rfl, Nat.le_refl _, below, fun _ member => .inl member, fun stamped => ?_⟩
  refine ⟨rising stamped, stamped.live, fun pending member => ?_⟩
  obtain ⟨live, continued⟩ := stamped.waiting pending member
  exact ⟨live, fun node continues => below _ _ (continued node continues)⟩

theorem addNode (walk : Walk) {node : Node} (rising : Rising node.commands) :
    Advances walk { walk with procedure := walk.procedure.addNode node } := by
  refine change _ ?_ ?_ ?_
  · rw [Procedure.size_addNode]
    exact Nat.le_succ _
  · intro index known
    exact Procedure.commandsOf_congr (Procedure.node?_addNode_of_ne _ _ (Nat.ne_of_lt known))
  · intro stamped index
    by_cases new : index = walk.procedure.size
    · rw [new, Procedure.commandsOf, Procedure.node?_addNode_self]
      exact rising
    · rw [Procedure.commandsOf_congr (Procedure.node?_addNode_of_ne _ _ new)]
      exact stamped.rising index

theorem link (walk : Walk) (source target : NodeIndex) :
    Advances walk { walk with procedure := walk.procedure.link source target } := by
  refine change _ (Nat.le_of_eq (Procedure.size_link ..).symm) ?_ ?_
  · exact fun _ _ => Procedure.commandsOf_link ..
  · intro stamped index
    rw [Procedure.commandsOf_link]
    exact stamped.rising index

theorem setException (walk : Walk) (source target : NodeIndex) :
    Advances walk { walk with procedure := walk.procedure.setException source target } := by
  refine change _ (Nat.le_of_eq (Procedure.size_setException ..).symm) ?_ ?_
  · exact fun _ _ => Procedure.commandsOf_setException ..
  · intro stamped index
    rw [Procedure.commandsOf_setException]
    exact stamped.rising index

theorem useIdents (walk : Walk) (count : Nat) : Advances walk (walk.useIdents count) :=
  ⟨rfl, Nat.le_add_right _ _, fun _ _ below => below, fun _ member => .inl member,
    fun stamped => ⟨stamped.rising, stamped.live.mono (Nat.le_add_right _ _), stamped.waiting⟩⟩

theorem record_entry (walk : Walk) (entries : Std.ExtTreeMap Offset NodeIndex) :
    Advances walk { walk with entries } :=
  ⟨rfl, Nat.le_refl _, fun _ _ below => below, fun _ member => .inl member,
    fun stamped => ⟨stamped.rising, stamped.live, stamped.waiting⟩⟩

theorem fail (walk : Walk) (fault : Fault) : Advances walk (walk.fail fault) :=
  ⟨rfl, Nat.le_refl _, fun _ _ below => below, fun _ member => .inl member,
    fun stamped => ⟨stamped.rising, stamped.live, stamped.waiting⟩⟩

theorem queue (walk : Walk) {pending : Pending} (starts : pending.continuation = .newBlock)
    (live : Below pending.nextStamp pending.live) : Advances walk (walk.queue pending) where
  current := rfl
  stamps := Nat.le_refl _
  kept _ _ below := below
  queued other member := by
    rcases List.mem_cons.mp member with rfl | old
    · exact .inr starts
    · exact .inl old
  stamped stamped := ⟨stamped.rising, stamped.live,
    List.forall_mem_cons.mpr ⟨.of_newBlock live starts, stamped.waiting⟩⟩

/-! ### The entries of handlers -/

section Handlers

variable (routine : Routine)

theorem addFinallyEntry (walk : Walk) (clause : FinallyClause) :
    Advances walk (walk.addFinallyEntry routine clause) := by
  have rising : Rising (finallyEntryNode walk.nextIdent
      (routine.locationAt clause.handler.start walk.location)).commands :=
    List.pairwise_singleton _ _
  have built := ((addNode walk rising).trans (record_entry _ (walk.entries.insert
    clause.handler.start walk.procedure.nextIndex))).trans (useIdents _ 1)
  refine built.trans (queue _ rfl ?_)
  -- The exception has the stamp before the next one.
  exact List.forall_mem_singleton.mpr (Nat.lt_succ_self walk.nextStamp)

theorem finallyEntry (walk : Walk) (position : Nat) :
    Advances walk (walk.finallyEntry routine position).1 := by
  unfold Walk.finallyEntry
  split
  · split
    · exact refl walk
    · exact addFinallyEntry routine walk _
  · exact fail walk _

/-- The entry of a catch clause assigns three temporaries, and its ways out none. -/
theorem addCatchNodes (walk : Walk) (clause : CatchClause) :
    Advances walk (walk.addCatchNodes routine clause) := by
  let location := routine.locationAt clause.handler.start walk.location
  let blockEnd := routine.regions.blockEnd? clause.handler.start
  have entry : Rising (catchEntryNode (.ofName clause.catchType) ⟨walk.nextStamp⟩
      ⟨walk.nextStamp + 1⟩ ⟨walk.nextStamp + 2⟩ location).commands := by
    simp [Rising, catchEntryNode, takeException, assignedBy, Command.assigns]
  have taken : Rising (pruneNode (.var ⟨walk.nextStamp + 2⟩) true .conditional location
      blockEnd).commands := List.Pairwise.nil
  have missed : Rising (missedNode ⟨walk.nextStamp + 1⟩ ⟨walk.nextStamp + 2⟩ location
      blockEnd).commands := List.Pairwise.nil
  have added := ((addNode walk entry).trans (addNode _ taken)).trans (addNode _ missed)
  have linked := (added.trans (link _ walk.procedure.size (walk.procedure.size + 1))).trans
    (link _ walk.procedure.size (walk.procedure.size + 2))
  exact (linked.trans (record_entry _ (walk.entries.insert clause.handler.start
    walk.procedure.nextIndex))).trans (useIdents _ 3)

theorem passOn (walk : Walk) (clause : CatchClause) {rest : List CatchClause}
    (inductionHypothesis : ∀ walk, Advances walk (catchEntry routine rest walk).1) :
    Advances walk (walk.passOn routine clause rest).1 := by
  unfold Walk.passOn
  split
  · exact inductionHypothesis walk
  · split
    · exact finallyEntry routine walk _
    · exact refl walk

theorem guardCatch (walk : Walk) (clause : CatchClause) (entry : NodeIndex) :
    Advances walk (walk.guardCatch routine clause entry) := by
  unfold Walk.guardCatch
  split
  · rename_i position around
    exact (((finallyEntry routine walk position).trans (setException _ entry _)).trans
      (setException _ (entry + 1) _)).trans (setException _ (entry + 2) _)
  · exact refl walk

theorem catchEntry (clauses : List CatchClause) (walk : Walk) :
    Advances walk (Walk.catchEntry routine clauses walk).1 := by
  induction clauses generalizing walk with
  | nil => exact refl walk
  | cons clause rest inductionHypothesis =>
    cases entry? : walk.entries[clause.handler.start]? with
    | some entry =>
      rw [catchEntry_known _ entry?]
      exact refl walk
    | none =>
      rw [catchEntry_fresh _ entry?]
      have passed := passOn routine (walk.addCatchNodes routine clause) clause inductionHypothesis
      have guarded := (passed.trans (link _ (walk.procedure.size + 2)
        ((walk.addCatchNodes routine clause).passOn routine clause rest).2)).trans
          (guardCatch routine _ clause walk.procedure.size)
      refine ((addCatchNodes routine walk clause).trans guarded).trans (queue _ rfl ?_)
      -- However many stamps the other entries took, the exception's is below the next one.
      have used : walk.nextStamp + 3 ≤ _ := guarded.stamps
      have low : walk.nextStamp + 1 < _ := Nat.lt_of_succ_lt used
      refine List.forall_mem_cons.mpr ⟨low, List.forall_mem_singleton.mpr low⟩

theorem handlerEntry (walk : Walk) (target : HandlerTarget) :
    Advances walk (walk.handlerEntry routine target).1 := by
  unfold Walk.handlerEntry
  split
  · split
    · exact fail walk _
    · exact catchEntry routine _ walk
  · exact finallyEntry routine walk _

theorem attachHandler (walk : Walk) (node : NodeIndex) :
    Advances walk (walk.attachHandler routine node) := by
  unfold Walk.attachHandler
  split
  · rename_i target found
    exact (handlerEntry routine walk target).trans (setException _ node _)
  · exact refl walk

theorem exceptionDestination (walk : Walk) :
    Advances walk (walk.exceptionDestination routine).1 := by
  unfold Walk.exceptionDestination
  split
  · exact handlerEntry routine walk _
  · exact refl walk

/-! ### Nodes with a handler -/

/-- A new node after another, with its handler. -/
theorem addAfter (walk : Walk) {node : Node} (quiet : assignedBy node.commands = [])
    (source : NodeIndex) (bound : Nat) :
    let added := Walk.attachHandler { walk with
      procedure := (walk.procedure.addNode node).link source walk.procedure.size } routine
      walk.procedure.size
    Advances walk added ∧ added.procedure.AssignsBelow bound walk.procedure.size := by
  have rising : Rising node.commands := by
    unfold Rising
    rw [quiet]
    exact List.Pairwise.nil
  have attached := (link { walk with procedure := walk.procedure.addNode node } source
    walk.procedure.size).trans (attachHandler routine _ walk.procedure.size)
  refine ⟨(addNode walk rising).trans attached, attached.kept bound _ ⟨?_, ?_⟩⟩
  · rw [Procedure.size_addNode]
    exact Nat.lt_succ_self _
  · rw [Procedure.commandsOf, Procedure.node?_addNode_self]
    show Below bound (assignedBy node.commands)
    rw [quiet]
    exact .nil bound

theorem addPrune (walk : Walk) (source : NodeIndex) (condition : Expr) (branch : Bool)
    (kind : BranchKind) (bound : Nat) :
    Advances walk (walk.addPrune routine source condition branch kind).1 ∧
      (walk.addPrune routine source condition branch kind).1.procedure.AssignsBelow bound
        (walk.addPrune routine source condition branch kind).2 := by
  have quiet : assignedBy (pruneNode condition branch kind walk.location
    (routine.regions.blockEnd? walk.offset)).commands = [] := rfl
  exact addAfter routine walk quiet source bound

/-- The nodes for the targets of a switch assign nothing. -/
theorem addCases (value : Expr) (targets : List Offset) (position : Nat) {source : NodeIndex}
    (reversed : List (NodeIndex × Offset)) (walk : Walk) {bound : Nat}
    (below : walk.procedure.AssignsBelow bound source)
    (listed : ∀ one ∈ reversed, walk.procedure.AssignsBelow bound one.1) :
    let (after, last, cases) := Walk.addCases routine value position targets source reversed walk
    Advances walk after ∧ after.procedure.AssignsBelow bound last ∧
      ∀ one ∈ cases, after.procedure.AssignsBelow bound one.1 := by
  induction targets generalizing position source reversed walk with
  | nil => exact ⟨refl walk, below, listed⟩
  | cons target rest inductionHypothesis =>
    let condition : Expr := .binary .equal value (.int position)
    obtain ⟨first, taken⟩ := addPrune routine walk source condition true .switch bound
    obtain ⟨second, notTaken⟩ := addPrune routine
      (walk.addPrune routine source condition true .switch).1 source (.not condition) false .switch
      bound
    obtain ⟨others, last, cases⟩ := inductionHypothesis (position + 1) ((_, target) :: reversed) _
      notTaken (List.forall_mem_cons.mpr ⟨second.kept _ _ taken, fun one member =>
        second.kept _ _ (first.kept _ _ (listed one member))⟩)
    exact ⟨(first.trans second).trans others, last, cases⟩

end Handlers

end Advances

/-! ### The node of the current block -/

/-- The node of the current block `AssignsBelow` a bound, and no path waits to continue it. -/
structure Stamping (bound : Nat) (walk : Walk) : Prop where
  stamped : walk.Stamped
  bounded : bound ≤ walk.nextStamp
  current : ∀ node, walk.current = some node → walk.procedure.AssignsBelow bound node ∧
    ∀ pending ∈ walk.worklist, pending.continuation ≠ .append node

namespace Stamping

variable {routine : Routine} {bound : Nat} {walk after : Walk}

theorem advance (stamping : Stamping bound walk) (advances : Advances walk after) :
    Stamping bound after where
  stamped := advances.stamped stamping.stamped
  bounded := Nat.le_trans stamping.bounded advances.stamps
  current node current := by
    obtain ⟨below, unclaimed⟩ := stamping.current node (advances.current ▸ current)
    refine ⟨advances.kept bound node below, fun pending member => ?_⟩
    rcases advances.queued pending member with old | starts
    · exact unclaimed pending old
    · rw [starts]
      exact fun impossible => by cases impossible

theorem lift (stamping : Stamping bound walk) {higher : Nat} (raised : bound ≤ higher)
    (within : higher ≤ walk.nextStamp) : Stamping higher walk where
  stamped := stamping.stamped
  bounded := within
  current node current :=
    ⟨(stamping.current node current).1.mono raised, (stamping.current node current).2⟩

/-- No path that waits can continue a node that is new. -/
theorem addBlockNode (stamping : Stamping bound walk) (kind : NodeKind) :
    Stamping bound (walk.addBlockNode routine kind) := by
  have quiet : assignedBy ({ Node.empty kind walk.location with
    blockEnd := routine.regions.blockEnd? walk.blockStart } : Node).commands = [] := rfl
  obtain ⟨advances, below⟩ := Advances.addAfter routine walk quiet walk.previous bound
  have built := stamping.advance advances
  refine ⟨⟨built.stamped.rising, built.stamped.live, built.stamped.waiting⟩, built.bounded, ?_⟩
  rintro node ⟨⟩
  refine ⟨below, fun pending member continues => ?_⟩
  rcases advances.queued pending member with old | starts
  · exact Nat.lt_irrefl _ ((stamping.stamped.waiting pending old).continued _ continues).1
  · rw [starts] at continues
    cases continues

/-- A command may be added if what it assigns is above all that the block assigns. -/
theorem append {node : NodeIndex} (stamping : Stamping bound walk)
    (current : walk.current = some node) {higher : Nat} (raised : bound ≤ higher)
    (within : higher ≤ walk.nextStamp) {command : Command}
    (fresh : ∀ ident ∈ command.assigns, bound ≤ ident.stamp ∧ ident.stamp < higher) :
    Stamping higher { walk with procedure := walk.procedure.append node [command] } := by
  obtain ⟨⟨known, below⟩, unclaimed⟩ := stamping.current node current
  have written := Procedure.commandsOf_append_self known [command]
  refine ⟨⟨fun index => ?_, stamping.stamped.live, fun pending member => ?_⟩, within, ?_⟩
  · by_cases own : index = node
    · rw [own, written]
      exact (stamping.stamped.rising node).append below fun ident member => (fresh ident member).1
    · rw [Procedure.commandsOf_append_of_ne _ _ own]
      exact stamping.stamped.rising index
  · -- What waits continues other nodes, which stay as they are.
    obtain ⟨live, continued⟩ := stamping.stamped.waiting pending member
    refine ⟨live, fun other continues => ?_⟩
    have distinct : other ≠ node := by
      rintro rfl
      exact unclaimed pending member continues
    unfold Procedure.AssignsBelow
    rw [Procedure.size_append, Procedure.commandsOf_append_of_ne _ _ distinct]
    exact continued other continues
  · intro other same
    cases current.symm.trans same
    refine ⟨⟨(Procedure.size_append ..).symm ▸ known, ?_⟩, unclaimed⟩
    rw [written, assignedBy_append]
    intro ident member
    rcases List.mem_append.mp member with old | new
    · exact Nat.lt_of_lt_of_le (below ident old) raised
    · exact (fresh ident (by simpa [assignedBy] using new)).2

variable (routine : Routine)

theorem openNode (stamping : Stamping bound walk) (kind : NodeKind) :
    Stamping bound (walk.openNode routine kind).1 := by
  unfold Walk.openNode
  split
  · exact stamping
  · exact stamping.addBlockNode kind

theorem currentNode (stamping : Stamping bound walk) :
    Stamping bound (walk.currentNode routine).1 ∧
      (walk.currentNode routine).1.procedure.AssignsBelow bound (walk.currentNode routine).2 := by
  have opened : Stamping bound (walk.currentNode routine).1 := stamping.openNode routine .join
  exact ⟨opened, (opened.current _ (current_openNode routine walk .join)).1⟩

/-- A command that assigns nothing. -/
theorem emit_quiet (stamping : Stamping bound walk) {command : Command}
    (quiet : command.assigns = []) : Stamping bound (walk.emit routine command) := by
  have opened := stamping.openNode routine .statement
  refine opened.append (current_openNode routine walk .statement) (Nat.le_refl _) opened.bounded ?_
  rw [quiet]
  exact List.forall_mem_nil _

/-- A command that assigns the next temporary. Opening a node for it may use up others, but not
into this node. -/
theorem emit_fresh (stamping : Stamping bound walk) {command : Command}
    (assigns : command.assigns = [walk.nextIdent]) :
    Stamping (walk.nextStamp + 1) ((walk.useIdents 1).emit routine command) := by
  have used : Stamping walk.nextStamp (walk.useIdents 1) :=
    (stamping.lift stamping.bounded (Nat.le_refl _)).advance (Advances.useIdents walk 1)
  have room := (used.lift (Nat.le_succ _) (Nat.le_refl _)).openNode routine .statement
  refine (used.openNode routine .statement).append (current_openNode routine _ .statement)
    (Nat.le_succ _) room.bounded ?_
  rw [assigns]
  exact List.forall_mem_singleton.mpr ⟨Nat.le_refl _, Nat.lt_succ_self _⟩

theorem push (stamping : Stamping bound walk) {ident : Ident} (low : ident.stamp < walk.nextStamp)
    (typ : Typ) : Stamping bound (walk.push ⟨.var ident, typ⟩) where
  stamped := ⟨stamping.stamped.rising, List.forall_mem_cons.mpr ⟨low, stamping.stamped.live⟩,
    stamping.stamped.waiting⟩
  bounded := stamping.bounded
  current := stamping.current

/-! ### Calls -/

theorem load (stamping : Stamping bound walk) (address : Expr) (typ : Typ) :
    Stamping (walk.nextStamp + 1) (walk.load routine address typ) := by
  have loaded : Stamping (walk.nextStamp + 1) ((walk.useIdents 1).emit routine
    (.load walk.nextIdent address typ walk.location)) := stamping.emit_fresh routine rfl
  exact loaded.push (show walk.nextIdent.stamp < _ from loaded.bounded) typ

theorem invoke (stamping : Stamping bound walk) (callee : MethodRef) (arguments : List Value)
    (isVirtual : Bool) :
    Stamping (walk.nextStamp + 1) (walk.invoke routine callee arguments isVirtual) := by
  have called : Stamping (walk.nextStamp + 1) ((walk.useIdents 1).emit routine
    (.call walk.nextIdent (.ofName callee.returnType) (.function callee.fullName) arguments
      isVirtual walk.location)) := stamping.emit_fresh routine rfl
  unfold Walk.invoke
  dsimp only
  split
  · exact called
  · exact called.push (show walk.nextIdent.stamp < _ from called.bounded) _

theorem construct (stamping : Stamping bound walk) (callee : MethodRef)
    (arguments : List Value) :
    ∃ higher, Stamping higher (walk.construct routine callee arguments) := by
  let allocation : Command := .call walk.nextIdent (.ofName callee.declaringType)
    (.function allocateFunction)
    [⟨.sizeOf (Typ.ofName callee.declaringType).stripPointer, .void⟩] false walk.location
  have allocated : Stamping (walk.nextStamp + 1) ((walk.useIdents 1).emit routine allocation) :=
    stamping.emit_fresh routine rfl
  let after := (walk.useIdents 1).emit routine allocation
  have called : Stamping (after.nextStamp + 1) ((after.useIdents 1).emit routine
    (.call after.nextIdent .void (.function callee.fullName)
      (⟨.var walk.nextIdent, .ofName callee.declaringType⟩ :: arguments) false after.location)) :=
    allocated.emit_fresh routine rfl
  have low : walk.nextStamp < after.nextStamp := allocated.bounded
  exact ⟨_, called.push (Nat.lt_of_lt_of_le low (Nat.le_of_succ_le called.bounded)) _⟩

end Stamping

/-! ### Going on -/

namespace Stamped

variable {walk : Walk} (routine : Routine)

theorem queue (stamped : walk.Stamped) {pending : Pending}
    (timely : pending.Timely walk.procedure) : (walk.queue pending).Stamped :=
  ⟨stamped.rising, stamped.live, List.forall_mem_cons.mpr ⟨timely, stamped.waiting⟩⟩

theorem fail (stamped : walk.Stamped) (fault : Fault) : (walk.fail fault).Stamped :=
  (Advances.fail walk fault).stamped stamped

/-- A path that has a block of its own, or a node to continue, carries its stack and context. -/
theorem live_stack (stamped : walk.Stamped) :
    Below walk.nextStamp
      (identsOf walk.stack ++ (identsOf walk.stack ++ contextIdents walk.finallyExit)) := by
  have stack : identsOf walk.stack ⊆ walk.live := List.subset_append_left _ _
  have context : contextIdents walk.finallyExit ⊆ walk.live :=
    List.subset_append_of_subset_right _ (List.subset_append_right _ _)
  exact stamped.live.of_subset
    (List.append_subset.mpr ⟨stack, List.append_subset.mpr ⟨stack, context⟩⟩)

theorem timely_newBlock (stamped : walk.Stamped) (offset : Offset) (previous : NodeIndex) :
    (walk.snapshot offset previous .newBlock).Timely walk.procedure :=
  .of_newBlock stamped.live_stack rfl

theorem timely_append (stamped : walk.Stamped) (offset : Offset) {node : NodeIndex}
    (below : walk.procedure.AssignsBelow walk.nextStamp node) :
    (walk.snapshot offset node (.append node)).Timely walk.procedure where
  live := stamped.live_stack
  continued other continues := by
    cases continues
    exact below

theorem branchFrom (stamped : walk.Stamped) {source : NodeIndex}
    (below : walk.procedure.AssignsBelow walk.nextStamp source) (target : Offset) :
    (walk.branchFrom routine source target).Stamped := by
  unfold Walk.branchFrom
  split
  · exact stamped.queue (stamped.timely_newBlock target source)
  · exact stamped.queue (stamped.timely_append target below)

theorem branchFrom_each (stamped : walk.Stamped) {cases : List (NodeIndex × Offset)}
    (below : ∀ one ∈ cases, walk.procedure.AssignsBelow walk.nextStamp one.1) :
    (cases.foldl (fun walk (taken, target) => walk.branchFrom routine taken target)
      walk).Stamped := by
  induction cases generalizing walk with
  | nil => exact stamped
  | cons one rest inductionHypothesis =>
    obtain ⟨first, others⟩ := List.forall_mem_cons.mp below
    exact inductionHypothesis (stamped.branchFrom routine first one.2) others

end Stamped

namespace Stamping

variable {bound : Nat} {walk : Walk} (routine : Routine)

theorem fallThrough (stamping : Stamping bound walk) : (walk.fallThrough routine).Stamped := by
  have stamped := stamping.stamped
  unfold Walk.fallThrough
  split
  · rename_i next following
    unfold fallThroughTo
    split
    · exact stamped.queue (stamped.timely_newBlock next _)
    · split
      · rename_i node current
        have below := (stamping.current node current).1.mono stamping.bounded
        exact stamped.queue (stamped.timely_append next below)
      · -- The block goes on without a node, so all that it carries goes along.
        exact stamped.queue ⟨stamped.live, fun _ impossible => by cases impossible⟩
  · exact stamped.fail _

theorem jump (stamping : Stamping bound walk) (target : Offset) :
    (walk.jump routine target).Stamped := by
  obtain ⟨opened, below⟩ := stamping.currentNode routine
  exact opened.stamped.branchFrom routine (below.mono opened.bounded) target

theorem branch (stamping : Stamping bound walk) (condition : Expr) (target : Offset) :
    (walk.branch routine condition target).Stamped := by
  unfold Walk.branch
  split
  · rename_i next following
    obtain ⟨opened, -⟩ := stamping.currentNode routine
    obtain ⟨first, taken⟩ := Advances.addPrune routine (walk.currentNode routine).1
      (walk.currentNode routine).2 condition true .conditional bound
    obtain ⟨second, notTaken⟩ := Advances.addPrune routine ((walk.currentNode routine).1.addPrune
      routine (walk.currentNode routine).2 condition true .conditional).1
      (walk.currentNode routine).2 (.not condition) false .conditional bound
    have forked := (opened.advance first).advance second
    have going := forked.stamped.branchFrom routine (notTaken.mono forked.bounded) next
    exact going.branchFrom routine ((second.kept _ _ taken).mono forked.bounded) target
  · exact stamping.stamped.fail _

theorem select (stamping : Stamping bound walk) (value : Expr) (targets : List Offset) :
    (walk.select routine value targets).Stamped := by
  unfold Walk.select
  split
  · rename_i next following
    obtain ⟨opened, below⟩ := stamping.currentNode routine
    obtain ⟨advances, last, cases⟩ := Advances.addCases routine value targets 0 [] _ below
      (List.forall_mem_nil _)
    have added := opened.advance advances
    have going := added.stamped.branchFrom routine (last.mono added.bounded) next
    exact going.branchFrom_each routine fun one member =>
      (cases one member).mono added.bounded
  · exact stamping.stamped.fail _

/-! ### Leaving -/

theorem finish (stamping : Stamping bound walk) (value : Option Expr) :
    (walk.finish routine value).Stamped := by
  cases value with
  | some value =>
    have stored : Stamping bound (walk.emit routine (.store .returnSlot value
      (.ofName routine.method.returnType) walk.location)) := stamping.emit_quiet routine rfl
    exact ((stored.currentNode routine).1.advance (.link _ _ Procedure.exit)).stamped
  | none => exact ((stamping.currentNode routine).1.advance (.link _ _ Procedure.exit)).stamped

theorem raise (stamping : Stamping bound walk) (exception : Value) :
    (walk.raise routine exception).Stamped := by
  have stored : Stamping bound (walk.emit routine (.store .returnSlot (.thrown exception.expr)
    exception.typ walk.location)) := stamping.emit_quiet routine rfl
  have destined := (stored.currentNode routine).1.advance (.exceptionDestination routine _)
  exact (destined.advance (.link _ _ _)).stamped

theorem enterFinally (stamping : Stamping bound walk) (position : Nat) (target : Offset) :
    (walk.enterFinally routine position (.continue target)).Stamped := by
  unfold Walk.enterFinally
  split
  · exact (stamping.currentNode routine).1.stamped.queue (.of_newBlock (.nil _) rfl)
  · exact stamping.stamped.fail _

/-- Whatever a path gives up, the walk stays `Stamped`. -/
theorem of_live {stack : List Value} {finallyExit : Option FinallyExit}
    (stamping : Stamping bound walk) (stackKept : identsOf stack ⊆ identsOf walk.stack)
    (contextKept : contextIdents finallyExit ⊆ contextIdents walk.finallyExit) :
    Stamping bound { walk with stack, finallyExit } where
  stamped := by
    refine ⟨stamping.stamped.rising, stamping.stamped.live.of_subset ?_, stamping.stamped.waiting⟩
    refine List.append_subset.mpr ⟨List.subset_append_of_subset_left _ stackKept,
      List.subset_append_of_subset_right _ (List.append_subset.mpr ⟨?_, ?_⟩)⟩
    · exact List.subset_append_left _ _
    · exact List.subset_append_of_subset_right _ contextKept
  bounded := stamping.bounded
  current := stamping.current

theorem leave (stamping : Stamping bound walk) (target : Offset) :
    (walk.leave routine target).Stamped := by
  have cleared : Stamping bound { walk with stack := [] } :=
    stamping.of_live (List.nil_subset _) (List.Subset.refl _)
  unfold Walk.leave
  dsimp only
  split
  · exact enterFinally routine cleared _ target
  · exact jump routine cleared target

theorem endFinally (stamping : Stamping bound walk) : (walk.endFinally routine).Stamped := by
  unfold Walk.endFinally
  split
  · have cleared : Stamping bound { walk with stack := [], finallyExit := none } :=
      stamping.of_live (List.nil_subset _) (List.nil_subset _)
    exact jump routine cleared _
  · have cleared : Stamping bound { walk with finallyExit := none } :=
      stamping.of_live (List.Subset.refl _) (List.nil_subset _)
    exact raise routine cleared _
  · exact stamping.stamped.fail _

/-- After `perform` the walk is `Stamped`. -/
theorem perform (stamping : Stamping bound walk) (operation : Operation) :
    (walk.perform routine operation).Stamped := by
  cases operation with
  | proceed => exact stamping.fallThrough routine
  | load address typ => exact (stamping.load routine address typ).fallThrough routine
  | store address typ value => exact (stamping.emit_quiet routine rfl).fallThrough routine
  | invoke callee arguments isVirtual =>
    exact (stamping.invoke routine callee arguments isVirtual).fallThrough routine
  | construct callee arguments =>
    obtain ⟨higher, constructed⟩ := stamping.construct routine callee arguments
    exact constructed.fallThrough routine
  | jump target => exact stamping.jump routine target
  | branch condition target => exact stamping.branch routine condition target
  | select value targets => exact stamping.select routine value targets
  | finish value => exact stamping.finish routine value
  | raise exception => exact stamping.raise routine exception
  | leave target => exact stamping.leave routine target
  | endFinally => exact stamping.endFinally routine

end Stamping

end Walk

end BytecodeFlow

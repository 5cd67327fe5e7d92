/-
This file says exactly what performing an operation builds in a routine of
which nothing is protected (`Routine.Unguarded`). Commands are written into the
node of the block (`inBlock`), which is opened after the node that the path
followed. Then the path goes on from there (`Straight`), comes to forks
(`Forked`), or ends (`Closing`); what it queues is known in full.
-/

import BytecodeFlow.Proofs.Walk.Performing
import BytecodeFlow.Proofs.Walk.Resolution

namespace BytecodeFlow

/-- Nothing in the code of a routine is protected, as its `Regions` say. -/
structure Routine.Unguarded (routine : Routine) : Prop where
  raises : ∀ offset, routine.regions.exceptionTarget? offset = none
  leaves : ∀ offset target, routine.regions.finallyForLeave? offset target = none

theorem Routine.unguarded_ofBody (declaring : String) (method : MethodDef) {body : MethodBody}
    (plain : body.handlers = []) : (Routine.ofBody declaring method body).Unguarded := by
  have catches : (Routine.ofBody declaring method body).regions.catches = [] := by
    simp [Routine.ofBody, Regions.analyze, plain]
  have finallies : (Routine.ofBody declaring method body).regions.finallies = [] := by
    simp [Routine.ofBody, Regions.analyze, plain]
  constructor
  · intro offset
    simp [Regions.exceptionTarget?, Regions.innermost?, Regions.all, catches, finallies,
      firstLeast?]
  · intro offset target
    simp [Regions.finallyForLeave?, finallies, firstLeast?]

/-! ### Forks in a row -/

namespace Procedure

/-- Add a node to which another leads. -/
def addWay (procedure : Procedure) (source : NodeIndex) (node : Node) : Procedure :=
  (procedure.addNode node).link source procedure.size

section Way

variable {procedure : Procedure} {source : NodeIndex} (node : Node)

@[simp]
theorem size_addWay : (procedure.addWay source node).size = procedure.size + 1 := by
  rw [addWay, size_link, size_addNode]

theorem node?_addWay_of_lt {index : NodeIndex} (known : index < procedure.size)
    (other : index ≠ source) :
    (procedure.addWay source node).node? index = procedure.node? index := by
  rw [addWay, node?_link_of_ne _ other, node?_addNode_of_ne _ _ (Nat.ne_of_lt known)]

theorem commandsOf_addWay {index : NodeIndex} (known : index < procedure.size) :
    (procedure.addWay source node).commandsOf index = procedure.commandsOf index := by
  rw [addWay, commandsOf_link]
  exact commandsOf_congr (node?_addNode_of_ne _ _ (Nat.ne_of_lt known))

theorem commandsOf_addWay_self :
    (procedure.addWay source node).commandsOf procedure.size = node.commands := by
  rw [addWay, commandsOf_link, commandsOf, node?_addNode_self]
  rfl

/-- The new node comes last among the successors of its source. -/
theorem successorsOf_addWay (known : source < procedure.size)
    (closed : node.successors = []) (fresh : procedure.size ∉ procedure.successorsOf source) :
    (procedure.addWay source node).successorsOf source =
      procedure.successorsOf source ++ [procedure.size] := by
  have same := successorsOf_addNode procedure closed source
  rw [addWay, successorsOf_link_self (by rw [size_addNode]; exact Nat.lt_succ_of_lt known)
    (by rw [same]; exact fresh), same]

theorem successorsOf_addWay_self (known : source < procedure.size)
    (closed : node.successors = []) :
    (procedure.addWay source node).successorsOf procedure.size = [] := by
  rw [addWay, successorsOf_link_of_ne _ (Nat.ne_of_gt known), successorsOf_addNode _ closed,
    successorsOf_of_size_le (Nat.le_refl _)]

theorem Extends.addWay (procedure : Procedure) (source : NodeIndex) (node : Node) :
    procedure.Extends (procedure.addWay source node) :=
  (Extends.addNode procedure node).trans (.link _ source procedure.size)

end Way

/-- From a source on, each of some conditions is tested in turn. The ways are those on which a
condition holds, each with the offset that it leads to; on the last node all conditions failed. -/
inductive Tests (procedure : Procedure) (kind : BranchKind) :
    (source : NodeIndex) → (arms : List (Expr × Offset)) → (last : NodeIndex) →
      (ways : List (NodeIndex × Offset)) → Prop
  | done (source : NodeIndex) : Tests procedure kind source [] source []
  | test {source taken notTaken last : NodeIndex} {condition : Expr} {target : Offset}
    {arms : List (Expr × Offset)} {ways : List (NodeIndex × Offset)}
    (location otherLocation : Location)
    (branches : procedure.successorsOf source = [taken, notTaken])
    (holds : procedure.commandsOf taken = [.prune condition true kind location])
    (fails : procedure.commandsOf notTaken =
      [.prune (.not condition) false kind otherLocation])
    (rest : Tests procedure kind notTaken arms last ways) :
    Tests procedure kind source ((condition, target) :: arms) last ((taken, target) :: ways)

end Procedure

/-- The conditions that a value is the position of one of the targets. -/
def Operation.armsFrom (value : Expr) : (position : Nat) → List Offset → List (Expr × Offset)
  | _, [] => []
  | position, target :: rest =>
    (.binary .equal value (.int position), target) :: armsFrom value (position + 1) rest

/-- The conditions that an operation tests in turn, with the targets they lead to; those of a
`select` are its `armsFrom`. -/
inductive Operation.Forking : Operation → BranchKind → List (Expr × Offset) → Prop
  | branch (condition : Expr) (target : Offset) :
    Forking (.branch condition target) .conditional [(condition, target)]
  | select (value : Expr) (targets : List Offset) :
    Forking (.select value targets) .switch (armsFrom value 0 targets)

/-- The path that goes on from a node at an offset. -/
def Routine.pathTo (routine : Routine) (stack : List Value) (nextStamp : Nat)
    (way : NodeIndex × Offset) : Pending where
  offset := way.2
  previous := way.1
  stack
  nextStamp
  continuation := if routine.leaders.contains way.2 then .newBlock else .append way.1
  finallyExit := none

namespace Walk

/-! ### The node of the block -/

/-- The node that the current block has, or gets when it needs one. -/
def blockNode (walk : Walk) : NodeIndex := walk.current.getD walk.procedure.size

/-- The commands that are in the current block already. -/
def written (walk : Walk) : List Command := (walk.current.map walk.procedure.commandsOf).getD []

/-- The `opened` nodes, together with that of the current block. -/
def recorded (walk : Walk) : Std.ExtTreeMap Offset (List (NodeIndex × List Value)) :=
  match walk.current with
  | some _ => walk.opened
  | none => walk.opened.insert walk.blockStart
      (walk.opened.getD walk.blockStart [] ++ [(walk.procedure.size, walk.blockStack)])

/-- The walk in its `blockNode`, with another procedure. -/
def inBlock (walk : Walk) (procedure : Procedure) : Walk :=
  { walk with procedure, opened := walk.recorded, current := some walk.blockNode }

/-- In a procedure the `blockNode` of a walk is there, and holds some more commands than are
`written`. -/
structure Written (walk : Walk) (commands : List Command) (procedure : Procedure) : Prop where
  known : walk.blockNode < procedure.size
  commands : procedure.commandsOf walk.blockNode = walk.written ++ commands
  entered : walk.current = none → walk.blockNode ∈ procedure.successorsOf walk.previous

/-- The `owner` of the path of a walk has no way out. -/
structure Hangs (walk : Walk) : Prop where
  known : walk.owner < walk.procedure.size
  loose : walk.procedure.successorsOf walk.owner = []

section Block

variable {routine : Routine} {walk : Walk} {commands : List Command} {procedure : Procedure}

theorem Written.append (written : walk.Written commands procedure) (more : List Command) :
    walk.Written (commands ++ more) (procedure.append walk.blockNode more) where
  known := by
    rw [Procedure.size_append]
    exact written.known
  commands := by
    rw [Procedure.commandsOf_append_self written.known, written.commands, List.append_assoc]
  entered fresh := by
    rw [Procedure.successorsOf_append]
    exact written.entered fresh

/-- More ways out do not matter. -/
theorem Written.extends {later : Procedure} (written : walk.Written commands procedure)
    (extended : procedure.Extends later)
    (same : later.commandsOf walk.blockNode = procedure.commandsOf walk.blockNode) :
    walk.Written commands later where
  known := Nat.lt_of_lt_of_le written.known extended.size_le
  commands := same.trans written.commands
  entered fresh := (extended.successorsOf walk.previous).subset (written.entered fresh)

theorem openNode_unguarded (unguarded : routine.Unguarded) (hangs : walk.Hangs)
    (kind : NodeKind) :
    ∃ procedure, walk.Written [] procedure ∧ procedure.successorsOf walk.blockNode = [] ∧
      walk.openNode routine kind = (walk.inBlock procedure, walk.blockNode) := by
  unfold openNode
  cases current : walk.current with
  | some node =>
    have owns : walk.owner = walk.blockNode := by
      unfold owner blockNode
      rw [current]
      rfl
    refine ⟨walk.procedure, ⟨owns ▸ hangs.known, ?_, fun fresh => ?_⟩, owns ▸ hangs.loose, ?_⟩
    · simp [written, blockNode, current]
    · rw [current] at fresh
      cases fresh
    · unfold inBlock recorded blockNode
      rw [current]
      cases walk
      cases current
      rfl
  | none =>
    have owns : walk.owner = walk.previous := by
      unfold owner
      rw [current]
      rfl
    have fresh : walk.blockNode = walk.procedure.size := by
      unfold blockNode
      rw [current]
      rfl
    have known := owns ▸ hangs.known
    have loose := owns ▸ hangs.loose
    let node := { Node.empty kind walk.location with
      blockEnd := routine.regions.blockEnd? walk.blockStart }
    refine ⟨walk.procedure.addWay walk.previous node, ⟨?_, ?_, fun _ => ?_⟩, ?_, ?_⟩
    · rw [fresh, Procedure.size_addWay]
      exact Nat.lt_succ_self _
    · rw [fresh, Procedure.commandsOf_addWay_self, written, current]
      rfl
    · rw [fresh, Procedure.successorsOf_addWay node known rfl (by simp [loose])]
      exact List.mem_append_right _ (List.mem_singleton_self _)
    · rw [fresh]
      exact Procedure.successorsOf_addWay_self node known rfl
    · unfold addBlockNode attachHandler inBlock recorded
      simp only [unguarded.raises, current, fresh]
      rfl

theorem emit_unguarded (unguarded : routine.Unguarded) (hangs : walk.Hangs) (command : Command) :
    ∃ procedure, walk.Written [command] procedure ∧ procedure.successorsOf walk.blockNode = [] ∧
      walk.emit routine command = walk.inBlock procedure := by
  obtain ⟨procedure, written, loose, opened⟩ := openNode_unguarded unguarded hangs .statement
  refine ⟨procedure.append walk.blockNode [command], written.append [command], ?_, ?_⟩
  · rw [Procedure.successorsOf_append]
    exact loose
  · unfold emit
    rw [opened]
    rfl

end Block

/-! ### Forks -/

section Forks

variable {routine : Routine} {procedure : Procedure} {source : NodeIndex}

theorem addPrune_unguarded (unguarded : routine.Unguarded) (walk : Walk) (source : NodeIndex)
    (condition : Expr) (branch : Bool) (kind : BranchKind) :
    walk.addPrune routine source condition branch kind =
      ({ walk with
        procedure := walk.procedure.addWay source (pruneNode condition branch kind walk.location
          (routine.regions.blockEnd? walk.offset)) }, walk.procedure.size) := by
  unfold addPrune attachHandler
  simp only [unguarded.raises]
  rfl

/-- What two ways out of a node do to a procedure. -/
structure Forked (first second : Procedure) (source : NodeIndex) (condition : Expr)
    (kind : BranchKind) : Prop where
  size : second.size = first.size + 2
  branches : second.successorsOf source = [first.size, first.size + 1]
  holds : ∃ location, second.commandsOf first.size = [.prune condition true kind location]
  fails : ∃ location,
    second.commandsOf (first.size + 1) = [.prune (.not condition) false kind location]
  loose : second.successorsOf (first.size + 1) = []
  kept : ∀ index < first.size, index ≠ source → second.node? index = first.node? index
  commands : ∀ index < first.size, second.commandsOf index = first.commandsOf index

theorem forked (known : source < procedure.size)
    (loose : procedure.successorsOf source = []) (condition : Expr) (kind : BranchKind)
    (location : Location) (blockEnd : Option Offset) :
    Forked procedure
      ((procedure.addWay source (pruneNode condition true kind location blockEnd)).addWay
        source (pruneNode (.not condition) false kind location blockEnd))
      source condition kind := by
  generalize firstWay : pruneNode condition true kind location blockEnd = taken
  generalize secondWay : pruneNode (.not condition) false kind location blockEnd = notTaken
  have takenCloses : taken.successors = [] := by
    rw [← firstWay]
    rfl
  have notTakenCloses : notTaken.successors = [] := by
    rw [← secondWay]
    rfl
  have size : (procedure.addWay source taken).size = procedure.size + 1 :=
    Procedure.size_addWay taken
  have older : ∀ index ≤ procedure.size,
      index < (procedure.addWay source taken).size := fun index old => by
    rw [size]
    exact Nat.lt_succ_of_le old
  have stillKnown := older source (Nat.le_of_lt known)
  have first : (procedure.addWay source taken).successorsOf source =
      [procedure.size] := by
    rw [Procedure.successorsOf_addWay taken known takenCloses (by simp [loose]), loose]
    rfl
  constructor
  · rw [Procedure.size_addWay, size]
  · rw [Procedure.successorsOf_addWay notTaken stillKnown notTakenCloses (by simp [first, size]),
      first, size]
    rfl
  · refine ⟨location, ?_⟩
    rw [Procedure.commandsOf_addWay notTaken (older _ (Nat.le_refl _)),
      Procedure.commandsOf_addWay_self,
      ← firstWay]
    rfl
  · refine ⟨location, ?_⟩
    rw [← size, Procedure.commandsOf_addWay_self, ← secondWay]
    rfl
  · rw [← size]
    exact Procedure.successorsOf_addWay_self notTaken stillKnown notTakenCloses
  · intro index old other
    rw [Procedure.node?_addWay_of_lt notTaken (older _ (Nat.le_of_lt old)) other,
      Procedure.node?_addWay_of_lt taken old other]
  · intro index old
    rw [Procedure.commandsOf_addWay notTaken (older _ (Nat.le_of_lt old)),
      Procedure.commandsOf_addWay taken old]

/-- The `Tests` of the positions of the targets follow each other. -/
theorem addCases_unguarded (unguarded : routine.Unguarded) (value : Expr) (targets : List Offset)
    (position : Nat) (source : NodeIndex) (reversed : List (NodeIndex × Offset)) (walk : Walk)
    (known : source < walk.procedure.size) (loose : walk.procedure.successorsOf source = []) :
    ∃ procedure last ways,
      addCases routine value position targets source reversed walk =
        ({ walk with procedure }, last, ways.reverse ++ reversed) ∧
      procedure.Tests .switch source (Operation.armsFrom value position targets) last ways ∧
      walk.procedure.Extends procedure ∧
      (∀ index < walk.procedure.size, index ≠ source →
        procedure.node? index = walk.procedure.node? index) ∧
      (∀ index < walk.procedure.size,
        procedure.commandsOf index = walk.procedure.commandsOf index) := by
  induction targets generalizing position source reversed walk with
  | nil =>
    exact ⟨walk.procedure, source, [], rfl, .done source, .refl _, fun _ _ _ => rfl,
      fun _ _ => rfl⟩
  | cons target rest inductionHypothesis =>
    let condition : Expr := .binary .equal value (.int position)
    let blockEnd := routine.regions.blockEnd? walk.offset
    let fork := (walk.procedure.addWay source
      (pruneNode condition true .switch walk.location blockEnd)).addWay source
        (pruneNode (.not condition) false .switch walk.location blockEnd)
    have forked : Forked walk.procedure fork source condition .switch :=
      Walk.forked known loose condition .switch walk.location blockEnd
    have newest : walk.procedure.size + 1 < fork.size := by
      rw [forked.size]
      exact Nat.lt_succ_self _
    have older : ∀ index ≤ walk.procedure.size, index < fork.size := fun index old =>
      Nat.lt_of_le_of_lt (Nat.le_succ_of_le old) newest
    obtain ⟨procedure, last, ways, built, tests, extended, kept, commands⟩ :=
      inductionHypothesis (position + 1) (walk.procedure.size + 1)
        ((walk.procedure.size, target) :: reversed) { walk with procedure := fork }
        newest forked.loose
    have sourceKept := kept source (older _ (Nat.le_of_lt known))
      (Nat.ne_of_lt (Nat.lt_succ_of_lt known))
    obtain ⟨location, holds⟩ := forked.holds
    obtain ⟨otherLocation, fails⟩ := forked.fails
    refine ⟨procedure, last, (walk.procedure.size, target) :: ways, ?_,
      .test location otherLocation ?_ ?_ ?_ tests,
      ((Procedure.Extends.addWay _ _ _).trans (.addWay _ _ _)).trans extended, ?_, ?_⟩
    · unfold addCases
      simp only [addPrune_unguarded unguarded, Procedure.size_addWay]
      rw [List.reverse_cons, List.append_assoc]
      exact built
    · rw [Procedure.successorsOf_congr sourceKept]
      exact forked.branches
    · rw [commands _ (older _ (Nat.le_refl _))]
      exact holds
    · rw [commands _ newest]
      exact fails
    · intro index old other
      rw [kept index (older _ (Nat.le_of_lt old)) (Nat.ne_of_lt (Nat.lt_succ_of_lt old))]
      exact forked.kept index old other
    · intro index old
      rw [commands index (older _ (Nat.le_of_lt old))]
      exact forked.commands index old

end Forks

/-! ### Operations -/

/-- The operations that write commands and go on at one offset, with an operand stack and the
number of the next temporary. -/
inductive Straight (routine : Routine) (walk : Walk) :
    Operation → List Command → Offset → List Value → Nat → Prop
  | load {address : Expr} {typ : Typ} {next : Offset}
    (following : routine.nextOffset? walk.offset = some next) :
    Straight routine walk (.load address typ) [.load walk.nextIdent address typ walk.location]
      next (⟨.var walk.nextIdent, typ⟩ :: walk.stack) (walk.nextStamp + 1)
  | store {address value : Expr} {typ : Typ} {next : Offset}
    (following : routine.nextOffset? walk.offset = some next) :
    Straight routine walk (.store address typ value) [.store address value typ walk.location]
      next walk.stack walk.nextStamp
  | invoke {callee : MethodRef} {arguments : List Value} {isVirtual : Bool} {next : Offset}
    (following : routine.nextOffset? walk.offset = some next) :
    Straight routine walk (.invoke callee arguments isVirtual)
      [.call walk.nextIdent (.ofName callee.returnType) (.function callee.fullName) arguments
        isVirtual walk.location]
      next (if callee.returnType = voidName then walk.stack
        else ⟨.var walk.nextIdent, .ofName callee.returnType⟩ :: walk.stack) (walk.nextStamp + 1)
  | construct {callee : MethodRef} {arguments : List Value} {next : Offset}
    (following : routine.nextOffset? walk.offset = some next) :
    Straight routine walk (.construct callee arguments)
      [.call walk.nextIdent (.ofName callee.declaringType) (.function allocateFunction)
          [⟨.sizeOf (Typ.ofName callee.declaringType).stripPointer, .void⟩] false walk.location,
        .call ⟨walk.nextStamp + 1⟩ .void (.function callee.fullName)
          (⟨.var walk.nextIdent, .ofName callee.declaringType⟩ :: arguments) false walk.location]
      next (⟨.var walk.nextIdent, .ofName callee.declaringType⟩ :: walk.stack) (walk.nextStamp + 2)
  | jump {target : Offset} :
    Straight routine walk (.jump target) [] target walk.stack walk.nextStamp
  | leave {target : Offset} : Straight routine walk (.leave target) [] target [] walk.nextStamp

/-- The operations that end a path, with what they write and where they lead. -/
inductive Closing (routine : Routine) (walk : Walk) :
    Operation → List Command → NodeIndex → Prop
  | finish : Closing routine walk (.finish none) [] Procedure.exit
  | finishWith {value : Expr} :
    Closing routine walk (.finish (some value))
      [.store .returnSlot value (.ofName routine.method.returnType) walk.location] Procedure.exit
  | raise {exception : Value} :
    Closing routine walk (.raise exception)
      [.store .returnSlot (.thrown exception.expr) exception.typ walk.location] Procedure.sink

theorem Closing.destination_cases {routine : Routine} {walk : Walk} {operation : Operation}
    {commands : List Command} {destination : NodeIndex}
    (closing : Closing routine walk operation commands destination) :
    destination = Procedure.exit ∨ destination = Procedure.sink := by
  cases closing with
  | finish => exact .inl rfl
  | finishWith => exact .inl rfl
  | raise => exact .inr rfl

/-- What performing an operation makes of a walk, where the operation is `Straight`, `Forking` or
`Closing`, or writes nothing. -/
inductive Performed (routine : Routine) (walk : Walk) : Operation → Walk → Prop
  | proceed {next : Offset} (following : routine.nextOffset? walk.offset = some next) :
    Performed routine walk .proceed (walk.queue (walk.fallThroughTo routine next))
  | straight {operation : Operation} {commands : List Command} {target : Offset}
    {stack : List Value} {nextStamp : Nat} {after : Walk}
    (straight : Straight routine walk operation commands target stack nextStamp)
    (written : walk.Written commands after.procedure) (opened : after.opened = walk.recorded)
    (worklist : after.worklist =
      routine.pathTo stack nextStamp (walk.blockNode, target) :: walk.worklist) :
    Performed routine walk operation after
  | forking {operation : Operation} {kind : BranchKind} {arms : List (Expr × Offset)}
    {next : Offset} {last : NodeIndex} {ways : List (NodeIndex × Offset)} {after : Walk}
    (forking : operation.Forking kind arms)
    (following : routine.nextOffset? walk.offset = some next)
    (written : walk.Written [] after.procedure) (opened : after.opened = walk.recorded)
    (tests : after.procedure.Tests kind walk.blockNode arms last ways)
    (worklist : after.worklist =
      (ways ++ [(last, next)]).map (routine.pathTo walk.stack walk.nextStamp) ++ walk.worklist) :
    Performed routine walk operation after
  | closing {operation : Operation} {commands : List Command} {destination : NodeIndex}
    {after : Walk} (closing : Closing routine walk operation commands destination)
    (written : walk.Written commands after.procedure) (opened : after.opened = walk.recorded)
    (ends : destination ∈ after.procedure.successorsOf walk.blockNode)
    (worklist : after.worklist = walk.worklist) : Performed routine walk operation after

/-- A node is opened and recorded unless there is nothing to do. -/
theorem Performed.opened_cases {routine : Routine} {walk after : Walk} {operation : Operation}
    (performed : Performed routine walk operation after) :
    (operation = .proceed ∧ after.opened = walk.opened) ∨
      (operation ≠ .proceed ∧ after.opened = walk.recorded) := by
  cases performed with
  | proceed => exact .inl ⟨rfl, rfl⟩
  | straight straight written opened =>
    refine .inr ⟨?_, opened⟩
    rintro rfl
    cases straight
  | forking forking following written opened =>
    refine .inr ⟨?_, opened⟩
    rintro rfl
    cases forking
  | closing closing written opened =>
    refine .inr ⟨?_, opened⟩
    rintro rfl
    cases closing

/-- Where control can go on to the next instruction there is one. -/
theorem Performed.following {routine : Routine} {walk after : Walk} {operation : Operation}
    (performed : Performed routine walk operation after)
    (falls : operation.fallsThrough = true) :
    ∃ next, routine.nextOffset? walk.offset = some next := by
  cases performed with
  | proceed following => exact ⟨_, following⟩
  | straight straight =>
    cases straight with
    | load following => exact ⟨_, following⟩
    | store following => exact ⟨_, following⟩
    | invoke following => exact ⟨_, following⟩
    | construct following => exact ⟨_, following⟩
    | jump => cases falls
    | leave => cases falls
  | forking forking following => exact ⟨_, following⟩
  | closing closing => cases closing <;> cases falls

theorem Performed.ne_endFinally {routine : Routine} {walk after : Walk} {operation : Operation}
    (performed : Performed routine walk operation after) : operation ≠ .endFinally := by
  rintro rfl
  cases performed with
  | straight straight => cases straight
  | forking forking => cases forking
  | closing closing => cases closing

section Operations

variable {routine : Routine} {walk : Walk}

theorem fallThrough_of_no_fault (goesOn : (walk.fallThrough routine).fault = none) :
    ∃ next, routine.nextOffset? walk.offset = some next ∧
      walk.fallThrough routine = walk.queue (walk.fallThroughTo routine next) := by
  unfold fallThrough at goesOn ⊢
  cases following : routine.nextOffset? walk.offset with
  | none =>
    rw [following] at goesOn
    cases goesOn
  | some next => exact ⟨next, rfl, rfl⟩

theorem fallThroughTo_path (routine : Routine) (walk : Walk) (next : Offset) :
    (walk.fallThroughTo routine next).offset = next ∧
      (walk.fallThroughTo routine next).stack = walk.stack := by
  unfold fallThroughTo
  split
  · exact ⟨rfl, rfl⟩
  · cases walk.current <;> exact ⟨rfl, rfl⟩

theorem fallThroughTo_previous (routine : Routine) (walk : Walk) (next : Offset) :
    (walk.fallThroughTo routine next).previous = walk.owner := by
  unfold fallThroughTo owner
  split
  · rfl
  · cases walk.current <;> rfl

theorem fallThroughTo_of_current {node : NodeIndex} (current : walk.current = some node)
    (outside : walk.finallyExit = none) (next : Offset) :
    walk.fallThroughTo routine next =
      routine.pathTo walk.stack walk.nextStamp (node, next) := by
  unfold fallThroughTo snapshot Routine.pathTo
  simp only [current, outside]
  split <;> rfl

theorem branchFrom_eq (walk : Walk) (outside : walk.finallyExit = none) (source : NodeIndex)
    (target : Offset) :
    walk.branchFrom routine source target =
      walk.queue (routine.pathTo walk.stack walk.nextStamp (source, target)) := by
  unfold branchFrom snapshot Routine.pathTo
  simp only [outside]

/-- A path that wrote its commands goes on with the next instruction. -/
theorem performed_fallThrough {reached : Walk} {operation : Operation} {commands : List Command}
    (current : reached.current = some walk.blockNode) (opened : reached.opened = walk.recorded)
    (worklist : reached.worklist = walk.worklist) (offset : reached.offset = walk.offset)
    (outside : reached.finallyExit = none) (written : walk.Written commands reached.procedure)
    (straight : ∀ next, routine.nextOffset? walk.offset = some next →
      Straight routine walk operation commands next reached.stack reached.nextStamp)
    (goesOn : (reached.fallThrough routine).fault = none) :
    Performed routine walk operation (reached.fallThrough routine) := by
  obtain ⟨next, following, falls⟩ := fallThrough_of_no_fault goesOn
  rw [offset] at following
  rw [falls, fallThroughTo_of_current current outside next]
  exact .straight (straight next following) written opened (congrArg (_ :: ·) worklist)

theorem performed_jump (unguarded : routine.Unguarded) (hangs : walk.Hangs)
    (outside : walk.finallyExit = none) {operation : Operation} {target : Offset}
    {stack : List Value}
    (straight : Straight routine walk operation [] target stack walk.nextStamp) :
    Performed routine walk operation ({ walk with stack }.jump routine target) := by
  have hangsStill : Hangs { walk with stack } := ⟨hangs.known, hangs.loose⟩
  obtain ⟨procedure, written, -, opened⟩ := openNode_unguarded unguarded hangsStill .join
  unfold jump currentNode
  rw [opened]
  refine .straight straight ⟨written.known, written.commands, written.entered⟩ rfl ?_
  dsimp only
  rw [branchFrom_eq (inBlock { walk with stack } procedure) outside]
  rfl

/-- The paths to several targets are queued in order. -/
theorem branchFrom_each_eq (walk : Walk) (outside : walk.finallyExit = none)
    (ways : List (NodeIndex × Offset)) :
    ways.reverse.foldl (fun walk (taken, target) => walk.branchFrom routine taken target) walk =
      { walk with
        worklist := ways.map (routine.pathTo walk.stack walk.nextStamp) ++ walk.worklist } := by
  induction ways with
  | nil => rfl
  | cons way rest inductionHypothesis =>
    rw [List.reverse_cons, List.foldl_append, inductionHypothesis, List.foldl_cons, List.foldl_nil]
    exact branchFrom_eq { walk with
      worklist := rest.map (routine.pathTo walk.stack walk.nextStamp) ++ walk.worklist } outside
      way.1 way.2

theorem performed_branch (unguarded : routine.Unguarded) (hangs : walk.Hangs)
    (outside : walk.finallyExit = none) {condition : Expr} {target : Offset}
    (goesOn : (walk.branch routine condition target).fault = none) :
    Performed routine walk (.branch condition target) (walk.branch routine condition target) := by
  obtain ⟨procedure, written, loose, opened⟩ := openNode_unguarded unguarded hangs .join
  unfold branch at goesOn ⊢
  cases following : routine.nextOffset? walk.offset with
  | none =>
    rw [following] at goesOn
    cases goesOn
  | some next =>
    let fork := (procedure.addWay walk.blockNode (pruneNode condition true .conditional
      walk.location (routine.regions.blockEnd? walk.offset))).addWay walk.blockNode
        (pruneNode (.not condition) false .conditional walk.location
          (routine.regions.blockEnd? walk.offset))
    have forked : Forked procedure fork walk.blockNode condition .conditional :=
      Walk.forked written.known loose condition .conditional _ _
    obtain ⟨location, holds⟩ := forked.holds
    obtain ⟨otherLocation, fails⟩ := forked.fails
    simp only [currentNode, opened, addPrune_unguarded unguarded, Procedure.size_addWay]
    change Performed routine walk (.branch condition target)
      (((walk.inBlock fork).branchFrom routine (procedure.size + 1) next).branchFrom routine
        procedure.size target)
    rw [branchFrom_eq (walk.inBlock fork) outside,
      branchFrom_eq ((walk.inBlock fork).queue _) outside]
    exact .forking (.branch condition target) following
      (written.extends ((Procedure.Extends.addWay _ _ _).trans (.addWay _ _ _))
        (forked.commands _ written.known)) rfl
      (.test location otherLocation forked.branches holds fails (.done _)) rfl

theorem performed_select (unguarded : routine.Unguarded) (hangs : walk.Hangs)
    (outside : walk.finallyExit = none) {value : Expr} {targets : List Offset}
    (goesOn : (walk.select routine value targets).fault = none) :
    Performed routine walk (.select value targets) (walk.select routine value targets) := by
  obtain ⟨procedure, written, loose, opened⟩ := openNode_unguarded unguarded hangs .join
  unfold select at goesOn ⊢
  cases following : routine.nextOffset? walk.offset with
  | none =>
    rw [following] at goesOn
    cases goesOn
  | some next =>
    obtain ⟨forked, last, ways, built, tests, extended, -, commands⟩ := addCases_unguarded unguarded
      value targets 0 walk.blockNode [] (walk.inBlock procedure) written.known loose
    simp only [currentNode, opened, built, List.append_nil]
    change Performed routine walk (.select value targets)
      (ways.reverse.foldl (fun walk (taken, target) => walk.branchFrom routine taken target)
        ((walk.inBlock forked).branchFrom routine last next))
    rw [branchFrom_eq (walk.inBlock forked) outside, 
      branchFrom_each_eq ((walk.inBlock forked).queue _) outside]
    refine .forking (.select value targets) following
      (written.extends extended (commands _ written.known)) rfl tests ?_
    rw [List.map_append, List.append_assoc]
    rfl

theorem performed_load (unguarded : routine.Unguarded) (hangs : walk.Hangs)
    (outside : walk.finallyExit = none) {address : Expr} {typ : Typ}
    (goesOn : (walk.perform routine (.load address typ)).fault = none) :
    Performed routine walk (.load address typ) (walk.perform routine (.load address typ)) := by
  have hangsStill : (walk.useIdents 1).Hangs := ⟨hangs.known, hangs.loose⟩
  obtain ⟨procedure, written, -, emitted⟩ := emit_unguarded unguarded hangsStill
    (.load walk.nextIdent address typ walk.location)
  unfold perform load at goesOn ⊢
  dsimp only at goesOn ⊢
  rw [emitted] at goesOn ⊢
  exact performed_fallThrough rfl rfl rfl rfl outside
    ⟨written.known, written.commands, written.entered⟩ (fun _ following => .load following) goesOn

theorem performed_store (unguarded : routine.Unguarded) (hangs : walk.Hangs)
    (outside : walk.finallyExit = none) {address value : Expr} {typ : Typ}
    (goesOn : (walk.perform routine (.store address typ value)).fault = none) :
    Performed routine walk (.store address typ value)
      (walk.perform routine (.store address typ value)) := by
  obtain ⟨procedure, written, -, emitted⟩ := emit_unguarded unguarded hangs
    (.store address value typ walk.location)
  unfold perform at goesOn ⊢
  dsimp only at goesOn ⊢
  rw [emitted] at goesOn ⊢
  exact performed_fallThrough rfl rfl rfl rfl outside written (fun _ following => .store following)
    goesOn

theorem performed_invoke (unguarded : routine.Unguarded) (hangs : walk.Hangs)
    (outside : walk.finallyExit = none) {callee : MethodRef} {arguments : List Value}
    {isVirtual : Bool}
    (goesOn : (walk.perform routine (.invoke callee arguments isVirtual)).fault = none) :
    Performed routine walk (.invoke callee arguments isVirtual)
      (walk.perform routine (.invoke callee arguments isVirtual)) := by
  have hangsStill : (walk.useIdents 1).Hangs := ⟨hangs.known, hangs.loose⟩
  obtain ⟨procedure, written, -, emitted⟩ := emit_unguarded unguarded hangsStill
    (.call walk.nextIdent (.ofName callee.returnType) (.function callee.fullName) arguments
      isVirtual walk.location)
  have onward : ∀ next, routine.nextOffset? walk.offset = some next →
      Straight routine walk (.invoke callee arguments isVirtual) _ next _ _ :=
    fun next following => .invoke following
  unfold perform invoke at goesOn ⊢
  dsimp only at goesOn ⊢
  rw [emitted] at goesOn ⊢
  by_cases void : callee.returnType = voidName
  · simp only [if_pos void] at onward goesOn ⊢
    exact performed_fallThrough rfl rfl rfl rfl outside
      ⟨written.known, written.commands, written.entered⟩ onward goesOn
  · simp only [if_neg void] at onward goesOn ⊢
    exact performed_fallThrough rfl rfl rfl rfl outside
      ⟨written.known, written.commands, written.entered⟩ onward goesOn

theorem performed_construct (unguarded : routine.Unguarded) (hangs : walk.Hangs)
    (outside : walk.finallyExit = none) {callee : MethodRef} {arguments : List Value}
    (goesOn : (walk.perform routine (.construct callee arguments)).fault = none) :
    Performed routine walk (.construct callee arguments)
      (walk.perform routine (.construct callee arguments)) := by
  have hangsStill : (walk.useIdents 1).Hangs := ⟨hangs.known, hangs.loose⟩
  obtain ⟨procedure, written, -, emitted⟩ := emit_unguarded unguarded hangsStill
    (.call walk.nextIdent (.ofName callee.declaringType) (.function allocateFunction)
      [⟨.sizeOf (Typ.ofName callee.declaringType).stripPointer, .void⟩] false walk.location)
  have called := written.append [.call ⟨walk.nextStamp + 1⟩ .void (.function callee.fullName)
    (⟨.var walk.nextIdent, .ofName callee.declaringType⟩ :: arguments) false walk.location]
  unfold perform construct at goesOn ⊢
  dsimp only at goesOn ⊢
  rw [emitted] at goesOn ⊢
  exact performed_fallThrough rfl rfl rfl rfl outside
    ⟨called.known, called.commands, called.entered⟩ (fun _ following => .construct following) goesOn

/-- The `blockNode` of a `Closing` operation leads to where the path ends. -/
theorem performed_closing {operation : Operation} {commands : List Command}
    {procedure : Procedure} {destination : NodeIndex}
    (closing : Closing routine walk operation commands destination)
    (written : walk.Written commands procedure)
    (loose : procedure.successorsOf walk.blockNode = []) :
    Performed routine walk operation
      (walk.inBlock (procedure.link walk.blockNode destination)) := by
  refine .closing closing (written.extends (.link _ _ _) (Procedure.commandsOf_link ..)) rfl ?_ rfl
  show destination ∈ (procedure.link walk.blockNode destination).successorsOf walk.blockNode
  rw [Procedure.successorsOf_link_self written.known (by rw [loose]; exact List.not_mem_nil)]
  exact List.mem_append_right _ (List.mem_singleton_self _)

theorem performed_finish (unguarded : routine.Unguarded) (hangs : walk.Hangs)
    (value : Option Expr) :
    Performed routine walk (.finish value) (walk.finish routine value) := by
  cases value with
  | none =>
    obtain ⟨procedure, written, loose, opened⟩ := openNode_unguarded unguarded hangs .join
    have finished : Performed routine walk (.finish none) _ :=
      performed_closing .finish written loose
    unfold finish currentNode
    simp only [opened]
    exact finished
  | some value =>
    obtain ⟨procedure, written, loose, emitted⟩ := emit_unguarded unguarded hangs
      (.store .returnSlot value (.ofName routine.method.returnType) walk.location)
    have finished := performed_closing .finishWith written loose
    unfold finish
    simp only [emitted]
    exact finished

theorem performed_raise (unguarded : routine.Unguarded) (hangs : walk.Hangs) (exception : Value) :
    Performed routine walk (.raise exception) (walk.raise routine exception) := by
  obtain ⟨procedure, written, loose, emitted⟩ := emit_unguarded unguarded hangs
    (.store .returnSlot (.thrown exception.expr) exception.typ walk.location)
  have raised : Performed routine walk (.raise exception) _ :=
    performed_closing .raise written loose
  unfold raise exceptionDestination
  simp only [emitted, unguarded.raises]
  exact raised

/-- An operation without a fault is `Performed` in one of the four ways. -/
theorem performed_of_perform (unguarded : routine.Unguarded) (hangs : walk.Hangs)
    (outside : walk.finallyExit = none) (operation : Operation)
    (goesOn : (walk.perform routine operation).fault = none) :
    Performed routine walk operation (walk.perform routine operation) := by
  cases operation with
  | proceed =>
    obtain ⟨next, following, falls⟩ := fallThrough_of_no_fault goesOn
    rw [perform, falls]
    exact .proceed following
  | load => exact performed_load unguarded hangs outside goesOn
  | store => exact performed_store unguarded hangs outside goesOn
  | invoke => exact performed_invoke unguarded hangs outside goesOn
  | construct => exact performed_construct unguarded hangs outside goesOn
  | jump target => exact performed_jump unguarded hangs outside .jump
  | branch => exact performed_branch unguarded hangs outside goesOn
  | select => exact performed_select unguarded hangs outside goesOn
  | finish value => exact performed_finish unguarded hangs value
  | raise exception => exact performed_raise unguarded hangs exception
  | leave target =>
    have stays : walk.perform routine (.leave target) =
        { walk with stack := [] }.jump routine target := by
      unfold perform leave
      simp only [unguarded.leaves]
    rw [stays]
    exact performed_jump unguarded hangs outside .leave
  | endFinally =>
    unfold perform endFinally at goesOn
    rw [outside] at goesOn
    cases goesOn

end Operations

end Walk

end BytecodeFlow

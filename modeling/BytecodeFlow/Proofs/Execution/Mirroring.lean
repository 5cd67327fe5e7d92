/-
This file says once what executing an instruction means for the procedure. For
the operation that the instruction resolves to, the expressions that the walk
keeps for its operands have their values; so the loads, stores and calls of the
operation do to the `Scene` of the procedure what the instruction does to the
scene of the method (`Operation.Mirrored`).
-/

import Mathlib.Data.List.Forall2
import BytecodeFlow.Proofs.Execution.Naming
import BytecodeFlow.Proofs.Execution.Operands
import BytecodeFlow.Proofs.Walk.Resolution

namespace BytecodeFlow

variable {V W : Type}

/-! ### Addresses and conditions -/

section Addresses

variable {interpretation : Interpretation V W} {idents : Ident → V}

theorem place?_fieldAddress {base : Expr} {object : V}
    (evaluates : base.eval? interpretation idents = some object) (member : FieldRef) :
    (Operation.fieldAddress base member).place? interpretation idents =
      some (Bytecode.placeOf object member) := by
  cases base with
  | address cell => cases evaluates
  | _ =>
    simp only [Operation.fieldAddress, Expr.place?, evaluates]
    rfl

/-- The condition of a branch is true when the operand is what the branch expects. -/
theorem eval?_truth {value : Value} {operand : V × Typ}
    (denotes : Denotes interpretation idents value operand) (expected : Bool) :
    ∃ outcome, (Operation.truth value expected).eval? interpretation idents = some outcome ∧
      interpretation.truth outcome =
        if expected then Bytecode.isTrue interpretation operand
        else Bytecode.isFalse interpretation operand := by
  obtain ⟨evaluates, sameType⟩ := denotes
  unfold Operation.truth Bytecode.isTrue Bytecode.isFalse
  rw [sameType]
  cases operand.2.isPointer <;> cases expected
  · exact ⟨_, Expr.eval?_unary evaluates .not, interpretation.truth_not operand.1⟩
  · exact ⟨operand.1, evaluates, rfl⟩
  · exact ⟨_, Expr.eval?_binary evaluates rfl .equal, rfl⟩
  · exact ⟨_, Expr.eval?_binary evaluates rfl .notEqual, rfl⟩

end Addresses

/-- A method that is called is not the function that allocates. -/
theorem MethodRef.fullName_ne_allocateFunction (callee : MethodRef) :
    callee.fullName ≠ allocateFunction := by
  intro same
  have blank : ' ' ∈ callee.fullName.toList := by
    simp [MethodRef.fullName, qualifiedMethodName]
  rw [same] at blank
  exact absurd blank (by decide)

theorem call?_method {interpretation : Interpretation V W} {store : Store V W}
    {arguments : List Value} {values : List V}
    (evaluates : (arguments.mapM fun argument =>
      argument.expr.eval? interpretation store.idents) = some values)
    (callee : MethodRef) (isVirtual : Bool) :
    store.call? interpretation (.function callee.fullName) arguments isVirtual =
      some (store.scene.call interpretation callee.fullName values isVirtual) := by
  unfold Store.call? Expr.function
  simp only [if_neg callee.fullName_ne_allocateFunction, Store.eval?, evaluates]
  rfl

/-! ### Operations -/

/-- Performing an operation on the store of a procedure mirrors a `Transition` of the machine. The
stack that is left for the operation `Covers` what is left of the machine's stack. -/
inductive Operation.Mirrored (interpretation : Interpretation V W) (routine : Routine)
    (earlier : List (Effect String V)) (store : Store V W) (offset : Offset)
    (symbolic : List Value) : Operation → Transition V W → Prop
  | proceed {next : Offset} {stack : List (V × Typ)} {scene : Scene Slot V W}
    (following : routine.nextOffset? offset = some next)
    (covers : Covers interpretation store.idents symbolic stack)
    (mirrors : scene.Mirrors routine earlier store.scene) :
    Mirrored interpretation routine earlier store offset symbolic .proceed (.next next stack scene)
  | load {address : Expr} {typ : Typ} {next : Offset} {stack : List (V × Typ)} {value : V}
    {scene : Scene Slot V W} {outer : Scene String V W}
    (following : routine.nextOffset? offset = some next)
    (loads : store.load? interpretation address = some (value, outer))
    (covers : Covers interpretation store.idents symbolic stack)
    (mirrors : scene.Mirrors routine earlier outer) :
    Mirrored interpretation routine earlier store offset symbolic (.load address typ)
      (.next next ((value, typ) :: stack) scene)
  | store {address value : Expr} {typ : Typ} {next : Offset} {stack : List (V × Typ)}
    {scene : Scene Slot V W} {outer : Scene String V W}
    (following : routine.nextOffset? offset = some next)
    (stores : store.store? interpretation address value = some { store with scene := outer })
    (covers : Covers interpretation store.idents symbolic stack)
    (mirrors : scene.Mirrors routine earlier outer) :
    Mirrored interpretation routine earlier store offset symbolic (.store address typ value)
      (.next next stack scene)
  | invoke {callee : MethodRef} {arguments : List Value} {isVirtual : Bool} {next : Offset}
    {stack : List (V × Typ)} {result : V} {scene : Scene Slot V W} {outer : Scene String V W}
    (following : routine.nextOffset? offset = some next)
    (calls : store.call? interpretation (.function callee.fullName) arguments isVirtual =
      some (result, outer))
    (covers : Covers interpretation store.idents symbolic stack)
    (mirrors : scene.Mirrors routine earlier outer) :
    Mirrored interpretation routine earlier store offset symbolic
      (.invoke callee arguments isVirtual)
      (.next next (if callee.returnType = voidName then stack
        else (result, .ofName callee.returnType) :: stack) scene)
  | construct {callee : MethodRef} {arguments : List Value} {next : Offset}
    {stack : List (V × Typ)} {object result : V} {values : List V} {scene : Scene Slot V W}
    {middle outer : Scene String V W} (following : routine.nextOffset? offset = some next)
    (allocates : store.scene.allocate interpretation
      (Typ.ofName callee.declaringType).stripPointer = (object, middle))
    (evaluates : (arguments.mapM fun argument =>
      argument.expr.eval? interpretation store.idents) = some values)
    (calls : middle.call interpretation callee.fullName (object :: values) false = (result, outer))
    (covers : Covers interpretation store.idents symbolic stack)
    (mirrors : scene.Mirrors routine earlier outer) :
    Mirrored interpretation routine earlier store offset symbolic (.construct callee arguments)
      (.next next ((object, .ofName callee.declaringType) :: stack) scene)
  | jump {target : Offset} {stack : List (V × Typ)} {scene : Scene Slot V W}
    (covers : Covers interpretation store.idents symbolic stack)
    (mirrors : scene.Mirrors routine earlier store.scene) :
    Mirrored interpretation routine earlier store offset symbolic (.jump target)
      (.next target stack scene)
  | branch {condition : Expr} {target next : Offset} {outcome : V} {stack : List (V × Typ)}
    {scene : Scene Slot V W} (following : routine.nextOffset? offset = some next)
    (evaluates : store.eval? interpretation condition = some outcome)
    (covers : Covers interpretation store.idents symbolic stack)
    (mirrors : scene.Mirrors routine earlier store.scene) :
    Mirrored interpretation routine earlier store offset symbolic (.branch condition target)
      (.next (if interpretation.truth outcome then target else next) stack scene)
  | select {value : Expr} {targets : List Offset} {next : Offset} {operand : V}
    {stack : List (V × Typ)} {scene : Scene Slot V W}
    (following : routine.nextOffset? offset = some next)
    (evaluates : store.eval? interpretation value = some operand)
    (covers : Covers interpretation store.idents symbolic stack)
    (mirrors : scene.Mirrors routine earlier store.scene) :
    Mirrored interpretation routine earlier store offset symbolic (.select value targets)
      (.next ((Bytecode.caseOf? interpretation operand 0 targets).getD next) stack scene)
  | finish {scene : Scene Slot V W} (mirrors : scene.Mirrors routine earlier store.scene) :
    Mirrored interpretation routine earlier store offset symbolic (.finish none)
      (.ended (.returned none) scene)
  | finishWith {value : Expr} {operand : V} {scene : Scene Slot V W}
    (evaluates : store.eval? interpretation value = some operand)
    (mirrors : scene.Mirrors routine earlier store.scene) :
    Mirrored interpretation routine earlier store offset symbolic (.finish (some value))
      (.ended (.returned (some operand)) scene)
  | raise {exception : Value} {operand : V} {scene : Scene Slot V W}
    (evaluates : store.eval? interpretation exception.expr = some operand)
    (mirrors : scene.Mirrors routine earlier store.scene) :
    Mirrored interpretation routine earlier store offset symbolic (.raise exception)
      (.ended (.thrown operand) scene)
  | leave {target : Offset} {scene : Scene Slot V W}
    (mirrors : scene.Mirrors routine earlier store.scene) :
    Mirrored interpretation routine earlier store offset symbolic (.leave target)
      (.next target [] scene)

namespace Operation

variable {interpretation : Interpretation V W} {routine : Routine}
  {earlier : List (Effect String V)} {store : Store V W} {offset : Offset}
  {instruction : Instruction} {symbolic after : List Value} {stack : List (V × Typ)}
  {scene : Scene Slot V W}

theorem execute_of_combines {next : Offset} (following : routine.nextOffset? offset = some next)
    (combines : Combines instruction symbolic after)
    (covers : Covers interpretation store.idents symbolic stack) :
    ∃ operands, Bytecode.execute interpretation routine offset instruction stack scene =
        some (.next next operands scene) ∧
      Covers interpretation store.idents after operands := by
  cases combines with
  | nop opcode =>
    refine ⟨stack, ?_, covers⟩
    simp only [Bytecode.execute, opcode, following]
    rfl
  | constant pushes =>
    cases pushes with
    | shortInt opcode =>
      refine ⟨_, ?_, .push rfl rfl covers⟩
      simp only [Bytecode.execute, opcode, following]
      rfl
    | int opcode operand =>
      refine ⟨_, ?_, .push rfl rfl covers⟩
      simp only [Bytecode.execute, opcode, operand, following]
      rfl
    | long opcode operand =>
      refine ⟨_, ?_, .push rfl rfl covers⟩
      simp only [Bytecode.execute, opcode, operand, following]
      rfl
    | single opcode operand =>
      refine ⟨_, ?_, .push rfl rfl covers⟩
      simp only [Bytecode.execute, opcode, operand, following]
      rfl
    | double opcode operand =>
      refine ⟨_, ?_, .push rfl rfl covers⟩
      simp only [Bytecode.execute, opcode, operand, following]
      rfl
    | string opcode operand =>
      refine ⟨_, ?_, .push rfl rfl covers⟩
      simp only [Bytecode.execute, opcode, operand, following]
      rfl
    | null opcode =>
      refine ⟨_, ?_, .push rfl rfl covers⟩
      simp only [Bytecode.execute, opcode, following]
      rfl
  | dup opcode =>
    cases covers with
    | cons denotes covers =>
      refine ⟨_, ?_, .cons denotes (.cons denotes covers)⟩
      simp only [Bytecode.execute, opcode, Bytecode.pop?, following]
      rfl
  | pop opcode =>
    cases covers with
    | cons denotes covers =>
      refine ⟨_, ?_, covers⟩
      simp only [Bytecode.execute, opcode, Bytecode.pop?, following]
      rfl
  | binary opcode =>
    obtain _ | ⟨right, _ | ⟨left, covers⟩⟩ := covers
    refine ⟨_, ?_, .push (Expr.eval?_binary left.1 right.1 _) left.2 covers⟩
    simp only [Bytecode.execute, opcode, Bytecode.pop?, following]
    rfl
  | compare opcode =>
    obtain _ | ⟨right, _ | ⟨left, covers⟩⟩ := covers
    refine ⟨_, ?_, .push (Expr.eval?_binary left.1 right.1 _) rfl covers⟩
    simp only [Bytecode.execute, opcode, Bytecode.pop?, following]
    rfl
  | negate opcode =>
    obtain _ | ⟨operand, covers⟩ := covers
    refine ⟨_, ?_, .push (Expr.eval?_unary operand.1 _) operand.2 covers⟩
    simp only [Bytecode.execute, opcode, Bytecode.pop?, following]
    rfl
  | bitNot opcode =>
    obtain _ | ⟨operand, covers⟩ := covers
    refine ⟨_, ?_, .push (Expr.eval?_unary operand.1 _) operand.2 covers⟩
    simp only [Bytecode.execute, opcode, Bytecode.pop?, following]
    rfl

/-- The arguments of a call are taken off a stack that the symbolic one `Covers`. -/
theorem popMany?_of_covers {arguments : List Value}
    (covers : Covers interpretation store.idents (arguments.reverse ++ after) stack) :
    ∃ operands rest, Bytecode.popMany? arguments.length stack = some (operands, rest) ∧
      (arguments.mapM fun argument => argument.expr.eval? interpretation store.idents) =
        some (operands.map Prod.fst) ∧
      Covers interpretation store.idents after rest := by
  obtain ⟨reversed, rest, rfl, all, others⟩ := covers.split
  have denotes : List.Forall₂ (Denotes interpretation store.idents) arguments reversed.reverse := by
    have turned := List.forall₂_reverse_iff.mpr all
    rwa [List.reverse_reverse] at turned
  refine ⟨reversed.reverse, rest, ?_, mapM_eval?_of_denotes denotes, others⟩
  have count : arguments.length = reversed.length := by
    rw [denotes.length_eq, List.length_reverse]
  unfold Bytecode.popMany?
  rw [if_neg (by rw [List.length_append, count]; omega), count, List.take_left, List.drop_left]

theorem loads_of_slot {slot : Slot} {name : String} {typ : Typ} {next : Offset}
    (mirrors : scene.Mirrors routine earlier store.scene)
    (known : routine.slot? slot = some (name, typ))
    (following : routine.nextOffset? offset = some next)
    (covers : Covers interpretation store.idents after stack) :
    ∃ transition, Bytecode.loading routine offset slot stack scene = some transition ∧
      (Operation.load (.frame name) typ).Mirrored interpretation routine earlier store offset after
        transition := by
  obtain ⟨same, later⟩ := mirrors.read known
  refine ⟨.next next (((scene.read slot).1, typ) :: stack) (scene.read slot).2, ?_,
    .load following ?_ covers later⟩
  · unfold Bytecode.loading
    rw [known, following]
    rfl
  · rw [← same]
    rfl

theorem stores_of_slot {slot : Slot} {name : String} {typ : Typ} {next : Offset} {value : Value}
    (apart : routine.NamesApart) (mirrors : scene.Mirrors routine earlier store.scene)
    (known : routine.slot? slot = some (name, typ))
    (following : routine.nextOffset? offset = some next)
    (covers : Covers interpretation store.idents (value :: after) stack) :
    ∃ transition, Bytecode.storing routine offset slot stack scene = some transition ∧
      (Operation.store (.frame name) typ value.expr).Mirrored interpretation routine earlier store
        offset after transition := by
  cases covers with
  | @cons _ operand _ rest denotes covers =>
    refine ⟨_, ?_, .store following ?_ covers (mirrors.write apart known operand.1)⟩
    · unfold Bytecode.storing
      rw [known, following]
      rfl
    · have notReturn := apart.ne_returnName (Routine.named_of_slot? known)
      unfold Store.store? Expr.frame
      simp only [if_neg notReturn, Store.eval?, denotes.1]
      rfl

theorem branching_eq {target next : Offset} (operand : instruction.operand = .target target)
    (following : routine.nextOffset? offset = some next) (condition : Bool)
    (stack : List (V × Typ)) (scene : Scene Slot V W) :
    Bytecode.branching routine offset instruction condition stack scene =
      some (.next (if condition then target else next) stack scene) := by
  unfold Bytecode.branching
  rw [target_eq_ok.mpr operand, following]
  cases condition <;> rfl

theorem calls_of_operand {arguments : List Value} {callee : MethodRef} (isVirtual : Bool)
    {next : Offset} (mirrors : scene.Mirrors routine earlier store.scene)
    (operand : instruction.operand = .method callee)
    (count : arguments.length = callee.parameters.length + if callee.hasThis then 1 else 0)
    (following : routine.nextOffset? offset = some next)
    (covers : Covers interpretation store.idents (arguments.reverse ++ after) stack) :
    ∃ transition, Bytecode.calling interpretation routine offset instruction isVirtual stack scene =
        some transition ∧
      (Operation.invoke callee arguments isVirtual).Mirrored interpretation routine earlier store
        offset after transition := by
  obtain ⟨operands, rest, popped, evaluates, covers⟩ := popMany?_of_covers covers
  obtain ⟨same, later⟩ := mirrors.call interpretation callee.fullName (operands.map Prod.fst)
    isVirtual
  have calls : store.call? interpretation (.function callee.fullName) arguments isVirtual =
      some ((scene.call interpretation callee.fullName (operands.map Prod.fst) isVirtual).1,
        (store.scene.call interpretation callee.fullName (operands.map Prod.fst) isVirtual).2) := by
    rw [call?_method evaluates, ← same]
  refine ⟨_, ?_, .invoke following calls covers later⟩
  rw [count] at popped
  unfold Bytecode.calling
  rw [method_eq_ok.mpr operand, following]
  exact congrArg (Option.bind · _) popped

theorem constructs_of_operand {arguments : List Value} {callee : MethodRef} {next : Offset}
    (mirrors : scene.Mirrors routine earlier store.scene)
    (operand : instruction.operand = .method callee)
    (count : arguments.length = callee.parameters.length)
    (following : routine.nextOffset? offset = some next)
    (covers : Covers interpretation store.idents (arguments.reverse ++ after) stack) :
    ∃ transition, Bytecode.constructing interpretation routine offset instruction stack scene =
        some transition ∧
      (Operation.construct callee arguments).Mirrored interpretation routine earlier store offset
        after transition := by
  obtain ⟨operands, rest, popped, evaluates, covers⟩ := popMany?_of_covers covers
  let objectType := (Typ.ofName callee.declaringType).stripPointer
  obtain ⟨same, allocated⟩ := mirrors.allocate interpretation objectType
  let object := (scene.allocate interpretation objectType).1
  have allocates : store.scene.allocate interpretation objectType =
      (object, (store.scene.allocate interpretation objectType).2) := by
    rw [← show _ = object from same]
  obtain ⟨-, later⟩ := allocated.call interpretation callee.fullName
    (object :: operands.map Prod.fst) false
  refine ⟨_, ?_, .construct following allocates evaluates rfl covers later⟩
  rw [count] at popped
  unfold Bytecode.constructing
  rw [method_eq_ok.mpr operand, following]
  exact congrArg (Option.bind · _) popped

theorem loads_of_place {address : Expr} {place : Place V} (typ : Typ)
    (mirrors : scene.Mirrors routine earlier store.scene)
    (notVariable : ∀ cell, address ≠ .address cell)
    (located : address.place? interpretation store.idents = some place) {next : Offset}
    (following : routine.nextOffset? offset = some next)
    (covers : Covers interpretation store.idents after stack) :
    (Operation.load address typ).Mirrored interpretation routine earlier store offset after
      (.next next (((scene.readField interpretation place).1, typ) :: stack)
        (scene.readField interpretation place).2) := by
  obtain ⟨same, later⟩ := mirrors.readField interpretation place
  refine .load following ?_ covers later
  rw [← same]
  unfold Store.load?
  split
  · exact absurd rfl (notVariable _)
  · rw [located]
    rfl

theorem stores_of_place {address value : Expr} {place : Place V} {operand : V} (typ : Typ)
    (mirrors : scene.Mirrors routine earlier store.scene)
    (notVariable : ∀ cell, address ≠ .address cell)
    (located : address.place? interpretation store.idents = some place)
    (evaluates : value.eval? interpretation store.idents = some operand) {next : Offset}
    (following : routine.nextOffset? offset = some next)
    (covers : Covers interpretation store.idents after stack) :
    (Operation.store address typ value).Mirrored interpretation routine earlier store offset after
      (.next next stack (scene.writeField interpretation place operand)) := by
  refine .store following ?_ covers (mirrors.writeField interpretation place operand)
  unfold Store.store?
  split
  · exact absurd rfl (notVariable _)
  · rw [located, Store.eval?, evaluates]
    rfl

/-- Where an instruction `Resolves` to an operation, `execute` gives a transition, and the operation
is `Mirrored` by it. -/
theorem mirrored_of_resolves {operation : Operation} (apart : routine.NamesApart)
    (resolves : Resolves routine instruction symbolic operation after)
    (covers : Covers interpretation store.idents symbolic stack)
    (mirrors : scene.Mirrors routine earlier store.scene)
    (goesOn : operation.fallsThrough = true → ∃ next, routine.nextOffset? offset = some next)
    (notEnd : operation ≠ .endFinally) :
    ∃ transition, Bytecode.execute interpretation routine offset instruction stack scene =
        some transition ∧
      operation.Mirrored interpretation routine earlier store offset after transition := by
  cases resolves with
  | combine combines =>
    obtain ⟨next, following⟩ := goesOn rfl
    obtain ⟨operands, executes, left⟩ := execute_of_combines following combines covers
    exact ⟨_, executes, .proceed following left mirrors⟩
  | ldarg opcode which place =>
    obtain ⟨next, following⟩ := goesOn rfl
    obtain ⟨name, rfl, known⟩ := Routine.argument_eq_ok place
    obtain ⟨transition, executes, mirrored⟩ := loads_of_slot mirrors known following covers
    refine ⟨transition, ?_, mirrored⟩
    simp only [Bytecode.execute, opcode, which]
    exact executes
  | starg opcode which place =>
    obtain ⟨next, following⟩ := goesOn rfl
    obtain ⟨name, rfl, known⟩ := Routine.argument_eq_ok place
    obtain ⟨transition, executes, mirrored⟩ := stores_of_slot apart mirrors known following covers
    refine ⟨transition, ?_, mirrored⟩
    simp only [Bytecode.execute, opcode, which]
    exact executes
  | ldloc opcode which place =>
    obtain ⟨next, following⟩ := goesOn rfl
    obtain ⟨name, rfl, known⟩ := Routine.localVariable_eq_ok place
    obtain ⟨transition, executes, mirrored⟩ := loads_of_slot mirrors known following covers
    refine ⟨transition, ?_, mirrored⟩
    simp only [Bytecode.execute, opcode, which]
    exact executes
  | stloc opcode which place =>
    obtain ⟨next, following⟩ := goesOn rfl
    obtain ⟨name, rfl, known⟩ := Routine.localVariable_eq_ok place
    obtain ⟨transition, executes, mirrored⟩ := stores_of_slot apart mirrors known following covers
    refine ⟨transition, ?_, mirrored⟩
    simp only [Bytecode.execute, opcode, which]
    exact executes
  | br opcode operand =>
    refine ⟨_, ?_, .jump covers mirrors⟩
    simp only [Bytecode.execute, opcode, target_eq_ok.mpr operand]
    rfl
  | @test _ _ expected target opcode operand =>
    obtain ⟨next, following⟩ := goesOn rfl
    obtain _ | ⟨denotes, covers⟩ := covers
    obtain ⟨outcome, evaluates, truth⟩ := eval?_truth denotes expected
    refine ⟨_, ?_, .branch following evaluates covers mirrors⟩
    rw [truth]
    cases expected with
    | true =>
      change instruction.opcode = .brtrue at opcode
      simp only [Bytecode.execute, opcode]
      exact branching_eq operand following _ _ _
    | false =>
      change instruction.opcode = .brfalse at opcode
      simp only [Bytecode.execute, opcode]
      exact branching_eq operand following _ _ _
  | branch opcode operand =>
    obtain ⟨next, following⟩ := goesOn rfl
    obtain _ | ⟨right, _ | ⟨left, covers⟩⟩ := covers
    refine ⟨_, ?_, .branch following (Expr.eval?_binary left.1 right.1 _) covers mirrors⟩
    simp only [Bytecode.execute, opcode]
    exact branching_eq operand following _ _ _
  | @switch _ _ targets opcode operand =>
    obtain ⟨next, following⟩ := goesOn rfl
    cases covers with
    | @cons _ selector _ rest denotes covers =>
      refine ⟨_, ?_, .select following denotes.1 covers mirrors⟩
      simp only [Bytecode.execute, opcode, targets_eq_ok.mpr operand, following]
      cases chosen : Bytecode.caseOf? interpretation selector.1 0 targets <;>
        simp [Bytecode.pop?, Except.toOption, chosen]
  | @call arguments _ isVirtual callee opcode operand count =>
    obtain ⟨next, following⟩ := goesOn rfl
    obtain ⟨transition, executes, mirrored⟩ :=
      calls_of_operand isVirtual mirrors operand count following covers
    refine ⟨transition, ?_, mirrored⟩
    cases isVirtual with
    | true =>
      change instruction.opcode = .callvirt at opcode
      simp only [Bytecode.execute, opcode]
      exact executes
    | false =>
      change instruction.opcode = .call at opcode
      simp only [Bytecode.execute, opcode]
      exact executes
  | newobj opcode operand count =>
    obtain ⟨next, following⟩ := goesOn rfl
    obtain ⟨transition, executes, mirrored⟩ :=
      constructs_of_operand mirrors operand count following covers
    refine ⟨transition, ?_, mirrored⟩
    simp only [Bytecode.execute, opcode]
    exact executes
  | ldfld opcode operand =>
    obtain ⟨next, following⟩ := goesOn rfl
    obtain _ | ⟨denotes, covers⟩ := covers
    refine ⟨_, ?_, loads_of_place _ mirrors (fun _ impossible => by cases impossible)
      (place?_fieldAddress denotes.1 _) following covers⟩
    simp only [Bytecode.execute, opcode, field_eq_ok.mpr operand, following]
    rfl
  | ldsfld opcode operand =>
    obtain ⟨next, following⟩ := goesOn rfl
    refine ⟨_, ?_, loads_of_place _ mirrors (fun _ impossible => by cases impossible) rfl following
      covers⟩
    simp only [Bytecode.execute, opcode, field_eq_ok.mpr operand, following]
    rfl
  | stfld opcode operand =>
    obtain ⟨next, following⟩ := goesOn rfl
    obtain _ | ⟨value, _ | ⟨base, covers⟩⟩ := covers
    refine ⟨_, ?_, stores_of_place _ mirrors (fun _ impossible => by cases impossible)
      (place?_fieldAddress base.1 _) value.1 following covers⟩
    simp only [Bytecode.execute, opcode, field_eq_ok.mpr operand, following]
    rfl
  | stsfld opcode operand =>
    obtain ⟨next, following⟩ := goesOn rfl
    obtain _ | ⟨value, covers⟩ := covers
    refine ⟨_, ?_, stores_of_place _ mirrors (fun _ impossible => by cases impossible) rfl value.1
      following covers⟩
    simp only [Bytecode.execute, opcode, field_eq_ok.mpr operand, following]
    rfl
  | retVoid opcode void =>
    refine ⟨_, ?_, .finish mirrors⟩
    simp only [Bytecode.execute, opcode, void]
    rfl
  | ret opcode valued =>
    obtain _ | ⟨denotes, covers⟩ := covers
    refine ⟨_, ?_, .finishWith denotes.1 mirrors⟩
    simp only [Bytecode.execute, opcode, if_neg valued]
    rfl
  | throw opcode =>
    obtain _ | ⟨denotes, covers⟩ := covers
    refine ⟨_, ?_, .raise denotes.1 mirrors⟩
    simp only [Bytecode.execute, opcode]
    rfl
  | leave opcode operand =>
    refine ⟨_, ?_, .leave mirrors⟩
    simp only [Bytecode.execute, opcode, target_eq_ok.mpr operand]
    rfl
  | endfinally opcode => exact absurd rfl notEnd

end Operation

end BytecodeFlow

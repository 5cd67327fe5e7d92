/-
This file states that lowering keeps the meaning of a method without protected
regions. Whatever operators mean and however heap and calls answer
(`Interpretation`), every execution of the body is matched by an execution of
the procedure from the start to the exit that has the same effects and the same
result, and every execution of the procedure that reaches the exit comes from
one of the body. A constructor first clears the flags of its object, so its
body starts on the scene that this leaves (`entryScene`).
-/

import BytecodeFlow.Proofs.Execution.Converse

namespace BytecodeFlow

variable {V W : Type}

/-! ### Where the body starts -/

/-- Set flags of an object to zero. -/
def Scene.clear {X : Type} (interpretation : Interpretation V W) (scene : Scene X V W)
    (object : V) (flags : List FieldRef) : Scene X V W :=
  flags.foldl (fun scene flag => scene.writeField interpretation (Bytecode.placeOf object flag)
    (interpretation.constant (.int 0))) scene

/-- What a method sees of a scene when its body starts: its own variables, and nothing done yet. -/
def Scene.inside (routine : Routine) (scene : Scene String V W) : Scene Slot V W :=
  ⟨fun slot => scene.cells (routine.nameOf slot), scene.world, []⟩

theorem Scene.mirrors_inside (routine : Routine) (scene : Scene String V W) :
    (scene.inside routine).Mirrors routine scene.history scene := by
  refine ⟨?_, rfl, (List.append_nil _).symm⟩
  intro slot name typ known
  show scene.cells name = scene.cells (routine.nameOf slot)
  rw [Routine.nameOf_eq known]

namespace Lowered

/-- The scene on which the body of a method starts. If the method is a constructor and its type has
flags, the receiver is read and its flags are cleared before. -/
def entryScene (interpretation : Interpretation V W) (declaring : TypeDef) (method : MethodDef)
    (scene : Scene String V W) : Scene String V W :=
  if !method.isConstructor || (flagsOf declaring).isEmpty then scene
  else (scene.read thisName).2.clear interpretation (scene.read thisName).1 (flagsOf declaring)

variable {interpretation : Interpretation V W}

/-- The stores of a prologue do what `Scene.clear` does to the object in a temporary. -/
theorem runAll?_clear (store : Store V W) {receiver : Ident} {object : V}
    (held : store.idents receiver = object) (location : Location) (flags : List FieldRef) :
    store.runAll? interpretation (flags.map fun flag =>
        .store (Operation.fieldAddress (.var receiver) flag) (.int 0) .boolean location) =
      some { store with scene := store.scene.clear interpretation object flags } := by
  induction flags generalizing store with
  | nil => rfl
  | cons flag rest inductionHypothesis =>
    have evaluates : (Expr.var receiver).eval? interpretation store.idents = some object :=
      congrArg some held
    let scene := store.scene.writeField interpretation (Bytecode.placeOf object flag)
      (interpretation.constant (.int 0))
    have ran : store.run? interpretation (.store (Operation.fieldAddress (.var receiver) flag)
        (.int 0) .boolean location) = some { store with scene } := by
      have place := place?_fieldAddress evaluates flag
      unfold Operation.fieldAddress at place ⊢
      simp only [Store.run?, Store.store?, place]
      rfl
    rw [List.map_cons, Store.runAll?_cons, ran, Option.bind_some,
      inductionHypothesis { store with scene } held]
    rfl

/-- A prologue reads the receiver and clears its flags. -/
theorem runAll?_clearFlags (store : Store V W) (declaring : TypeDef) (receiver : Ident)
    (location : Location) (flags : List FieldRef) :
    store.runAll? interpretation (clearFlags declaring receiver location flags) =
      some { store.assign receiver (store.scene.read thisName) with
        scene := (store.scene.read thisName).2.clear interpretation
          (store.scene.read thisName).1 flags } :=
  runAll?_clear (store.assign receiver (store.scene.read thisName)) (Function.update_self ..)
    location flags

/-! ### The walk before its first turn -/

variable {program : Program} {declaring : TypeDef} {method : MethodDef} {body : MethodBody}
  {limits : Limits}

/-- The node after which the body starts is no prune. -/
theorem kind?_prepared (program : Program) (declaring : TypeDef) (method : MethodDef)
    (body : MethodBody) :
    ∃ kind, (prepared program declaring method body).1.procedure.kind?
        (prepared program declaring method body).2 = some kind ∧
      ∀ branch branchKind, kind ≠ .prune branch branchKind := by
  unfold prepared constructorPrologue
  dsimp only
  split
  · exact ⟨.start, rfl, fun _ _ impossible => by cases impossible⟩
  · exact ⟨.statement, rfl, fun _ _ impossible => by cases impossible⟩

theorem commandsOf_prepared {node : NodeIndex}
    (terminal : node = Procedure.exit ∨ node = Procedure.sink) :
    (prepared program declaring method body).1.procedure.commandsOf node = [] := by
  unfold prepared constructorPrologue
  dsimp only
  split <;> rcases terminal with rfl | rfl <;> rfl

/-- What stands before the body takes an execution from the start to the `entryScene`. -/
theorem prepared_runs (interpretation : Interpretation V W) {procedure : Procedure}
    (completed : (prepared program declaring method body).1.procedure.CompletedBy procedure)
    (store : Store V W) :
    ∃ later : Store V W,
      procedure.Steps interpretation ⟨Procedure.start, 0, store⟩
        ⟨(prepared program declaring method body).2,
          ((prepared program declaring method body).1.procedure.commandsOf
            (prepared program declaring method body).2).length, later⟩ ∧
      later.scene = entryScene interpretation declaring method store.scene ∧
      later.result = store.result := by
  unfold prepared constructorPrologue at completed ⊢
  dsimp only at completed ⊢
  split at completed
  · rename_i bare
    simp only [if_pos bare]
    exact ⟨store, .refl, (if_pos bare).symm, rfl⟩
  · rename_i flagged
    simp only [if_neg flagged]
    let commands := clearFlags declaring ⟨0⟩ (signatureOf declaring method body).location
      (flagsOf declaring)
    let later : Store V W := { store.assign ⟨0⟩ (store.scene.read thisName) with
      scene := (store.scene.read thisName).2.clear interpretation
        (store.scene.read thisName).1 (flagsOf declaring) }
    have held : [] ++ commands <+: procedure.commandsOf 3 := completed.commands 3
    have enters : procedure.Step interpretation ⟨Procedure.start, 0, store⟩ ⟨3, 0, store⟩ :=
      completed.step (List.mem_singleton_self _)
    have clears : store.runAll? interpretation commands = some later := runAll?_clearFlags ..
    exact ⟨later, .head enters (Procedure.steps_commands held clears), (if_neg flagged).symm, rfl⟩

/-- The walk over a method without protected regions that is lowered completely is a `Course`. -/
theorem course_of_complete {first : Instruction}
    (plain : body.handlers = [])
    (floatless : ∀ instruction ∈ body.instructions,
      instruction.opcode ≠ .ldcR4 ∧ instruction.opcode ≠ .ldcR8)
    (apart : (Routine.ofBody declaring.name method body).NamesApart)
    (complete : (ofMethod program declaring method body limits).outcome = .complete)
    (begins : body.instructions.head? = some first) :
    ∃ final, Walk.Course (Routine.ofBody declaring.name method body) limits
        (seeded program declaring method body) final ∧
      (ofMethod program declaring method body limits).procedure = final.procedure.finish := by
  obtain ⟨final, turns, finished, procedure⟩ := ofMethod_complete complete
  have code : body.instructions ≠ [] := by
    intro empty
    rw [empty] at begins
    cases begins
  refine ⟨final, ⟨Routine.unguarded_ofBody declaring.name method plain, ?_, apart,
    seeded_linear program declaring method code, ⟨?_, ?_⟩, ?_, turns, finished⟩, procedure⟩
  · exact fun offset instruction found => floatless instruction (instructionAt?_mem found)
  · intro pending waits
    rw [seeded_worklist begins] at waits
    cases List.mem_singleton.mp waits
    refine ⟨rfl, fun _ member => absurd member List.not_mem_nil, fun _ _ continued => ?_⟩
    cases continued
  · intro offset record member
    rw [opened_seeded, Std.ExtTreeMap.getD_empty] at member
    cases member
  · intro node terminal
    rw [procedure_seeded]
    exact commandsOf_prepared terminal

/-- When the body starts, the stack machine is `Simulated` at the end of what stands before it. -/
theorem simulated_entry (interpretation : Interpretation V W) {first : Instruction} {final : Walk}
    {later : Store V W}
    (course : Walk.Course (Routine.ofBody declaring.name method body) limits
      (seeded program declaring method body) final)
    (begins : body.instructions.head? = some first) (blank : later.result = .returned none) :
    Walk.Simulated (Routine.ofBody declaring.name method body) limits interpretation
      later.scene.history (seeded program declaring method body) final
      (seeded program declaring method body) first.offset []
      (later.scene.inside (Routine.ofBody declaring.name method body))
      ⟨(prepared program declaring method body).2,
        ((prepared program declaring method body).1.procedure.commandsOf
          (prepared program declaring method body).2).length, later⟩ := by
  let entry := (prepared program declaring method body).2
  have waits : (⟨first.offset, entry, [], (prepared program declaring method body).1.nextStamp,
      .newBlock, none⟩ : Pending) ∈ (seeded program declaring method body).worklist := by
    rw [seeded_worklist begins]
    exact List.mem_singleton_self _
  have clear : ¬ final.procedure.finish.IsPrune entry := by
    rintro ⟨branch, branchKind, prune⟩
    obtain ⟨kind, known, notPrune⟩ := kind?_prepared program declaring method body
    rw [← procedure_seeded] at known
    have kept := (Walk.Turns.outgrows course.turns course.linear).extended.kind?
      (Procedure.lt_size_of_kind? known)
    rw [Procedure.kind?_finish, kept, known] at prune
    exact notPrune branch branchKind (Option.some.inj prune)
  refine Walk.simulated_of_waiting course .refl waits
    ⟨.nil _, Scene.mirrors_inside _ _, blank, fun prune => absurd prune clear⟩ rfl ?_
  rw [procedure_seeded]

/-- Lowering keeps the meaning of a method without protected regions and without floating-point
constants, if its parameters have names of their own (`Routine.NamesApart`). Every execution of the
body (`Bytecode.Runs`) is matched by one of the procedure from the start to the exit
(`Procedure.Steps`): what it does after the prologue is what the body does, effect for effect
(`Scene.Mirrors`), and it leaves the same result. Conversely, every execution of the procedure that
reaches the exit is that of an execution of the body. -/
theorem ofMethod_preserves (interpretation : Interpretation V W) {first : Instruction}
    (plain : body.handlers = [])
    (floatless : ∀ instruction ∈ body.instructions,
      instruction.opcode ≠ .ldcR4 ∧ instruction.opcode ≠ .ldcR8)
    (apart : (Routine.ofBody declaring.name method body).NamesApart)
    (complete : (ofMethod program declaring method body limits).outcome = .complete)
    (begins : body.instructions.head? = some first) (idents : Ident → V)
    (scene : Scene String V W) :
    (∀ result last, Bytecode.Runs interpretation (Routine.ofBody declaring.name method body)
        first.offset [] ((entryScene interpretation declaring method scene).inside
          (Routine.ofBody declaring.name method body)) result last →
      ∃ store, (ofMethod program declaring method body limits).procedure.Steps interpretation
          ⟨Procedure.start, 0, ⟨idents, scene, .returned none⟩⟩ ⟨Procedure.exit, 0, store⟩ ∧
        store.result = result ∧
        last.Mirrors (Routine.ofBody declaring.name method body)
          (entryScene interpretation declaring method scene).history store.scene) ∧
    ∀ store, (ofMethod program declaring method body limits).procedure.Steps interpretation
        ⟨Procedure.start, 0, ⟨idents, scene, .returned none⟩⟩ ⟨Procedure.exit, 0, store⟩ →
      ∃ last, Bytecode.Runs interpretation (Routine.ofBody declaring.name method body)
          first.offset [] ((entryScene interpretation declaring method scene).inside
            (Routine.ofBody declaring.name method body)) store.result last ∧
        last.Mirrors (Routine.ofBody declaring.name method body)
          (entryScene interpretation declaring method scene).history store.scene := by
  obtain ⟨final, course, procedure⟩ :=
    course_of_complete plain floatless apart complete begins
  have completed := course.completedBy .refl
  rw [procedure_seeded] at completed
  obtain ⟨later, enters, entered, blank⟩ :=
    prepared_runs interpretation completed ⟨idents, scene, .returned none⟩
  have simulated := simulated_entry interpretation course begins blank
  rw [procedure, ← entered]
  constructor
  · intro result last runs
    obtain ⟨store, steps, leaves, mirrors⟩ := simulated.runs course runs
    exact ⟨store, enters.trans steps, leaves, mirrors⟩
  · intro store steps
    obtain ⟨count, arrives⟩ := Procedure.arrives_of_steps steps
    obtain ⟨left, -, arrived, -⟩ := arrives.later course.branched course.exitEnds enters
      simulated.clear.passable
    exact simulated.converse course arrived.steps

/-- Numbers as values: only zero is false, and the world counts what is written to fields. -/
def counting : Interpretation Int Nat where
  constant
    | .int value => value
    | _ => 0
  unary
    | .not, value => if value = 0 then 1 else 0
    | _, value => value
  binary _ left _ := left
  truth value := value != 0
  truth_not value := by
    by_cases zero : value = 0 <;> simp [zero]
  readField _ world := (0, world)
  writeField _ _ world := world + 1
  allocate _ world := (0, world)
  call _ _ _ world := (0, world)

def flaggedType : TypeDef := ⟨"Sample", none, [], [⟨"ready", "System.Boolean", false⟩], []⟩

/-- A constructor with one parameter. -/
def flaggedConstructor : MethodDef :=
  ⟨".ctor", [⟨"size", "System.Int32"⟩], voidName, false, false, none, none⟩

/-- A body that keeps its argument if it is true. -/
def keepingBody : MethodBody where
  locals := ["System.Int32"]
  instructions :=
    [⟨0, "ldarg.1", .none, none⟩, ⟨1, "brfalse", .target 4, none⟩, ⟨2, "ldarg.1", .none, none⟩,
      ⟨3, "stloc.0", .none, none⟩, ⟨4, "ret", .none, none⟩]
  handlers := []

def keepingRoutine : Routine := .ofBody flaggedType.name flaggedConstructor keepingBody

theorem keepingRoutine_namesApart : keepingRoutine.NamesApart := by
  refine ⟨by decide +kernel, ?_⟩
  intro parameter member
  cases List.mem_singleton.mp member
  exact ⟨by decide, by decide, by decide⟩

/-- The scene on which the body starts: the flag of the receiver is cleared. -/
def keepingScene : Scene String Int Nat :=
  entryScene counting flaggedType flaggedConstructor ⟨fun _ => 7, 0, []⟩

/-- The body reads its argument, finds it true, and keeps it. -/
theorem keepingRoutine_runs :
    Bytecode.Runs counting keepingRoutine 0 [] (keepingScene.inside keepingRoutine) (.returned none)
      ⟨Function.update (fun _ => 7) (.localVariable 0) 7, 1,
        [.readVariable (.argument 1) 7, .readVariable (.argument 1) 7,
          .writeVariable (.localVariable 0) 7]⟩ :=
  .next rfl (.next rfl (.next rfl (.next rfl (.ended rfl))))

/-- The procedure of the constructor clears the flag, and then does what the body does. -/
theorem ofMethod_preserves_keeping :
    ∃ store, (ofMethod .empty flaggedType flaggedConstructor keepingBody .standard).procedure.Steps
        counting ⟨Procedure.start, 0, ⟨fun _ => 0, ⟨fun _ => 7, 0, []⟩, .returned none⟩⟩
        ⟨Procedure.exit, 0, store⟩ ∧
      store.result = .returned none ∧ store.scene.world = 1 ∧
      store.scene.history =
        [.readVariable "this" 7,
          .writeField (.ofObject 7 ⟨"Sample.ready", .ofName "System.Boolean"⟩ (.struct "Sample")) 0,
          .readVariable "size" 7, .readVariable "size" 7, .writeVariable "V_0" 7] := by
  obtain ⟨forward, -⟩ := @ofMethod_preserves Int Nat .empty flaggedType flaggedConstructor
    keepingBody .standard counting ⟨0, "ldarg.1", .none, none⟩ rfl (by decide +kernel)
    keepingRoutine_namesApart (by decide +kernel) rfl (fun _ => 0) ⟨fun _ => 7, 0, []⟩
  obtain ⟨store, steps, leaves, mirrors⟩ := forward _ _ keepingRoutine_runs
  exact ⟨store, steps, leaves, mirrors.world, mirrors.history⟩

end Lowered

end BytecodeFlow

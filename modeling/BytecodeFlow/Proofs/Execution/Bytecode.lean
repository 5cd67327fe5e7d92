/-
This file defines the stack machine that executes the body of a method. Its
operands are values with their types, and its variables, `Slot`, are the
arguments and the locals by their positions. An instruction goes on to the next
one or to its target, or ends the execution with a result (`execute`). A whole
execution is `Runs`.
-/

import BytecodeFlow.Proofs.Execution.Scene
import BytecodeFlow.Walk.Operation

namespace BytecodeFlow

/-- A variable of a method. The receiver of an instance method is `argument 0`. -/
inductive Slot where
  | argument (index : Nat)
  | localVariable (index : Nat)
deriving DecidableEq, Repr

/-- The name and the type of a parameter. -/
def Routine.parameter? (routine : Routine) (index : Nat) : Option (String × Typ) := do
  let parameter ← routine.method.parameters[index]?
  return (parameter.name, .ofName parameter.typeName)

/-- The name and the type of an argument. -/
def Routine.argument? (routine : Routine) (index : Nat) : Option (String × Typ) :=
  if routine.method.hasThis then
    match index with
    | 0 => some (thisName, .ofName routine.declaringType)
    | index + 1 => routine.parameter? index
  else routine.parameter? index

/-- The name and the type of a `Slot`, if the method has it. -/
def Routine.slot? (routine : Routine) : Slot → Option (String × Typ)
  | .argument index => routine.argument? index
  | .localVariable index => do
    let typeName ← routine.locals[index]?
    return (localName index, .ofName typeName)

/-- What executing one instruction with `execute` leads to. -/
inductive Transition (V W : Type) where
  | next (offset : Offset) (stack : List (V × Typ)) (scene : Scene Slot V W)
  | ended (result : Result V) (scene : Scene Slot V W)

namespace Bytecode

variable {V W : Type}

/-! ### Operands, the top of the stack first -/

def pop? {α : Type} : List α → Option (α × List α)
  | [] => none
  | top :: rest => some (top, rest)

/-- Take a number of operands; the lowest of them comes first. -/
def popMany? {α : Type} (count : Nat) (stack : List α) : Option (List α × List α) :=
  if stack.length < count then none else some ((stack.take count).reverse, stack.drop count)

variable (interpretation : Interpretation V W)

/-- Whether an operand counts as true. A reference does when it is not null. -/
def isTrue (operand : V × Typ) : Bool :=
  if operand.2.isPointer then
    interpretation.truth
      (interpretation.binary .notEqual operand.1 (interpretation.constant .null))
  else interpretation.truth operand.1

/-- Whether an operand counts as false. A reference does when it is null. -/
def isFalse (operand : V × Typ) : Bool :=
  if operand.2.isPointer then
    interpretation.truth (interpretation.binary .equal operand.1 (interpretation.constant .null))
  else !interpretation.truth operand.1

/-- Where `== null` is the opposite of `!= null`, an operand counts as false exactly if it does not
count as true. -/
theorem isFalse_eq_not_isTrue
    (opposite : ∀ value,
      interpretation.truth (interpretation.binary .equal value (interpretation.constant .null)) =
        !interpretation.truth
          (interpretation.binary .notEqual value (interpretation.constant .null)))
    (operand : V × Typ) :
    isFalse interpretation operand = !isTrue interpretation operand := by
  unfold isFalse isTrue
  split
  · exact opposite operand.1
  · rfl

/-- The target at the position that is equal to a value, if there is one. -/
def caseOf? (value : V) : (position : Nat) → List Offset → Option Offset
  | _, [] => none
  | position, target :: rest =>
    if interpretation.truth
        (interpretation.binary .equal value (interpretation.constant (.int position)))
    then some target
    else caseOf? value (position + 1) rest

/-- The place of a field of an object. -/
def placeOf (object : V) (member : FieldRef) : Place V :=
  .ofObject object ⟨member.fullName, .ofName member.fieldType⟩ (.struct member.declaringType)

/-- The place of a static field. -/
def staticPlaceOf (member : FieldRef) : Place V :=
  .ofType member.declaringType ⟨member.fullName, .ofName member.fieldType⟩
    (.struct member.declaringType)

/-! ### Instructions -/

variable (routine : Routine)

/-- Read a variable and push its value. -/
def loading (offset : Offset) (slot : Slot) (stack : List (V × Typ)) (scene : Scene Slot V W) :
    Option (Transition V W) := do
  let (_, typ) ← routine.slot? slot
  let (value, scene) := scene.read slot
  return .next (← routine.nextOffset? offset) ((value, typ) :: stack) scene

/-- Write the topmost operand to a variable. -/
def storing (offset : Offset) (slot : Slot) (stack : List (V × Typ)) (scene : Scene Slot V W) :
    Option (Transition V W) := do
  let _ ← routine.slot? slot
  let ((value, _), stack) ← pop? stack
  return .next (← routine.nextOffset? offset) stack (scene.write slot value)

/-- Go to the target of an instruction if a condition holds, and on to the next one otherwise. -/
def branching (offset : Offset) (instruction : Instruction) (condition : Bool)
    (stack : List (V × Typ)) (scene : Scene Slot V W) : Option (Transition V W) := do
  let target ← (Operation.target instruction).toOption
  if condition then return .next target stack scene
  else return .next (← routine.nextOffset? offset) stack scene

/-- Call a method with the topmost operands, and push its result unless it has none. -/
def calling (offset : Offset) (instruction : Instruction) (isVirtual : Bool)
    (stack : List (V × Typ)) (scene : Scene Slot V W) : Option (Transition V W) := do
  let callee ← (Operation.method instruction).toOption
  let count := callee.parameters.length + (if callee.hasThis then 1 else 0)
  let (arguments, stack) ← popMany? count stack
  let (result, scene) :=
    scene.call interpretation callee.fullName (arguments.map Prod.fst) isVirtual
  let stack :=
    if callee.returnType = voidName then stack
    else (result, Typ.ofName callee.returnType) :: stack
  return .next (← routine.nextOffset? offset) stack scene

/-- Allocate an object, call its constructor, and push the object. -/
def constructing (offset : Offset) (instruction : Instruction) (stack : List (V × Typ))
    (scene : Scene Slot V W) : Option (Transition V W) := do
  let callee ← (Operation.method instruction).toOption
  let (arguments, stack) ← popMany? callee.parameters.length stack
  let objectType := Typ.ofName callee.declaringType
  let (object, scene) := scene.allocate interpretation objectType.stripPointer
  let (_, scene) :=
    scene.call interpretation callee.fullName (object :: arguments.map Prod.fst) false
  return .next (← routine.nextOffset? offset) ((object, objectType) :: stack) scene

/-- Execute the instruction at an offset. There is no transition if an operand is missing, and none
for an operation that is not known or that ends the body of a finally. -/
def execute (offset : Offset) (instruction : Instruction) (stack : List (V × Typ))
    (scene : Scene Slot V W) : Option (Transition V W) :=
  let pushing (operand : V × Typ) : Option (Transition V W) := do
    return .next (← routine.nextOffset? offset) (operand :: stack) scene
  match instruction.opcode with
  | .nop => do return .next (← routine.nextOffset? offset) stack scene
  | .ldarg position => do
    loading routine offset (.argument (← (Operation.indexOr instruction position).toOption)) stack
      scene
  | .starg => do
    storing routine offset (.argument (← (Operation.index instruction).toOption)) stack scene
  | .ldloc position => do
    loading routine offset (.localVariable (← (Operation.indexOr instruction position).toOption))
      stack scene
  | .stloc position => do
    storing routine offset (.localVariable (← (Operation.indexOr instruction position).toOption))
      stack scene
  | .ldcI4 (some value) => pushing (interpretation.constant (.int value.toInt), .int32)
  | .ldcI4 none => do
    let value ← (Operation.integer instruction).toOption
    pushing (interpretation.constant (.int value.toInt), .int32)
  | .ldcI8 => do
    let value ← (Operation.integer instruction).toOption
    pushing (interpretation.constant (.int value.toInt), .int .i64)
  | .ldcR4 => do
    let value ← (Operation.float instruction).toOption
    pushing (interpretation.constant (.float value), .float .single)
  | .ldcR8 => do
    let value ← (Operation.float instruction).toOption
    pushing (interpretation.constant (.float value), .float .double)
  | .ldstr => do
    let value ← (Operation.string instruction).toOption
    pushing (interpretation.constant (.string value), .ofName "System.String")
  | .ldnull => pushing (interpretation.constant .null, .object)
  | .dup => do
    let (top, _) ← pop? stack
    pushing top
  | .pop => do
    let (_, stack) ← pop? stack
    return .next (← routine.nextOffset? offset) stack scene
  | .binary operator => do
    let (right, stack) ← pop? stack
    let (left, stack) ← pop? stack
    return .next (← routine.nextOffset? offset)
      ((interpretation.binary operator left.1 right.1, left.2) :: stack) scene
  | .compare operator => do
    let (right, stack) ← pop? stack
    let (left, stack) ← pop? stack
    return .next (← routine.nextOffset? offset)
      ((interpretation.binary operator left.1 right.1, .int32) :: stack) scene
  | .neg => do
    let (operand, stack) ← pop? stack
    return .next (← routine.nextOffset? offset)
      ((interpretation.unary .negate operand.1, operand.2) :: stack) scene
  | .not => do
    let (operand, stack) ← pop? stack
    return .next (← routine.nextOffset? offset)
      ((interpretation.unary .bitNot operand.1, operand.2) :: stack) scene
  | .br => do return .next (← (Operation.target instruction).toOption) stack scene
  | .brtrue => do
    let (operand, stack) ← pop? stack
    branching routine offset instruction (isTrue interpretation operand) stack scene
  | .brfalse => do
    let (operand, stack) ← pop? stack
    branching routine offset instruction (isFalse interpretation operand) stack scene
  | .branch operator => do
    let (right, stack) ← pop? stack
    let (left, stack) ← pop? stack
    branching routine offset instruction
      (interpretation.truth (interpretation.binary operator left.1 right.1)) stack scene
  | .switch => do
    let targets ← (Operation.targets instruction).toOption
    let (operand, stack) ← pop? stack
    match caseOf? interpretation operand.1 0 targets with
    | some target => return .next target stack scene
    | none => return .next (← routine.nextOffset? offset) stack scene
  | .call => calling interpretation routine offset instruction false stack scene
  | .callvirt => calling interpretation routine offset instruction true stack scene
  | .newobj => constructing interpretation routine offset instruction stack scene
  | .ldfld => do
    let member ← (Operation.field instruction).toOption
    let (base, stack) ← pop? stack
    let (value, scene) := scene.readField interpretation (placeOf base.1 member)
    return .next (← routine.nextOffset? offset) ((value, .ofName member.fieldType) :: stack) scene
  | .ldsfld => do
    let member ← (Operation.field instruction).toOption
    let (value, scene) := scene.readField interpretation (staticPlaceOf member)
    return .next (← routine.nextOffset? offset) ((value, .ofName member.fieldType) :: stack) scene
  | .stfld => do
    let member ← (Operation.field instruction).toOption
    let (value, stack) ← pop? stack
    let (base, stack) ← pop? stack
    return .next (← routine.nextOffset? offset) stack
      (scene.writeField interpretation (placeOf base.1 member) value.1)
  | .stsfld => do
    let member ← (Operation.field instruction).toOption
    let (value, stack) ← pop? stack
    return .next (← routine.nextOffset? offset) stack
      (scene.writeField interpretation (staticPlaceOf member) value.1)
  | .ret =>
    if routine.method.returnType = voidName then some (.ended (.returned none) scene)
    else do
      let (value, _) ← pop? stack
      return .ended (.returned (some value.1)) scene
  | .throw => do
    let (exception, _) ← pop? stack
    return .ended (.thrown exception.1) scene
  | .leave => do return .next (← (Operation.target instruction).toOption) [] scene
  | .endfinally | .unknown => none

/-- `execute` the instruction at an offset, if there is one. -/
def step (offset : Offset) (stack : List (V × Typ)) (scene : Scene Slot V W) :
    Option (Transition V W) := do
  execute interpretation routine offset (← routine.instructionAt? offset) stack scene

variable {interpretation routine} in
theorem step_of_found {offset : Offset} {instruction : Instruction}
    (found : routine.instructionAt? offset = some instruction) (stack : List (V × Typ))
    (scene : Scene Slot V W) :
    step interpretation routine offset stack scene =
      execute interpretation routine offset instruction stack scene := by
  rw [step, found, Option.bind_eq_bind, Option.bind_some]

/-- An execution by `step` from an offset on ends with a result and a scene. -/
inductive Runs : Offset → List (V × Typ) → Scene Slot V W → Result V → Scene Slot V W → Prop
  | ended {offset : Offset} {stack : List (V × Typ)} {scene final : Scene Slot V W}
    {result : Result V}
    (ends : step interpretation routine offset stack scene = some (.ended result final)) :
    Runs offset stack scene result final
  | next {offset next : Offset} {stack after : List (V × Typ)}
    {scene later final : Scene Slot V W} {result : Result V}
    (steps : step interpretation routine offset stack scene = some (.next next after later))
    (runs : Runs next after later result final) : Runs offset stack scene result final

end Bytecode

end BytecodeFlow

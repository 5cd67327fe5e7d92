/-
This file says what an instruction asks for once its operands are resolved, an
`Operation`: the values it needs are taken off the operand stack, arguments,
locals and fields have become addresses, and only the effect on the graph is
left to do. Everything that can be wrong with the operands is found here, by
`Operation.resolve`.
-/

import BytecodeFlow.Walk.Routine

namespace BytecodeFlow

/-- An instruction with its operands resolved. -/
inductive Operation where
  /-- Only the operand stack changes. -/
  | proceed
  /-- Load from an address and push the result. -/
  | load (address : Expr) (typ : Typ)
  | store (address : Expr) (typ : Typ) (value : Expr)
  /-- Call a method and push the result, if it has one. -/
  | invoke (callee : MethodRef) (arguments : List Value) (isVirtual : Bool)
  /-- Create an object, call its constructor, and push the object. -/
  | construct (callee : MethodRef) (arguments : List Value)
  | jump (target : Offset)
  | branch (condition : Expr) (target : Offset)
  /-- Go to the target at the position given by a value, if there is one. -/
  | select (value : Expr) (targets : List Offset)
  /-- Return from the method, with a value of the method's return type if it has one. -/
  | finish (value : Option Expr)
  | raise (exception : Value)
  | leave (target : Offset)
  | endFinally
deriving DecidableEq, Repr

/-- An operation, with the operand stack that is left for it. -/
structure Resolved where
  operation : Operation
  stack : List Value
deriving DecidableEq, Repr

namespace Operation

/-! ### The operand stack, its top first -/

def pop (offset : Offset) : List Value → Except Fault (Value × List Value)
  | [] => .error (.stackUnderflow offset)
  | top :: rest => .ok (top, rest)

/-- Take a number of values; the lowest of them comes first. -/
def popMany (offset : Offset) (count : Nat) (stack : List Value) :
    Except Fault (List Value × List Value) :=
  if stack.length < count then .error (.stackUnderflow offset)
  else .ok ((stack.take count).reverse, stack.drop count)

/-! ### Operands -/

def missing {α : Type} (instruction : Instruction) (expected : OperandRole) : Except Fault α :=
  .error (.missingOperand instruction.mnemonic expected instruction.offset)

def integer (instruction : Instruction) : Except Fault Int64 :=
  match instruction.operand with
  | .int value => .ok value
  | _ => missing instruction .integer

def index (instruction : Instruction) : Except Fault Nat := do
  let value ← integer instruction
  if value.toInt < 0 then missing instruction .index else .ok value.toInt.toNat

/-- The index in the mnemonic or, if it has none, in the operand. -/
def indexOr (instruction : Instruction) : Option Nat → Except Fault Nat
  | some value => .ok value
  | none => index instruction

def float (instruction : Instruction) : Except Fault Binary64 :=
  match instruction.operand with
  | .float value => .ok value
  | .int value =>
    match Binary64.ofInt? value.toInt with
    | some converted => .ok converted
    | none => missing instruction .float
  | _ => missing instruction .float

def string (instruction : Instruction) : Except Fault String :=
  match instruction.operand with
  | .string value => .ok value
  | _ => missing instruction .string

def target (instruction : Instruction) : Except Fault Offset :=
  match instruction.operand with
  | .target offset => .ok offset
  | _ => missing instruction .branchTarget

def targets (instruction : Instruction) : Except Fault (List Offset) :=
  match instruction.operand with
  | .targets offsets => .ok offsets
  | _ => missing instruction .switchTargets

def method (instruction : Instruction) : Except Fault MethodRef :=
  match instruction.operand with
  | .method callee => .ok callee
  | _ => missing instruction .method

def field (instruction : Instruction) : Except Fault FieldRef :=
  match instruction.operand with
  | .field member => .ok member
  | _ => missing instruction .field

/-! ### Addresses and conditions -/

/-- The address of a field of the object at a base. -/
def fieldAddress (base : Expr) (member : FieldRef) : Expr :=
  .field base ⟨member.fullName, .ofName member.fieldType⟩ (.struct member.declaringType)

/-- The base of the static fields of a type. -/
def staticBase (member : FieldRef) : Expr := .address (.statics member.declaringType)

/-- The condition that a value is true, or that it is false. A reference is true when it is not
null. -/
def truth (value : Value) (expected : Bool) : Expr :=
  if value.typ.isPointer then
    .binary (if expected then .notEqual else .equal) value.expr .null
  else if expected then value.expr
  else .not value.expr

/-! ### Resolving -/

/-- Push a value and go on. -/
def pushing (expr : Expr) (typ : Typ) (stack : List Value) : Except Fault Resolved :=
  .ok ⟨.proceed, ⟨expr, typ⟩ :: stack⟩

/-- Replace the two topmost values by one. -/
def combining (offset : Offset) (stack : List Value)
    (combine : Value → Value → Value) : Except Fault Resolved := do
  let (right, stack) ← pop offset stack
  let (left, stack) ← pop offset stack
  return ⟨.proceed, combine left right :: stack⟩

/-- Replace the topmost value by the result of an operator. -/
def applying (offset : Offset) (stack : List Value) (operator : UnaryOperator) :
    Except Fault Resolved := do
  let (operand, stack) ← pop offset stack
  return ⟨.proceed, ⟨.unary operator operand.expr, operand.typ⟩ :: stack⟩

/-- Store the topmost value into a variable. -/
def storing (offset : Offset) (stack : List Value) (place : Expr × Typ) :
    Except Fault Resolved := do
  let (value, stack) ← pop offset stack
  return ⟨.store place.1 place.2 value.expr, stack⟩

/-- Branch on the truth of the topmost value. -/
def testing (instruction : Instruction) (stack : List Value) (expected : Bool) :
    Except Fault Resolved := do
  let (value, stack) ← pop instruction.offset stack
  return ⟨.branch (truth value expected) (← target instruction), stack⟩

/-- Branch on a comparison of the two topmost values. -/
def comparing (instruction : Instruction) (stack : List Value) (operator : BinaryOperator) :
    Except Fault Resolved := do
  let (right, stack) ← pop instruction.offset stack
  let (left, stack) ← pop instruction.offset stack
  return ⟨.branch (.binary operator left.expr right.expr) (← target instruction), stack⟩

/-- Call a method with the topmost values as its arguments. -/
def calling (instruction : Instruction) (stack : List Value) (isVirtual : Bool) :
    Except Fault Resolved := do
  let callee ← method instruction
  let count := callee.parameters.length + (if callee.hasThis then 1 else 0)
  let (arguments, stack) ← popMany instruction.offset count stack
  return ⟨.invoke callee arguments isVirtual, stack⟩

/-- Resolve the operands of an instruction; the result is `none` when its operation is not one
that is known. -/
def resolve (routine : Routine) (instruction : Instruction) (stack : List Value) :
    Except Fault (Option Resolved) :=
  let offset := instruction.offset
  match instruction.opcode with
  | .nop => .ok (some ⟨.proceed, stack⟩)
  | .ldarg position => do
    let (address, typ) ← routine.argument offset (← indexOr instruction position)
    return some ⟨.load address typ, stack⟩
  | .starg => do
    let place ← routine.argument offset (← index instruction)
    some <$> storing offset stack place
  | .ldloc position => do
    let (address, typ) ← routine.localVariable offset (← indexOr instruction position)
    return some ⟨.load address typ, stack⟩
  | .stloc position => do
    let place ← routine.localVariable offset (← indexOr instruction position)
    some <$> storing offset stack place
  | .ldcI4 (some value) => some <$> pushing (.int value.toInt) .int32 stack
  | .ldcI4 none => do some <$> pushing (.int (← integer instruction).toInt) .int32 stack
  | .ldcI8 => do some <$> pushing (.int (← integer instruction).toInt) (.int .i64) stack
  | .ldcR4 => do
    some <$> pushing (.const (.float (← float instruction))) (.float .single) stack
  | .ldcR8 => do
    some <$> pushing (.const (.float (← float instruction))) (.float .double) stack
  | .ldstr => do
    some <$> pushing (.const (.string (← string instruction))) (.ofName "System.String") stack
  | .ldnull => some <$> pushing .null .object stack
  | .dup => do
    let (top, _) ← pop offset stack
    return some ⟨.proceed, top :: stack⟩
  | .pop => do
    let (_, stack) ← pop offset stack
    return some ⟨.proceed, stack⟩
  | .binary operator =>
    some <$> combining offset stack fun left right =>
      ⟨.binary operator left.expr right.expr, left.typ⟩
  | .compare operator =>
    some <$> combining offset stack fun left right =>
      ⟨.binary operator left.expr right.expr, .int32⟩
  | .neg => some <$> applying offset stack .negate
  | .not => some <$> applying offset stack .bitNot
  | .br => do return some ⟨.jump (← target instruction), stack⟩
  | .brtrue => some <$> testing instruction stack true
  | .brfalse => some <$> testing instruction stack false
  | .branch operator => some <$> comparing instruction stack operator
  | .switch => do
    let offsets ← targets instruction
    let (value, stack) ← pop offset stack
    return some ⟨.select value.expr offsets, stack⟩
  | .call => some <$> calling instruction stack false
  | .callvirt => some <$> calling instruction stack true
  | .newobj => do
    let callee ← method instruction
    let (arguments, stack) ← popMany offset callee.parameters.length stack
    return some ⟨.construct callee arguments, stack⟩
  | .ldfld => do
    let member ← field instruction
    let (base, stack) ← pop offset stack
    return some ⟨.load (fieldAddress base.expr member) (.ofName member.fieldType), stack⟩
  | .ldsfld => do
    let member ← field instruction
    return some
      ⟨.load (fieldAddress (staticBase member) member) (.ofName member.fieldType), stack⟩
  | .stfld => do
    let member ← field instruction
    let (value, stack) ← pop offset stack
    let (base, stack) ← pop offset stack
    return some
      ⟨.store (fieldAddress base.expr member) (.ofName member.fieldType) value.expr, stack⟩
  | .stsfld => do
    let member ← field instruction
    let (value, stack) ← pop offset stack
    return some
      ⟨.store (fieldAddress (staticBase member) member) (.ofName member.fieldType) value.expr,
        stack⟩
  | .ret =>
    if routine.method.returnType = voidName then .ok (some ⟨.finish none, stack⟩)
    else do
      let (value, stack) ← pop offset stack
      return some ⟨.finish (some value.expr), stack⟩
  | .throw => do
    let (value, stack) ← pop offset stack
    return some ⟨.raise value, stack⟩
  | .leave => do return some ⟨.leave (← target instruction), stack⟩
  | .endfinally => .ok (some ⟨.endFinally, stack⟩)
  | .unknown => .ok none

end Operation

end BytecodeFlow

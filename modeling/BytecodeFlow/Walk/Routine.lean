/-
This file prepares a method for the walk over its code, as a `Routine`:
instructions by offset, block leaders and protected regions. It also names
everything that can be wrong with a method body at a single instruction, as a
`Fault`.
-/

import Std.Data.ExtTreeMap
import BytecodeFlow.Block.Leader
import BytecodeFlow.Region.Lookup
import BytecodeFlow.Target.Command

namespace BytecodeFlow

/-! ### Faults -/

/-- What an instruction needs of its operand. -/
inductive OperandRole where
  | integer
  | index
  | float
  | string
  | branchTarget
  | switchTargets
  | method
  | field
deriving DecidableEq, Repr

def OperandRole.text : OperandRole → String
  | .integer => "integer"
  | .index => "index"
  | .float => "float"
  | .string => "string"
  | .branchTarget => "branch target"
  | .switchTargets => "switch targets"
  | .method => "method"
  | .field => "field"

/-- What an index refers to. -/
inductive Indexed where
  | argument
  | localVariable
  | handler
  | finally
deriving DecidableEq, Repr

def Indexed.text : Indexed → String
  | .argument => "argument"
  | .localVariable => "local"
  | .handler => "handler"
  | .finally => "finally"

/-- An inconsistency of a method body. -/
inductive Fault where
  | stackUnderflow (offset : Offset)
  | missingOperand (mnemonic : String) (expected : OperandRole) (offset : Offset)
  | offsetNotFound (offset : Offset)
  | indexOutOfRange (indexed : Indexed) (index : Nat) (offset : Offset)
  | unexpectedEndfinally (offset : Offset)
deriving DecidableEq, Repr

def Fault.message : Fault → String
  | .stackUnderflow offset => "operand stack underflow at offset " ++ toString offset
  | .missingOperand mnemonic expected offset =>
    "missing " ++ expected.text ++ " operand for " ++ mnemonic ++ " at offset " ++ toString offset
  | .offsetNotFound offset => "no instruction at offset " ++ toString offset
  | .indexOutOfRange indexed index offset =>
    "index " ++ toString index ++ " out of range for " ++ indexed.text ++ " at offset " ++
      toString offset
  | .unexpectedEndfinally offset =>
    "endfinally outside a finally handler at offset " ++ toString offset

/-! ### Routines -/

/-- A method with a body, prepared for lookup. -/
structure Routine where
  declaringType : String
  method : MethodDef
  locals : List String
  instructions : Array Instruction
  /-- The position of the instruction at an offset, the last one if there are several. -/
  positions : Std.ExtTreeMap Offset Nat
  regions : Regions
  leaders : OffsetSet

/-- The name of a local variable. -/
def localName (index : Nat) : String := "V_" ++ toString index

/-- The position of each offset; a later instruction hides an earlier one at its offset. -/
def positionsOf (instructions : List Instruction) : Std.ExtTreeMap Offset Nat :=
  instructions.zipIdx.foldl
    (fun positions (instruction, position) => positions.insert instruction.offset position) ∅

namespace Routine

def ofBody (declaringType : String) (method : MethodDef) (body : MethodBody) : Routine :=
  let regions := Regions.analyze body.handlers body.instructions
  { declaringType
    method
    locals := body.locals
    instructions := body.instructions.toArray
    positions := positionsOf body.instructions
    regions
    leaders := blockLeaders body.instructions regions.boundaries }

def sourceFile (routine : Routine) : String := routine.method.sourceFile.getD ""

def instructionAt? (routine : Routine) (offset : Offset) : Option Instruction := do
  let position ← routine.positions[offset]?
  routine.instructions[position]?

/-- The offset of the instruction that follows the one at an offset. -/
def nextOffset? (routine : Routine) (offset : Offset) : Option Offset := do
  let position ← routine.positions[offset]?
  let next ← routine.instructions[position + 1]?
  return next.offset

/-- The number of instructions from an offset to the end of the body. -/
def remaining (routine : Routine) (offset : Offset) : Nat :=
  match routine.positions[offset]? with
  | some position => routine.instructions.size - position
  | none => routine.instructions.size

/-- The source position of an instruction, or the given one if it has none. -/
def locationOf (routine : Routine) (instruction : Instruction) (otherwise : Location) : Location :=
  match instruction.line with
  | some line => ⟨some line, routine.sourceFile⟩
  | none => otherwise

/-- The source position of the instruction at an offset, or the given one if it has none. -/
def locationAt (routine : Routine) (offset : Offset) (otherwise : Location) : Location :=
  match routine.instructionAt? offset with
  | some instruction => routine.locationOf instruction otherwise
  | none => otherwise

/-! ### Variables -/

def parameter (routine : Routine) (offset : Offset) (index : Nat) : Except Fault (Expr × Typ) :=
  match routine.method.parameters[index]? with
  | some parameter => .ok (.frame parameter.name, .ofName parameter.typeName)
  | none => .error (.indexOutOfRange .argument index offset)

/-- The address and the type of an argument; argument 0 of an instance method is the receiver. -/
def argument (routine : Routine) (offset : Offset) (index : Nat) : Except Fault (Expr × Typ) :=
  if routine.method.hasThis then
    match index with
    | 0 => .ok (.frame thisName, .ofName routine.declaringType)
    | index + 1 => routine.parameter offset index
  else routine.parameter offset index

/-- The address and the type of a local variable. -/
def localVariable (routine : Routine) (offset : Offset) (index : Nat) :
    Except Fault (Expr × Typ) :=
  match routine.locals[index]? with
  | some typeName => .ok (.frame (localName index), .ofName typeName)
  | none => .error (.indexOutOfRange .localVariable index offset)

end Routine

end BytecodeFlow

/-
This file defines the metadata of a program: assemblies, the types they
declare, and the methods of these types with their bodies and exception tables
(`Assembly`, `TypeDef`, `MethodDef`, `MethodBody`, `HandlerEntry`). It also
gives members the qualified names by which everything else refers to them
(`MethodRef.fullName`, `FieldRef.fullName`).
-/

import BytecodeFlow.Metadata.Opcode

namespace BytecodeFlow

/-- The position of an instruction in its method body. -/
abbrev Offset := UInt32

/-- The name of the type of a method that returns nothing. -/
def voidName : String := "System.Void"

/-- A method that an instruction refers to. -/
structure MethodRef where
  declaringType : String
  name : String
  parameters : List String
  returnType : String
  hasThis : Bool
deriving DecidableEq, Repr

/-- A field that an instruction refers to. -/
structure FieldRef where
  declaringType : String
  name : String
  fieldType : String
deriving DecidableEq, Repr

inductive Operand where
  | none
  | int (value : Int64)
  | float (value : Binary64)
  | string (value : String)
  | target (offset : Offset)
  | targets (offsets : List Offset)
  | method (callee : MethodRef)
  | field (member : FieldRef)
  | type (name : String)
deriving DecidableEq, Repr

structure Instruction where
  offset : Offset
  mnemonic : String
  operand : Operand
  line : Option UInt32
deriving DecidableEq, Repr

inductive HandlerKind where
  | catch
  | finally
  | filter
  | fault
deriving DecidableEq, Repr

/-- An entry of the exception table. The ends of the two ranges are not part of them, and the
handler's range may be missing. -/
structure HandlerEntry where
  kind : HandlerKind
  tryStart : Offset
  tryEnd : Offset
  handlerStart : Option Offset
  handlerEnd : Option Offset
  catchType : Option String
deriving DecidableEq, Repr

structure MethodBody where
  locals : List String
  instructions : List Instruction
  handlers : List HandlerEntry
deriving DecidableEq, Repr

structure Parameter where
  name : String
  typeName : String
deriving DecidableEq, Repr

structure MethodDef where
  name : String
  parameters : List Parameter
  returnType : String
  isStatic : Bool
  isAbstract : Bool
  sourceFile : Option String
  body : Option MethodBody
deriving DecidableEq, Repr

structure FieldDef where
  name : String
  fieldType : String
  isStatic : Bool
deriving DecidableEq, Repr

structure TypeDef where
  name : String
  base : Option String
  interfaces : List String
  fields : List FieldDef
  methods : List MethodDef
deriving DecidableEq, Repr

structure Assembly where
  name : String
  types : List TypeDef
deriving DecidableEq, Repr

/-! ### Qualified names -/

/-- The name under which a method is known everywhere. -/
def qualifiedMethodName (returnType declaringType name : String) (parameters : List String) :
    String :=
  returnType ++ " " ++ declaringType ++ "::" ++ name ++ "(" ++ ",".intercalate parameters ++ ")"

/-- The name under which a field is known everywhere. -/
def qualifiedFieldName (declaringType name : String) : String := declaringType ++ "." ++ name

def MethodRef.fullName (callee : MethodRef) : String :=
  qualifiedMethodName callee.returnType callee.declaringType callee.name callee.parameters

def FieldRef.fullName (member : FieldRef) : String :=
  qualifiedFieldName member.declaringType member.name

namespace MethodDef

def fullName (method : MethodDef) (declaringType : String) : String :=
  qualifiedMethodName method.returnType declaringType method.name
    (method.parameters.map Parameter.typeName)

/-- Whether the method has a receiver. -/
def hasThis (method : MethodDef) : Bool := !method.isStatic

/-- The first source line of the body; `none` when the method has no line information. -/
def firstLine (method : MethodDef) : Option UInt32 := do
  let body ← method.body
  body.instructions.findSome? Instruction.line

/-- Whether the method releases a resource by the usual convention. -/
def isDispose (method : MethodDef) : Bool :=
  (method.name == "Dispose" || method.name == "System.IDisposable.Dispose") &&
    method.returnType == voidName

def isConstructor (method : MethodDef) : Bool := method.name == ".ctor"

end MethodDef

/-! ### Instructions -/

namespace Instruction

def opcode (instruction : Instruction) : Opcode := .parse instruction.mnemonic

/-- The offsets to which an instruction may transfer control by its operand. Only a switch takes
more than one. -/
def branchTargets (instruction : Instruction) : List Offset :=
  match instruction.operand with
  | .target offset => [offset]
  | .targets offsets => if instruction.opcode = .switch then offsets else []
  | _ => []

/-- Whether control can go on to the next instruction of the stream. -/
def fallsThrough (instruction : Instruction) : Bool := instruction.opcode.fallsThrough

end Instruction

end BytecodeFlow

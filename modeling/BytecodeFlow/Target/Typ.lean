/-
This file defines the types of the target language, `Typ`, and how a metadata
type name denotes one (`Typ.ofName`). A name is read from its end: each `[]` is
an array behind a pointer, each `&` a pointer, and what remains is a primitive
type or, behind a pointer, a structure of that name.
-/

namespace BytecodeFlow

inductive IntKind where
  | bool
  | char
  | i8
  | u8
  | i16
  | u16
  | i32
  | u32
  | i64
  | u64
deriving DecidableEq, Repr

inductive FloatKind where
  | single
  | double
deriving DecidableEq, Repr

inductive Typ where
  | int (kind : IntKind)
  | float (kind : FloatKind)
  | void
  | pointer (pointee : Typ)
  | struct (name : String)
  | array (element : Typ)
deriving DecidableEq, Repr

/-- The text of an integer kind. -/
def IntKind.text : IntKind → String
  | .bool => "bool"
  | .char => "char"
  | .i8 => "signed char"
  | .u8 => "unsigned char"
  | .i16 => "short"
  | .u16 => "unsigned short"
  | .i32 => "int"
  | .u32 => "unsigned int"
  | .i64 => "long long"
  | .u64 => "unsigned long long"

/-- The text of a floating-point kind. -/
def FloatKind.text : FloatKind → String
  | .single => "float"
  | .double => "double"

namespace Typ

/-- The type of a name without array and reference marks. A name that is not primitive is a
reference type. -/
def ofBaseName (name : String) : Typ :=
  match name with
  | "System.Void" => .void
  | "System.Boolean" => .int .bool
  | "System.Char" => .int .char
  | "System.SByte" => .int .i8
  | "System.Byte" => .int .u8
  | "System.Int16" => .int .i16
  | "System.UInt16" => .int .u16
  | "System.Int32" => .int .i32
  | "System.UInt32" => .int .u32
  | "System.Int64" => .int .i64
  | "System.IntPtr" => .int .i64
  | "System.UInt64" => .int .u64
  | "System.UIntPtr" => .int .u64
  | "System.Single" => .float .single
  | "System.Double" => .float .double
  | _ => .pointer (.struct name)

/-- The type of a name whose characters are given from the last to the first. -/
def ofReversedName : List Char → Typ
  | ']' :: '[' :: element => .pointer (.array (ofReversedName element))
  | '&' :: referenced => .pointer (ofReversedName referenced)
  | base => ofBaseName (String.ofList base.reverse)

/-- The type that a metadata type name denotes. -/
def ofName (name : String) : Typ := ofReversedName name.toList.reverse

def int32 : Typ := .int .i32

def boolean : Typ := .int .bool

/-- The type of any object, which the return slot has while an exception is under way. -/
def object : Typ := ofName "System.Object"

def isPointer : Typ → Bool
  | .pointer _ => true
  | _ => false

/-- What a pointer points to; any other type is left as it is. -/
def stripPointer : Typ → Typ
  | .pointer pointee => pointee
  | other => other

/-- The text of a type. -/
def text : Typ → String
  | .int kind => kind.text
  | .float kind => kind.text
  | .void => "void"
  | .pointer pointee => pointee.text ++ "*"
  | .struct name => name
  | .array element => element.text ++ "[_]"

end Typ

/-- A field by its qualified name, with its type. -/
structure FieldName where
  name : String
  typ : Typ
deriving DecidableEq, Repr

/-- The text of a field: its name and its type. -/
def FieldName.text (field : FieldName) : String := field.name ++ ":" ++ field.typ.text

end BytecodeFlow

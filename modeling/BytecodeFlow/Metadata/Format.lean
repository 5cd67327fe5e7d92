/-
This file reads metadata from JSON and writes it back (`Assembly.decode`,
`Assembly.encode`). A record may be written with some of its fields left out,
which then have their defaults; writing always gives every field.
-/

import BytecodeFlow.Json.Value
import BytecodeFlow.Metadata.Assembly

namespace BytecodeFlow

open Json (text? caseName? bool? word32? signed64? float? nullable listOf)

/-! ### Reading -/

namespace MethodRef

def fieldNames : List String := ["declaring_type", "name", "parameters", "return_type", "has_this"]

def decode (json : Json) : Option MethodRef := do
  let record ← json.record? fieldNames
  return {
    declaringType := ← record.required "declaring_type" text?
    name := ← record.required "name" text?
    parameters := ← record.withDefault "parameters" [] (listOf text?)
    returnType := ← record.withDefault "return_type" voidName text?
    hasThis := ← record.withDefault "has_this" false bool? }

end MethodRef

namespace FieldRef

def fieldNames : List String := ["declaring_type", "name", "field_type"]

def decode (json : Json) : Option FieldRef := do
  let record ← json.record? fieldNames
  return {
    declaringType := ← record.required "declaring_type" text?
    name := ← record.required "name" text?
    fieldType := ← record.required "field_type" text? }

end FieldRef

namespace Operand

/-- Read the value of an operand of the given kind. -/
def decodeValue (kind : String) (value : Json) : Option Operand :=
  match kind with
  | "none" => match value with
    | .null => some .none
    | _ => Option.none
  | "int" => (signed64? value).map .int
  | "float" => (float? value).map .float
  | "string" => (text? value).map .string
  | "target" => (word32? value).map .target
  | "targets" => (listOf word32? value).map .targets
  | "method" => (MethodRef.decode value).map .method
  | "field" => (FieldRef.decode value).map .field
  | "type" => (text? value).map .type
  | _ => Option.none

/-- How deep a value may nest that stands before its kind: it is set aside until the kind is
known. -/
def deferredDepth : Nat := 118

/-- Whether the value is written before the kind. -/
def valueComesFirst (record : Json.Record) : Bool :=
  match record with
  | ("value", _) :: _ => true
  | _ => false

/-- Read an operand: its kind and its value, in any order, or an array of the two, in which the kind
has to be a text. -/
def decode : Json → Option Operand
  | .object members => do
    let record ← (Json.object members).record? ["kind", "value"]
    let kind ← record.required "kind" caseName?
    match record.lookup "value" with
    | Option.none => if kind = "none" then some .none else Option.none
    | some value =>
      if valueComesFirst record && !value.storable deferredDepth then Option.none
      else decodeValue kind value
  | .array [kind, value] => do decodeValue (← kind.text?) value
  | _ => Option.none

end Operand

namespace Instruction

def fieldNames : List String := ["offset", "opcode", "operand", "line"]

def decode (json : Json) : Option Instruction := do
  let record ← json.record? fieldNames
  return {
    offset := ← record.required "offset" word32?
    mnemonic := ← record.required "opcode" text?
    operand := ← record.withDefault "operand" .none Operand.decode
    line := ← record.withDefault "line" none (nullable word32?) }

end Instruction

namespace HandlerKind

def ofName? : String → Option HandlerKind
  | "catch" => some .catch
  | "finally" => some .finally
  | "filter" => some .filter
  | "fault" => some .fault
  | _ => none

def name : HandlerKind → String
  | .catch => "catch"
  | .finally => "finally"
  | .filter => "filter"
  | .fault => "fault"

def decode (json : Json) : Option HandlerKind := json.caseName?.bind ofName?

end HandlerKind

namespace HandlerEntry

def fieldNames : List String :=
  ["kind", "try_start", "try_end", "handler_start", "handler_end", "catch_type"]

def decode (json : Json) : Option HandlerEntry := do
  let record ← json.record? fieldNames
  return {
    kind := ← record.required "kind" HandlerKind.decode
    tryStart := ← record.required "try_start" word32?
    tryEnd := ← record.required "try_end" word32?
    handlerStart := ← record.withDefault "handler_start" none (nullable word32?)
    handlerEnd := ← record.withDefault "handler_end" none (nullable word32?)
    catchType := ← record.withDefault "catch_type" none (nullable text?) }

end HandlerEntry

namespace MethodBody

def fieldNames : List String := ["locals", "instructions", "exception_handlers"]

def decode (json : Json) : Option MethodBody := do
  let record ← json.record? fieldNames
  return {
    locals := ← record.withDefault "locals" [] (listOf text?)
    instructions := ← record.withDefault "instructions" [] (listOf Instruction.decode)
    handlers := ← record.withDefault "exception_handlers" [] (listOf HandlerEntry.decode) }

end MethodBody

namespace Parameter

def fieldNames : List String := ["name", "param_type"]

def decode (json : Json) : Option Parameter := do
  let record ← json.record? fieldNames
  return {
    name := ← record.required "name" text?
    typeName := ← record.required "param_type" text? }

end Parameter

namespace MethodDef

def fieldNames : List String :=
  ["name", "parameters", "return_type", "is_static", "is_abstract", "source_file", "body"]

def decode (json : Json) : Option MethodDef := do
  let record ← json.record? fieldNames
  return {
    name := ← record.required "name" text?
    parameters := ← record.withDefault "parameters" [] (listOf Parameter.decode)
    returnType := ← record.withDefault "return_type" voidName text?
    isStatic := ← record.withDefault "is_static" false bool?
    isAbstract := ← record.withDefault "is_abstract" false bool?
    sourceFile := ← record.withDefault "source_file" none (nullable text?)
    body := ← record.withDefault "body" none (nullable MethodBody.decode) }

end MethodDef

namespace FieldDef

def fieldNames : List String := ["name", "field_type", "is_static"]

def decode (json : Json) : Option FieldDef := do
  let record ← json.record? fieldNames
  return {
    name := ← record.required "name" text?
    fieldType := ← record.required "field_type" text?
    isStatic := ← record.withDefault "is_static" false bool? }

end FieldDef

namespace TypeDef

def fieldNames : List String := ["name", "base", "interfaces", "fields", "methods"]

def decode (json : Json) : Option TypeDef := do
  let record ← json.record? fieldNames
  return {
    name := ← record.required "name" text?
    base := ← record.withDefault "base" none (nullable text?)
    interfaces := ← record.withDefault "interfaces" [] (listOf text?)
    fields := ← record.withDefault "fields" [] (listOf FieldDef.decode)
    methods := ← record.withDefault "methods" [] (listOf MethodDef.decode) }

end TypeDef

namespace Assembly

def fieldNames : List String := ["name", "types"]

def decode (json : Json) : Option Assembly := do
  let record ← json.record? fieldNames
  return {
    name := ← record.required "name" text?
    types := ← record.withDefault "types" [] (listOf TypeDef.decode) }

end Assembly

/-! ### Writing -/

/-- A value that may be missing, written as `null` then. -/
def Json.ofOption {α : Type} (encode : α → Json) : Option α → Json
  | none => .null
  | some value => encode value

def Json.ofList {α : Type} (encode : α → Json) (values : List α) : Json :=
  .array (values.map encode)

def Json.ofWord (value : UInt32) : Json := .int value.toNat

def MethodRef.encode (callee : MethodRef) : Json :=
  .object [
    ("declaring_type", .string callee.declaringType),
    ("name", .string callee.name),
    ("parameters", .ofList .string callee.parameters),
    ("return_type", .string callee.returnType),
    ("has_this", .bool callee.hasThis)]

def FieldRef.encode (member : FieldRef) : Json :=
  .object [
    ("declaring_type", .string member.declaringType),
    ("name", .string member.name),
    ("field_type", .string member.fieldType)]

/-- An operand with a value: its kind and the value. -/
def Operand.tagged (kind : String) (value : Json) : Json :=
  .object [("kind", .string kind), ("value", value)]

def Operand.encode : Operand → Json
  | .none => .object [("kind", .string "none")]
  | .int value => tagged "int" (.int value.toInt)
  | .float value => tagged "float" (.float value)
  | .string value => tagged "string" (.string value)
  | .target offset => tagged "target" (.ofWord offset)
  | .targets offsets => tagged "targets" (.ofList .ofWord offsets)
  | .method callee => tagged "method" callee.encode
  | .field member => tagged "field" member.encode
  | .type name => tagged "type" (.string name)

def Instruction.encode (instruction : Instruction) : Json :=
  .object [
    ("offset", .ofWord instruction.offset),
    ("opcode", .string instruction.mnemonic),
    ("operand", instruction.operand.encode),
    ("line", .ofOption .ofWord instruction.line)]

def HandlerEntry.encode (entry : HandlerEntry) : Json :=
  .object [
    ("kind", .string entry.kind.name),
    ("try_start", .ofWord entry.tryStart),
    ("try_end", .ofWord entry.tryEnd),
    ("handler_start", .ofOption .ofWord entry.handlerStart),
    ("handler_end", .ofOption .ofWord entry.handlerEnd),
    ("catch_type", .ofOption .string entry.catchType)]

def MethodBody.encode (body : MethodBody) : Json :=
  .object [
    ("locals", .ofList .string body.locals),
    ("instructions", .ofList Instruction.encode body.instructions),
    ("exception_handlers", .ofList HandlerEntry.encode body.handlers)]

def Parameter.encode (parameter : Parameter) : Json :=
  .object [("name", .string parameter.name), ("param_type", .string parameter.typeName)]

def MethodDef.encode (method : MethodDef) : Json :=
  .object [
    ("name", .string method.name),
    ("parameters", .ofList Parameter.encode method.parameters),
    ("return_type", .string method.returnType),
    ("is_static", .bool method.isStatic),
    ("is_abstract", .bool method.isAbstract),
    ("source_file", .ofOption .string method.sourceFile),
    ("body", .ofOption MethodBody.encode method.body)]

def FieldDef.encode (field : FieldDef) : Json :=
  .object [
    ("name", .string field.name),
    ("field_type", .string field.fieldType),
    ("is_static", .bool field.isStatic)]

def TypeDef.encode (type : TypeDef) : Json :=
  .object [
    ("name", .string type.name),
    ("base", .ofOption .string type.base),
    ("interfaces", .ofList .string type.interfaces),
    ("fields", .ofList FieldDef.encode type.fields),
    ("methods", .ofList MethodDef.encode type.methods)]

def Assembly.encode (assembly : Assembly) : Json :=
  .object [
    ("name", .string assembly.name),
    ("types", .ofList TypeDef.encode assembly.types)]

end BytecodeFlow

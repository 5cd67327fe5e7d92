/-
This file describes what a type is after inheritance has been worked out: the
`TypeEntry` of a type has its own members, what it inherits, and the types it
inherits from.
-/

import BytecodeFlow.Json.Value
import BytecodeFlow.Metadata.Assembly
import BytecodeFlow.Target.Typ

namespace BytecodeFlow

/-- A type with all its fields, its own ones first, and all its supertypes, the immediate ones
last. -/
structure TypeEntry where
  name : String
  instanceFields : List FieldName
  staticFields : List FieldName
  supers : List String
  methods : List String
  /-- The immediate supertypes. -/
  parents : List String
deriving DecidableEq, Repr

/-- The names of the types from which a type inherits directly, interfaces before the base. -/
def TypeDef.parentNames (definition : TypeDef) : List String :=
  definition.interfaces ++ definition.base.toList

namespace TypeEntry

/-- The qualified fields of a definition, the static or the other ones. -/
def ownFields (definition : TypeDef) (isStatic : Bool) : List FieldName :=
  (definition.fields.filter fun field => field.isStatic == isStatic).map fun field =>
    ⟨qualifiedFieldName definition.name field.name, .ofName field.fieldType⟩

/-- The entry of a definition, given the entries of the types it inherits from directly. -/
def ofDefinition (definition : TypeDef) (parents : List TypeEntry) : TypeEntry :=
  { name := definition.name
    instanceFields := ownFields definition false ++ parents.flatMap instanceFields
    staticFields := ownFields definition true ++ parents.flatMap staticFields
    supers := parents.flatMap supers ++ parents.map name
    methods := definition.methods.map fun method => method.fullName definition.name
    parents := parents.map name }

/-- The text of an entry: a line for its name, one for its supertypes, and one for each member. -/
def text (entry : TypeEntry) : String :=
  let memberLine (kind member : String) : String := "  " ++ kind ++ " " ++ member ++ "\n"
  entry.name ++ "\n" ++
    "  supers: " ++ ", ".intercalate entry.supers ++ "\n" ++
    String.join (entry.instanceFields.map fun field => memberLine "field" field.text) ++
    String.join (entry.staticFields.map fun field => memberLine "static" field.text) ++
    String.join (entry.methods.map (memberLine "method"))

def jsonOfField (field : FieldName) : Json :=
  .object [("name", .string field.name), ("type", .string field.typ.text)]

/-- The layout of a type without its name. -/
def toJson (entry : TypeEntry) : Json :=
  .object [
    ("instance_fields", .array (entry.instanceFields.map jsonOfField)),
    ("static_fields", .array (entry.staticFields.map jsonOfField)),
    ("supers", .array (entry.supers.map .string)),
    ("methods", .array (entry.methods.map .string))]

end TypeEntry

end BytecodeFlow

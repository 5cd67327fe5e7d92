/-
This file lowers a method to a procedure, by `Lowered.ofMethod`. A constructor
first clears the boolean fields of its object (`constructorPrologue`), so that
a flag read before it is set is known to be false; then the `Walk` over the
body builds the rest. The procedure is kept if the walk is complete, and also
if the method disposes of a resource, since the part that was built is still of
use there.
-/

import BytecodeFlow.Graph.Program
import BytecodeFlow.Walk.Run

namespace BytecodeFlow

/-- The procedure of a method, and whether it is to be kept. It is finished only if it is. -/
structure Lowered where
  outcome : Outcome
  procedure : Procedure
  isKept : Bool

namespace Lowered

/-- The signature of the procedure of a method. -/
def signatureOf (declaring : TypeDef) (method : MethodDef) (body : MethodBody) : Signature :=
  let receiver :=
    if method.hasThis then [(thisName, Typ.ofName declaring.name)] else []
  { name := method.fullName declaring.name
    formals := receiver ++ method.parameters.map fun parameter =>
      (parameter.name, .ofName parameter.typeName)
    locals := body.locals.mapIdx fun index typeName => (localName index, .ofName typeName)
    returnType := .ofName method.returnType
    location := ⟨method.firstLine, method.sourceFile.getD ""⟩ }

/-- The boolean instance fields of a type. -/
def flagsOf (declaring : TypeDef) : List FieldRef :=
  (declaring.fields.filter fun field => !field.isStatic && field.fieldType == "System.Boolean").map
    fun field => ⟨declaring.name, field.name, field.fieldType⟩

/-- The commands that clear flags of the receiver. -/
def clearFlags (declaring : TypeDef) (receiver : Ident) (location : Location)
    (flags : List FieldRef) : List Command :=
  .load receiver (.frame thisName) (.ofName declaring.name) location ::
    flags.map fun flag =>
      .store (Operation.fieldAddress (.var receiver) flag) (.int 0) .boolean location

/-- Begin the walk over a constructor with a node that clears the flags of its object. The result
is the node after which the body starts. -/
def constructorPrologue (declaring : TypeDef) (method : MethodDef) (walk : Walk) :
    Walk × NodeIndex :=
  let flags := flagsOf declaring
  if !method.isConstructor || flags.isEmpty then (walk, Procedure.start)
  else
    let node := walk.procedure.nextIndex
    let commands := clearFlags declaring walk.nextIdent walk.location flags
    let procedure := (walk.procedure.addNode
      { Node.empty .statement walk.location with commands }).link Procedure.start node
    (Walk.useIdents { walk with procedure } 1, node)

/-- Lower a method to the next procedure of a program. -/
def ofMethod (program : Program) (declaring : TypeDef) (method : MethodDef) (body : MethodBody)
    (limits : Limits) : Lowered :=
  let routine := Routine.ofBody declaring.name method body
  let walk := Walk.begin (program.begin (signatureOf declaring method body))
  let (walk, entry) := constructorPrologue declaring method walk
  let (walk, outcome) := Walk.run routine limits limits.iterations (walk.seed routine entry)
  let isKept := outcome == .complete || method.isDispose
  { outcome
    procedure := if isKept then walk.procedure.finish else walk.procedure
    isKept }

end Lowered

end BytecodeFlow

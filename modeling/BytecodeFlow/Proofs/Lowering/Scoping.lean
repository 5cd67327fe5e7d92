/-
This file says how far the procedure of a method is well scoped
(`Command.Scoped`). The formals and locals of a procedure are declared from the
signature of the method (`Signature.declared`), while the variables in its
commands come from the walk over the body, from the entries of handlers and
from the prologue of a constructor. Each of them is the return slot or
declared, and what is loaded from or stored to a declared variable has a type
that is declared for it, unless the variable is a parameter that is called like
the return slot: its cell is the return slot. The operand stacks of the walk
hold no addresses at all, so no variable gets into a command by way of them.
-/

import BytecodeFlow.Proofs.Execution.Naming
import BytecodeFlow.Proofs.Lowering.Concatenation
import BytecodeFlow.Proofs.Lowering.IdenticalTops
import BytecodeFlow.Proofs.Walk.Writing

namespace BytecodeFlow

/-! ### Variables -/

/-- The variables whose addresses are in an expression. -/
def Expr.cells : Expr → List Variable
  | .address cell => [cell]
  | .field base _ _ => base.cells
  | .binary _ left right => left.cells ++ right.cells
  | .unary _ operand => operand.cells
  | .thrown value => value.cells
  | .var _ | .const _ | .sizeOf _ => []

/-- The variable of the frame whose address an expression is. -/
def Expr.frame? : Expr → Option String
  | .frame name => some name
  | _ => none

theorem Expr.MemoryFree.cells {expr : Expr} (free : expr.MemoryFree) : expr.cells = [] := by
  induction free with
  | var | const => rfl
  | binary _ _ _ first second => rw [Expr.cells, first, second, List.append_nil]
  | unary _ _ inductionHypothesis => exact inductionHypothesis

namespace Command

/-- The variables whose addresses are in a command, as `Expr.cells` finds them. -/
def cells : Command → List Variable
  | .load _ address _ _ => address.cells
  | .store address value _ _ => address.cells ++ value.cells
  | .prune condition _ _ _ => condition.cells
  | .call _ _ callee arguments _ _ =>
    callee.cells ++ arguments.flatMap fun argument => argument.expr.cells

/-- The variable of the frame that a command itself loads from or stores to, with the type of what
it loads or stores. -/
def access? : Command → Option (String × Typ)
  | .load _ address typ _ | .store address _ typ _ => address.frame?.map fun name => (name, typ)
  | .prune .. | .call .. => none

/-- All variables of the frame in a command are the return slot or declared, and one that is
declared is accessed with a type that is declared for it. -/
structure Scoped (declared : List (String × Typ)) (command : Command) : Prop where
  known : ∀ name, .frame name ∈ command.cells → name = returnName ∨ name ∈ declared.map Prod.fst
  typed : ∀ name typ, command.access? = some (name, typ) → name ∈ declared.map Prod.fst →
    (name, typ) ∈ declared

/-- As `Scoped`, but whatever is called like the return slot is accessed with any type. -/
structure Placed (declared : List (String × Typ)) (command : Command) : Prop where
  known : ∀ name, .frame name ∈ command.cells → name = returnName ∨ name ∈ declared.map Prod.fst
  typed : ∀ name typ, command.access? = some (name, typ) →
    name = returnName ∨ (name, typ) ∈ declared

variable {declared : List (String × Typ)} {command : Command}

/-- Only a declaration that is called like the return slot can keep a command that is `Placed` from
being `Scoped`. -/
theorem Placed.scoped_iff (placed : command.Placed declared) :
    command.Scoped declared ↔ (returnName ∈ declared.map Prod.fst →
      ∀ typ, command.access? = some (returnName, typ) → (returnName, typ) ∈ declared) := by
  constructor
  · exact fun inScope hidden typ accessed => inScope.typed returnName typ accessed hidden
  · intro slot
    refine ⟨placed.known, fun name typ accessed listed => ?_⟩
    rcases placed.typed name typ accessed with rfl | member
    · exact slot listed typ accessed
    · exact member

/-- Without variables there is nothing to declare. -/
theorem Placed.of_cells_nil (bare : command.cells = []) (indirect : command.access? = none) :
    command.Placed declared where
  known name member := by
    rw [bare] at member
    cases member
  typed name typ accessed := by
    rw [indirect] at accessed
    cases accessed

end Command

/-! ### Declared places -/

/-- A place where commands may load and store: a variable with a type that `Signature.declared`
gives it, the return slot, or a field of what is not in the frame. -/
inductive Expr.Declared (declared : List (String × Typ)) : Expr → Typ → Prop
  | listed {name : String} {typ : Typ} (member : (name, typ) ∈ declared) :
    Declared declared (.frame name) typ
  | returnSlot (typ : Typ) : Declared declared .returnSlot typ
  | field {base : Expr} (outside : ∀ name, .frame name ∉ base.cells) (member : FieldName)
    (owner typ : Typ) : Declared declared (.field base member owner) typ

namespace Expr.Declared

variable {declared : List (String × Typ)} {address value : Expr} {typ : Typ} {result : Ident}
  {location : Location}

theorem known (place : Declared declared address typ) {name : String}
    (occurs : .frame name ∈ address.cells) : name = returnName ∨ name ∈ declared.map Prod.fst := by
  cases place with
  | listed member =>
    cases List.mem_singleton.mp occurs
    exact .inr (List.mem_map_of_mem member)
  | returnSlot =>
    cases List.mem_singleton.mp occurs
    exact .inl rfl
  | field outside => exact absurd occurs (outside name)

theorem typed (place : Declared declared address typ) {name : String} {accessedTyp : Typ}
    (accessed : (address.frame?.map fun name => (name, typ)) = some (name, accessedTyp)) :
    name = returnName ∨ (name, accessedTyp) ∈ declared := by
  cases place with
  | listed member =>
    cases accessed
    exact .inr member
  | returnSlot =>
    cases accessed
    exact .inl rfl
  | field => cases accessed

theorem load (place : Declared declared address typ) :
    (Command.load result address typ location).Placed declared where
  known _ occurs := place.known occurs
  typed _ _ accessed := place.typed accessed

theorem store (place : Declared declared address typ) (bare : value.cells = []) :
    (Command.store address value typ location).Placed declared where
  known name occurs := by
    rw [Command.cells, bare, List.append_nil] at occurs
    exact place.known occurs
  typed _ _ accessed := place.typed accessed

end Expr.Declared

/-- The variables that a procedure declares, with their types. -/
def Signature.declared (signature : Signature) : List (String × Typ) :=
  signature.formals ++ signature.locals

namespace Lowered

variable {program : Program} {declaring : TypeDef} {method : MethodDef} {body : MethodBody}
  {limits : Limits} {walk : Walk}

theorem parameter_declared {offset : Offset} {index : Nat} {address : Expr} {typ : Typ}
    (place : (Routine.ofBody declaring.name method body).parameter offset index =
      .ok (address, typ)) :
    address.Declared (signatureOf declaring method body).declared typ := by
  unfold Routine.parameter at place
  split at place
  · rename_i parameter found
    cases place
    refine .listed (List.mem_append_left _ (List.mem_append_right _ ?_))
    exact List.mem_map_of_mem (List.mem_of_getElem? found)
  · cases place

theorem argument_declared {offset : Offset} {index : Nat} {address : Expr} {typ : Typ}
    (place : (Routine.ofBody declaring.name method body).argument offset index =
      .ok (address, typ)) :
    address.Declared (signatureOf declaring method body).declared typ := by
  unfold Routine.argument at place
  split at place
  · rename_i receives
    cases index with
    | zero =>
      cases place
      refine .listed (List.mem_append_left _ (List.mem_append_left _ ?_))
      rw [if_pos (show method.hasThis = true from receives)]
      exact List.mem_cons_self
    | succ index => exact parameter_declared place
  · exact parameter_declared place

theorem localVariable_declared {offset : Offset} {index : Nat} {address : Expr} {typ : Typ}
    (place : (Routine.ofBody declaring.name method body).localVariable offset index =
      .ok (address, typ)) :
    address.Declared (signatureOf declaring method body).declared typ := by
  unfold Routine.localVariable at place
  split at place
  · rename_i typeName found
    cases place
    obtain ⟨within, rfl⟩ := List.getElem?_eq_some_iff.mp found
    exact .listed (List.mem_append_right _ (List.mem_mapIdx.mpr ⟨index, within, rfl⟩))
  · cases place

/-- Every place that a routine `Locates` is `Declared` by the signature of its procedure. -/
theorem locates_declared {address : Expr} {typ : Typ}
    (located : (Routine.ofBody declaring.name method body).Locates address typ) :
    address.Declared (signatureOf declaring method body).declared typ := by
  cases located with
  | argument place => exact argument_declared place
  | localVariable place => exact localVariable_declared place
  | returnSlot => exact .returnSlot typ
  | field free =>
    refine .field (fun name occurs => ?_) _ _ _
    rw [free.cells] at occurs
    cases occurs
  | staticField =>
    refine .field (fun name occurs => ?_) _ _ _
    cases List.mem_singleton.mp occurs

theorem writes_placed {command : Command}
    (writes : (Routine.ofBody declaring.name method body).Writes command) :
    command.Placed (signatureOf declaring method body).declared := by
  cases writes with
  | load located => exact (locates_declared located).load
  | store located free => exact (locates_declared located).store free.cells
  | throw free typ => exact (Expr.Declared.returnSlot typ).store free.cells
  | prune free => exact .of_cells_nil free.cells rfl
  | call passed =>
    refine .of_cells_nil (List.flatMap_eq_nil_iff.mpr fun argument member => ?_) rfl
    rcases passed argument member with free | ⟨typ, size⟩
    · exact free.cells
    · rw [size]
      rfl

/-- What is declared under the name of the return slot is a parameter. -/
theorem returnName_declared_iff :
    returnName ∈ (signatureOf declaring method body).declared.map Prod.fst ↔
      ∃ parameter ∈ method.parameters, parameter.name = returnName := by
  constructor
  · intro member
    obtain ⟨entry, listed, same⟩ := List.mem_map.mp member
    rcases List.mem_append.mp listed with formal | isLocal
    · rcases List.mem_append.mp formal with receiver | mapped
      · split at receiver
        · rw [List.mem_singleton.mp receiver] at same
          have different : thisName ≠ returnName := by decide
          exact absurd same different
        · cases receiver
      · obtain ⟨parameter, passed, rfl⟩ := List.mem_map.mp mapped
        exact ⟨parameter, passed, same⟩
    · obtain ⟨index, within, rfl⟩ := List.mem_mapIdx.mp isLocal
      exact absurd same (localName_ne (by decide))
  · rintro ⟨parameter, passed, same⟩
    have formal : (parameter.name, Typ.ofName parameter.typeName) ∈
        (signatureOf declaring method body).formals :=
      List.mem_append_right _ (List.mem_map_of_mem passed)
    exact same ▸ List.mem_map_of_mem (List.mem_append_left _ formal)

/-! ### Runs -/

/-- The prologue of a constructor clears fields of the receiver. -/
theorem writes_clearFlags (receives : method.hasThis = true) (receiver : Ident)
    (location : Location) :
    ∀ command ∈ clearFlags declaring receiver location (flagsOf declaring),
      (Routine.ofBody declaring.name method body).Writes command := by
  have self : (Routine.ofBody declaring.name method body).argument 0 0 =
      .ok (.frame thisName, .ofName declaring.name) := if_pos receives
  refine List.forall_mem_cons.mpr ⟨.load (.argument self) _ _, fun command member => ?_⟩
  obtain ⟨flag, listed, rfl⟩ := List.mem_map.mp member
  obtain ⟨field, kept, rfl⟩ := List.mem_map.mp listed
  have boolean : field.fieldType = "System.Boolean" :=
    eq_of_beq (Bool.and_eq_true_iff.mp (List.mem_filter.mp kept).2).2
  have located : (Routine.ofBody declaring.name method body).Locates
      (Operation.fieldAddress (.var receiver) ⟨declaring.name, field.name, field.fieldType⟩)
      (.ofName field.fieldType) := .field (.var receiver) _
  have type : Typ.ofName field.fieldType = .boolean := by
    rw [boolean]
    rfl
  rw [type] at located
  exact .store located (.const _) _

theorem seeded_allWritten (constructed : method.isConstructor = true → method.hasThis = true) :
    (seeded program declaring method body).AllWritten
      (Routine.ofBody declaring.name method body) := by
  have begun : Procedure.AllCommands (Routine.ofBody declaring.name method body).Writes
      (program.begin (signatureOf declaring method body)) := .begin _ _ _
  unfold Walk.AllWritten
  rw [procedure_seeded]
  unfold prepared constructorPrologue
  dsimp only
  split
  · exact begun
  · rename_i prologue
    have constructor : method.isConstructor = true := by
      cases kind : method.isConstructor with
      | true => rfl
      | false => exact absurd (by rw [kind]; rfl) prologue
    exact (begun.addNode (writes_clearFlags (constructed constructor) _ _)).link _ _

/-- Wherever a run comes, the values on all stacks are `MemoryFree`. -/
theorem values_memoryFree (occurs : Walk.Occurs (Routine.ofBody declaring.name method body) limits
      (seeded program declaring method body) walk) :
    walk.AllValues fun value => value.expr.MemoryFree := by
  refine Walk.Occurs.keep _ (fun values takesUp => ?_) (fun values waiting => ?_) occurs
    (seeded_allValues _)
  · exact values.takesUp (Routine.pervades_memoryFree _) takesUp
  · exact values.arrive waiting

theorem allWritten_of_reached (constructed : method.isConstructor = true → method.hasThis = true)
    (reached : Walk.Reached (Routine.ofBody declaring.name method body) limits
      (seeded program declaring method body) walk) :
    walk.AllWritten (Routine.ofBody declaring.name method body) := by
  -- A turn writes what the stacks hold, so the two invariants go together.
  have both := reached.keep
    (fun walk => (walk.AllValues fun value => value.expr.MemoryFree) ∧
      walk.AllWritten (Routine.ofBody declaring.name method body))
    (fun holds takesUp => ⟨holds.1.takesUp (Routine.pervades_memoryFree _) takesUp,
      holds.2.takesUp holds.1 takesUp⟩)
    ⟨seeded_allValues _, seeded_allWritten constructed⟩
  exact both.2

/-- Finished or not, the procedure of a method holds only commands that its routine `Writes`. -/
theorem ofMethod_allCommands (program : Program) (declaring : TypeDef) (method : MethodDef)
    (body : MethodBody) (limits : Limits)
    (constructed : method.isConstructor = true → method.hasThis = true) :
    (ofMethod program declaring method body limits).procedure.AllCommands
      (Routine.ofBody declaring.name method body).Writes := by
  obtain ⟨final, ends, procedure⟩ := ofMethod_ends program declaring method body limits
  have written : final.AllWritten (Routine.ofBody declaring.name method body) :=
    allWritten_of_reached constructed ends.reached
  rw [procedure]
  split
  · exact Procedure.AllCommands.finish written
  · exact written

theorem signature_ofMethod (program : Program) (declaring : TypeDef) (method : MethodDef)
    (body : MethodBody) (limits : Limits) :
    (ofMethod program declaring method body limits).procedure.signature =
      signatureOf declaring method body :=
  congrArg Heading.signature (heading_ofMethod program declaring method body limits)

/-- How far the procedure of a method is well scoped, however the lowering of the method ends. Each
variable of the frame in a command is the return slot or declared as a formal or a local, and what
is loaded from or stored to a variable other than the return slot has a type that is declared for it
(`Command.Placed`). So a command is well scoped (`Command.Scoped`), unless a parameter is called
like the return slot and the command accesses this with a type that is not declared for the
parameter. Meanwhile the values on all stacks of the walk, of waiting paths and of recorded blocks
are temporaries and constants under operators (`Expr.MemoryFree`). -/
theorem ofMethod_scoped (program : Program) (declaring : TypeDef) (method : MethodDef)
    (body : MethodBody) (limits : Limits)
    (constructed : method.isConstructor = true → method.hasThis = true) :
    let procedure := (ofMethod program declaring method body limits).procedure
    let declared := procedure.signature.declared
    (∀ index, ∀ command ∈ procedure.commandsOf index, command.Placed declared ∧
      (command.Scoped declared ↔
        ((∃ parameter ∈ method.parameters, parameter.name = returnName) →
          ∀ typ, command.access? = some (returnName, typ) → (returnName, typ) ∈ declared))) ∧
    ∀ walk, Walk.Occurs (Routine.ofBody declaring.name method body) limits
      (seeded program declaring method body) walk →
        walk.AllValues fun value => value.expr.MemoryFree := by
  dsimp only
  rw [signature_ofMethod]
  refine ⟨fun index command member => ?_, fun _ => values_memoryFree⟩
  have placed := writes_placed
    (ofMethod_allCommands program declaring method body limits constructed index command member)
  refine ⟨placed, ?_⟩
  rw [placed.scoped_iff, returnName_declared_iff]

/-- A type with a flag. -/
def valveType : TypeDef := ⟨"Valve", none, [], [⟨"open", "System.Boolean", false⟩], []⟩

/-- Code that copies its argument to a local and catches exceptions meanwhile. -/
def copyingBody : MethodBody where
  locals := ["System.Int32"]
  instructions :=
    [⟨0, "ldarg.1", .none, some 3⟩, ⟨1, "stloc.0", .none, some 3⟩,
      ⟨2, "leave", .target 5, some 4⟩, ⟨3, "pop", .none, some 5⟩, ⟨4, "leave", .target 5, some 5⟩,
      ⟨5, "ret", .none, some 6⟩]
  handlers := [⟨.catch, 0, 3, some 3, some 5, some "System.Exception"⟩]

def copyingConstructor : MethodDef :=
  ⟨".ctor", [⟨"level", "System.Int32"⟩], voidName, false, false, some "Valve.cs", some copyingBody⟩

/-- The prologue of a constructor, its code and its handler access variables of all kinds. No
parameter is called like the return slot, so all commands are well scoped. -/
theorem ofMethod_scoped_constructor :
    let procedure :=
      (ofMethod .empty valveType copyingConstructor copyingBody .standard).procedure
    (List.range 8).flatMap (fun index => (procedure.commandsOf index).filterMap Command.access?) =
        [(thisName, .ofName "Valve"), ("level", .ofName "System.Int32"),
          (localName 0, .ofName "System.Int32"), (returnName, .object), (returnName, .object),
          (returnName, .object)] ∧
      ∀ index, ∀ command ∈ procedure.commandsOf index,
        command.Scoped procedure.signature.declared := by
  have receives : copyingConstructor.isConstructor = true → copyingConstructor.hasThis = true :=
    fun _ => rfl
  have each := (ofMethod_scoped .empty valveType copyingConstructor copyingBody .standard
    receives).1
  have apart : ¬ ∃ parameter ∈ copyingConstructor.parameters, parameter.name = returnName := by
    decide
  exact ⟨by decide +kernel, fun index command member =>
    (each index command member).2.mpr fun called => absurd called apart⟩

/-- Code that returns a number. -/
def numberBody : MethodBody where
  locals := []
  instructions := [⟨0, "ldc.i4.1", .none, some 10⟩, ⟨1, "ret", .none, some 11⟩]
  handlers := []

/-- A method that takes a text under the name of the return slot. -/
def overwritingMethod : MethodDef :=
  ⟨"M", [⟨returnName, "System.String"⟩], "System.Int32", true, false, some "W.cs",
    some numberBody⟩

/-- Where a parameter is called like the return slot, what is returned is stored to the parameter,
with a type that is not the parameter's: the store is not `Command.Scoped`. -/
theorem not_scoped_overwriting :
    let procedure :=
      (ofMethod .empty plainType overwritingMethod numberBody .standard).procedure
    procedure.signature.declared = [(returnName, .ofName "System.String")] ∧
      (procedure.commandsOf 3).map Command.access? = [some (returnName, .ofName "System.Int32")] ∧
      ¬ ∀ index, ∀ command ∈ procedure.commandsOf index,
        command.Scoped procedure.signature.declared := by
  have declared : (ofMethod .empty plainType overwritingMethod numberBody
      .standard).procedure.signature.declared = [(returnName, .ofName "System.String")] := by
    decide +kernel
  have accesses : ((ofMethod .empty plainType overwritingMethod numberBody
      .standard).procedure.commandsOf 3).map Command.access? =
        [some (returnName, .ofName "System.Int32")] := by decide +kernel
  refine ⟨declared, accesses, fun inScope => ?_⟩
  have stores : some (returnName, Typ.ofName "System.Int32") ∈
      ((ofMethod .empty plainType overwritingMethod numberBody
        .standard).procedure.commandsOf 3).map Command.access? := by
    rw [accesses]
    exact List.mem_singleton_self _
  obtain ⟨command, member, accessed⟩ := List.mem_map.mp stores
  have listed := (inScope 3 command member).typed returnName _ accessed
  rw [declared] at listed
  exact absurd (listed List.mem_cons_self) (by decide +kernel)

end Lowered

end BytecodeFlow

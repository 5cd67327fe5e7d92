/-
This file defines the execution of a procedure. `Steps` goes through the
commands of a node one after the other and then along a normal edge, and it
passes a prune only if its condition is true. What is stored in the return slot
is the result, so that an execution that reaches the exit leaves a `Result`.
-/

import Mathlib.Logic.Relation
import BytecodeFlow.Proofs.Execution.Scene
import BytecodeFlow.Proofs.Graph.Building
import BytecodeFlow.Walk.Step

namespace BytecodeFlow

variable {V W : Type}

/-! ### Expressions -/

namespace Expr

variable (interpretation : Interpretation V W) (idents : Ident → V)

/-- The value of an expression. Addresses, sizes and what is thrown are not values. -/
def eval? : Expr → Option V
  | .var ident => some (idents ident)
  | .const value => some (interpretation.constant value)
  | .binary operator left right => do
    return interpretation.binary operator (← left.eval?) (← right.eval?)
  | .unary operator operand => do return interpretation.unary operator (← operand.eval?)
  | .address _ => none
  | .field .. => none
  | .thrown _ => none
  | .sizeOf _ => none

variable {interpretation idents} in
theorem eval?_binary {left right : Expr} {first second : V}
    (leftValue : left.eval? interpretation idents = some first)
    (rightValue : right.eval? interpretation idents = some second) (operator : BinaryOperator) :
    (binary operator left right).eval? interpretation idents =
      some (interpretation.binary operator first second) := by
  rw [eval?, leftValue, rightValue]
  rfl

variable {interpretation idents} in
theorem eval?_unary {operand : Expr} {value : V}
    (evaluates : operand.eval? interpretation idents = some value) (operator : UnaryOperator) :
    (unary operator operand).eval? interpretation idents =
      some (interpretation.unary operator value) := by
  rw [eval?, evaluates]
  rfl

/-- The place on the heap at an address. -/
def place? : Expr → Option (Place V)
  | .field (.address (.statics typeName)) member owner => some (.ofType typeName member owner)
  | .field base member owner => do
    return .ofObject (← base.eval? interpretation idents) member owner
  | _ => none

/-- The result that a value in the return slot stands for. -/
def result? : Expr → Option (Result V)
  | .thrown exception => do return .thrown (← exception.eval? interpretation idents)
  | value => do return .returned (some (← value.eval? interpretation idents))

end Expr

/-! ### Commands -/

/-- What the execution of a procedure works on besides its graph. -/
structure Store (V W : Type) where
  idents : Ident → V
  scene : Scene String V W
  result : Result V

namespace Store

/-- Take a value into a temporary of a `Store`. -/
def assign (store : Store V W) (ident : Ident) (outcome : V × Scene String V W) : Store V W :=
  { store with idents := Function.update store.idents ident outcome.1, scene := outcome.2 }

variable (interpretation : Interpretation V W) (store : Store V W)

/-- The value of an expression. -/
def eval? (expr : Expr) : Option V := expr.eval? interpretation store.idents

/-- Read memory at an address: a variable, or a `Place` on the heap. -/
def load? (address : Expr) : Option (V × Scene String V W) :=
  match address with
  | .address (.frame name) => some (store.scene.read name)
  | address => do
    return store.scene.readField interpretation (← address.place? interpretation store.idents)

/-- Write memory at an address: a variable, the return slot or a `Place` on the heap. -/
def store? (address value : Expr) : Option (Store V W) :=
  match address with
  | .address (.frame name) =>
    if name = returnName then do
      return { store with result := ← value.result? interpretation store.idents }
    else do
      return { store with
        scene := store.scene.write name (← store.eval? interpretation value) }
  | address => do
    let place ← address.place? interpretation store.idents
    return { store with
      scene := store.scene.writeField interpretation place (← store.eval? interpretation value) }

/-- Call a function; one of them allocates objects. -/
def call? (callee : Expr) (arguments : List Value) (isVirtual : Bool) :
    Option (V × Scene String V W) :=
  match callee with
  | .const (.function name) =>
    if name = allocateFunction then
      match arguments with
      | [⟨.sizeOf typ, _⟩] => some (store.scene.allocate interpretation typ)
      | _ => none
    else do
      let values ← arguments.mapM fun argument => store.eval? interpretation argument.expr
      return store.scene.call interpretation name values isVirtual
  | _ => none

/-- Execute a command. -/
def run? : Command → Option (Store V W)
  | .load result address _ _ => do return store.assign result (← store.load? interpretation address)
  | .store address value _ _ => store.store? interpretation address value
  | .prune condition _ _ _ => do
    if interpretation.truth (← store.eval? interpretation condition) then return store else none
  | .call result _ callee arguments isVirtual _ => do
    return store.assign result (← store.call? interpretation callee arguments isVirtual)

end Store

/-! ### Procedures -/

/-- A point of an execution: a node, the number of its commands that are executed, and the
`Store`. -/
structure Point (V W : Type) where
  node : NodeIndex
  position : Nat
  store : Store V W

namespace Procedure

/-- One step of an execution: `run?` a command of the node, or after the last one follow a normal
edge. -/
inductive Step (interpretation : Interpretation V W) (procedure : Procedure) :
    Point V W → Point V W → Prop
  | command {node : NodeIndex} {position : Nat} {before after : Store V W} {command : Command}
    (found : (procedure.commandsOf node)[position]? = some command)
    (runs : before.run? interpretation command = some after) :
    Step interpretation procedure ⟨node, position, before⟩ ⟨node, position + 1, after⟩
  | edge {node target : NodeIndex} {store : Store V W}
    (leads : target ∈ procedure.successorsOf node) :
    Step interpretation procedure ⟨node, (procedure.commandsOf node).length, store⟩
      ⟨target, 0, store⟩

/-- Any number of `Step`s. -/
abbrev Steps (interpretation : Interpretation V W) (procedure : Procedure) :
    Point V W → Point V W → Prop :=
  Relation.ReflTransGen (Step interpretation procedure)

end Procedure

end BytecodeFlow

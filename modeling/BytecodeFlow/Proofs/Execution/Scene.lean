/-
This file says what a method and its procedure share when they are executed:
the meaning of constants and operators, the answers of the heap and of called
methods (`Interpretation`), and the `Scene` on which both act. What is done to
a scene is also kept in its history as a list of `Effect`s, so that two
executions can be compared by what they did.
-/

import Mathlib.Logic.Function.Basic
import BytecodeFlow.Target.Expr

namespace BytecodeFlow

/-- A place on the heap: a field of an object, or a static field of a type. -/
inductive Place (V : Type) where
  | ofObject (object : V) (member : FieldName) (owner : Typ)
  | ofType (typeName : String) (member : FieldName) (owner : Typ)

/-- What constants and operators mean, and how the world answers: it holds the heap, and decides
what allocations and calls give. Negation turns truth around; nothing else is asked of the
meaning. -/
structure Interpretation (V W : Type) where
  constant : Const → V
  unary : UnaryOperator → V → V
  binary : BinaryOperator → V → V → V
  truth : V → Bool
  truth_not : ∀ value, truth (unary .not value) = !truth value
  readField : Place V → W → V × W
  writeField : Place V → V → W → W
  allocate : Typ → W → V × W
  call : (callee : String) → (arguments : List V) → (isVirtual : Bool) → W → V × W

/-- Something that is done to variables, to the heap or by a call, with the values involved. -/
inductive Effect (X V : Type) where
  | readVariable (cell : X) (value : V)
  | writeVariable (cell : X) (value : V)
  | readField (place : Place V) (value : V)
  | writeField (place : Place V) (value : V)
  | allocate (typ : Typ) (object : V)
  | call (callee : String) (arguments : List V) (isVirtual : Bool) (result : V)

/-- The same effect with variables named differently. -/
def Effect.rename {X Y V : Type} (name : X → Y) : Effect X V → Effect Y V
  | .readVariable cell value => .readVariable (name cell) value
  | .writeVariable cell value => .writeVariable (name cell) value
  | .readField place value => .readField place value
  | .writeField place value => .writeField place value
  | .allocate typ object => .allocate typ object
  | .call callee arguments isVirtual result => .call callee arguments isVirtual result

/-- What an execution leaves: a value or none, or an exception. -/
inductive Result (V : Type) where
  | returned (value : Option V)
  | thrown (exception : V)

/-- The variables and the world, with each `Effect` so far. -/
structure Scene (X V W : Type) where
  cells : X → V
  world : W
  history : List (Effect X V)

namespace Scene

variable {X V W : Type}

def read (scene : Scene X V W) (cell : X) : V × Scene X V W :=
  (scene.cells cell, { scene with
    history := scene.history ++ [.readVariable cell (scene.cells cell)] })

def write [DecidableEq X] (scene : Scene X V W) (cell : X) (value : V) : Scene X V W :=
  { scene with
    cells := Function.update scene.cells cell value
    history := scene.history ++ [.writeVariable cell value] }

variable (interpretation : Interpretation V W)

def readField (scene : Scene X V W) (place : Place V) : V × Scene X V W :=
  let (value, world) := interpretation.readField place scene.world
  (value, { scene with world, history := scene.history ++ [.readField place value] })

def writeField (scene : Scene X V W) (place : Place V) (value : V) : Scene X V W :=
  { scene with
    world := interpretation.writeField place value scene.world
    history := scene.history ++ [.writeField place value] }

def allocate (scene : Scene X V W) (typ : Typ) : V × Scene X V W :=
  let (object, world) := interpretation.allocate typ scene.world
  (object, { scene with world, history := scene.history ++ [.allocate typ object] })

def call (scene : Scene X V W) (callee : String) (arguments : List V) (isVirtual : Bool) :
    V × Scene X V W :=
  let (result, world) := interpretation.call callee arguments isVirtual scene.world
  (result, { scene with
    world, history := scene.history ++ [.call callee arguments isVirtual result] })

end Scene

end BytecodeFlow

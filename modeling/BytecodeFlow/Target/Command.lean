/-
This file defines the commands that the nodes of a procedure hold: a `Command`
is a load, a store, a branch condition or a call, each with the `Location` in
the source that it stems from.
-/

import BytecodeFlow.Target.Expr

namespace BytecodeFlow

/-- A source position; the line may be unknown. -/
structure Location where
  line : Option UInt32
  file : String
deriving DecidableEq, Repr

namespace Location

/-- The line as a number, `-1` when it is unknown. -/
def lineNumber (location : Location) : Int :=
  match location.line with
  | some line => line.toNat
  | none => -1

def text (location : Location) : String := "[line " ++ toString location.lineNumber ++ "]"

end Location

/-- The source construct that a branch stems from. -/
inductive BranchKind where
  | conditional
  | whileLoop
  | forLoop
  | doWhileLoop
  | shortCircuit
  | switch
  | boolean
deriving DecidableEq, Repr

def BranchKind.text : BranchKind → String
  | .conditional => "Ik_if"
  | .whileLoop => "Ik_while"
  | .forLoop => "Ik_for"
  | .doWhileLoop => "Ik_dowhile"
  | .shortCircuit => "Ik_land_lor"
  | .switch => "Ik_switch"
  | .boolean => "Ik_bexp"

def booleanText (value : Bool) : String := if value then "true" else "false"

inductive Command where
  /-- Read memory at an address into a temporary. -/
  | load (result : Ident) (address : Expr) (typ : Typ) (location : Location)
  /-- Write a value to memory at an address. -/
  | store (address value : Expr) (typ : Typ) (location : Location)
  /-- Go on only if the condition holds; `branch` says which way of the branch this is. -/
  | prune (condition : Expr) (branch : Bool) (kind : BranchKind) (location : Location)
  /-- Call a function and keep its result in a temporary. -/
  | call (result : Ident) (resultType : Typ) (callee : Expr) (arguments : List Value)
      (isVirtual : Bool) (location : Location)
deriving DecidableEq, Repr

namespace Command

/-- The name of the kind of a command. -/
def kindText : Command → String
  | .load .. => "Load"
  | .store .. => "Store"
  | .prune .. => "Prune"
  | .call .. => "Call"

/-- The text of an argument: the expression and its type. -/
def argumentText (argument : Value) : String := argument.expr.text ++ ":" ++ argument.typ.text

def text : Command → String
  | .load result address typ location =>
    result.text ++ "=*" ++ address.text ++ ":" ++ typ.text ++ " " ++ location.text
  | .store address value typ location =>
    "*" ++ address.text ++ ":" ++ typ.text ++ "=" ++ value.text ++ " " ++ location.text
  | .prune condition branch _ location =>
    "PRUNE(" ++ condition.text ++ ", " ++ booleanText branch ++ "); " ++ location.text
  | .call result resultType callee arguments isVirtual location =>
    result.text ++ ":" ++ resultType.text ++ "=" ++ callee.text ++ "(" ++
      ",".intercalate (arguments.map argumentText) ++ ")" ++
      (if isVirtual then " virtual" else "") ++ " " ++ location.text

end Command

end BytecodeFlow

/-
This file defines the expressions of the target language, `Expr`: temporaries,
constants and operators, together with the addresses of variables and fields,
through which alone memory is reached. An entry of an operand stack is a
`Value`, an expression with its type.
-/

import BytecodeFlow.Number.Decimal
import BytecodeFlow.Target.Typ
import BytecodeFlow.Text.Quoted

namespace BytecodeFlow

/-- A temporary, told apart from others by its stamp. -/
structure Ident where
  stamp : Nat
deriving DecidableEq, Repr

def Ident.text (ident : Ident) : String := "n$" ++ toString ident.stamp

/-- A variable of the procedure's frame, or the variable that holds the static fields of a
type. -/
inductive Variable where
  | frame (name : String)
  | statics (typeName : String)
deriving DecidableEq, Repr

def Variable.text : Variable → String
  | .frame name => name
  | .statics typeName => "#GB<>$" ++ typeName

/-- The variable that takes what a procedure returns or throws. -/
def returnName : String := "return"

/-- The variable of the receiver. -/
def thisName : String := "this"

inductive Const where
  | int (value : Int)
  | float (value : Binary64)
  | string (value : String)
  | null
  | function (name : String)
deriving DecidableEq, Repr

namespace Const

def text : Const → String
  | .int value => toString value
  | .float value => value.text
  | .string value => quoted value
  | .null => "null"
  | .function name => "_fun_" ++ name

/-- Equality of constants, in which the two floating-point zeros are the same. -/
def agrees : Const → Const → Bool
  | .float left, .float right => left.sameValue right
  | left, right => left == right

end Const

inductive BinaryOperator where
  | add
  | subtract
  | multiply
  | divide
  | remainder
  | shiftLeft
  | shiftRight
  | less
  | greater
  | lessOrEqual
  | greaterOrEqual
  | equal
  | notEqual
  | bitAnd
  | bitXor
  | bitOr
deriving DecidableEq, Repr

def BinaryOperator.symbol : BinaryOperator → String
  | .add => "+"
  | .subtract => "-"
  | .multiply => "*"
  | .divide => "/"
  | .remainder => "%"
  | .shiftLeft => "<<"
  | .shiftRight => ">>"
  | .less => "<"
  | .greater => ">"
  | .lessOrEqual => "<="
  | .greaterOrEqual => ">="
  | .equal => "=="
  | .notEqual => "!="
  | .bitAnd => "&"
  | .bitXor => "^"
  | .bitOr => "|"

inductive UnaryOperator where
  | negate
  | bitNot
  | not
deriving DecidableEq, Repr

def UnaryOperator.symbol : UnaryOperator → String
  | .negate => "-"
  | .bitNot => "~"
  | .not => "!"

inductive Expr where
  | var (ident : Ident)
  /-- The address of a variable. -/
  | address (cell : Variable)
  /-- The address of a field of the structure at an address. -/
  | field (base : Expr) (member : FieldName) (owner : Typ)
  | const (value : Const)
  | binary (operator : BinaryOperator) (left right : Expr)
  | unary (operator : UnaryOperator) (operand : Expr)
  /-- A value that is thrown and not returned. -/
  | thrown (value : Expr)
  | sizeOf (typ : Typ)
deriving DecidableEq, Repr

namespace Expr

def int (value : Int) : Expr := .const (.int value)

def null : Expr := .const .null

def function (name : String) : Expr := .const (.function name)

/-- The address of a variable of the frame. -/
def frame (name : String) : Expr := .address (.frame name)

/-- The address of the slot for what is returned or thrown. -/
def returnSlot : Expr := frame returnName

def not (operand : Expr) : Expr := .unary .not operand

/-- The text of an expression. -/
def text : Expr → String
  | .var ident => ident.text
  | .address cell => "&" ++ cell.text
  | .field base member _ => base.text ++ "." ++ member.name
  | .const value => value.text
  | .binary operator left right =>
    "(" ++ left.text ++ " " ++ operator.symbol ++ " " ++ right.text ++ ")"
  | .unary operator operand => operator.symbol ++ operand.text
  | .thrown value => "EXN " ++ value.text
  | .sizeOf typ => "sizeof(t=" ++ typ.text ++ ")"

/-- Equality of expressions up to the sign of floating-point zeros. -/
def agrees : Expr → Expr → Bool
  | .var left, .var right => left == right
  | .address left, .address right => left == right
  | .field leftBase leftMember leftOwner, .field rightBase rightMember rightOwner =>
    leftBase.agrees rightBase && leftMember == rightMember && leftOwner == rightOwner
  | .const left, .const right => left.agrees right
  | .binary leftOperator leftFirst leftSecond, .binary rightOperator rightFirst rightSecond =>
    leftOperator == rightOperator && leftFirst.agrees rightFirst &&
      leftSecond.agrees rightSecond
  | .unary leftOperator left, .unary rightOperator right =>
    leftOperator == rightOperator && left.agrees right
  | .thrown left, .thrown right => left.agrees right
  | .sizeOf left, .sizeOf right => left == right
  | _, _ => false

end Expr

/-- An expression together with its type: an entry of the operand stack, or an argument. -/
structure Value where
  expr : Expr
  typ : Typ
deriving DecidableEq, Repr

/-- Equality of values up to the sign of floating-point zeros. -/
def Value.agrees (left right : Value) : Bool :=
  left.expr.agrees right.expr && left.typ == right.typ

end BytecodeFlow

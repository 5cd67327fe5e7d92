/-
This file names the bytecode operations that are told apart, `Opcode`, and
reads a mnemonic as one of them (`Opcode.parse`). Case does not matter, and the
short and unsigned forms of a mnemonic stand for the plain one
(`baseMnemonic`).
-/

import BytecodeFlow.Target.Expr

namespace BytecodeFlow

/-- A bytecode operation. An index or a constant that is part of the mnemonic is carried along;
otherwise the instruction's operand gives it. -/
inductive Opcode where
  | nop
  | ldarg (index : Option Nat)
  | starg
  | ldloc (index : Option Nat)
  | stloc (index : Option Nat)
  | ldcI4 (value : Option Int64)
  | ldcI8
  | ldcR4
  | ldcR8
  | ldstr
  | ldnull
  | dup
  | pop
  /-- Arithmetic on two operands. -/
  | binary (operator : BinaryOperator)
  /-- A comparison whose result is pushed. -/
  | compare (operator : BinaryOperator)
  | neg
  | not
  | br
  | brtrue
  | brfalse
  /-- A comparison that decides a branch. -/
  | branch (operator : BinaryOperator)
  | switch
  | call
  | callvirt
  | newobj
  | ldfld
  | stfld
  | ldsfld
  | stsfld
  | ret
  | throw
  | leave
  | endfinally
  | unknown
deriving DecidableEq, Repr

namespace Opcode

/-- A text without the given ending, or the text itself when it does not end so. -/
def dropEnding (ending text : List Char) : List Char :=
  if ending.isSuffixOf text then text.take (text.length - ending.length) else text

/-- A mnemonic in lower case, without the marks of the short and the unsigned form. -/
def baseMnemonic (mnemonic : String) : List Char :=
  dropEnding ['.', 'u', 'n'] (dropEnding ['.', 's'] (mnemonic.toList.map Char.toLower))

/-- A decimal number of 64 bits with an optional sign. -/
def signedNumber? (characters : List Char) : Option Int64 :=
  let (negative, digits) :=
    match characters with
    | '-' :: rest => (true, rest)
    | '+' :: rest => (false, rest)
    | rest => (false, rest)
  if digits.isEmpty || !digits.all Char.isDigit then none
  else
    let magnitude : Int :=
      digits.foldl (fun value digit => value * 10 + (digit.toNat - '0'.toNat : Nat)) 0
    let value := if negative then -magnitude else magnitude
    if Int64.minValue.toInt ≤ value ∧ value ≤ Int64.maxValue.toInt then some (Int64.ofInt value)
    else none

/-- The operation that loads the constant written after `ldc.i4.`. -/
def constantMnemonic (base : List Char) : Opcode :=
  if ['l', 'd', 'c', '.', 'i', '4', '.'].isPrefixOf base then
    match signedNumber? (base.drop 7) with
    | some value => .ldcI4 (some value)
    | none => .unknown
  else .unknown

/-- The operation that a mnemonic names. -/
def parse (mnemonic : String) : Opcode :=
  let base := baseMnemonic mnemonic
  match String.ofList base with
  | "nop" => .nop
  | "ldarg" => .ldarg none
  | "ldarg.0" => .ldarg (some 0)
  | "ldarg.1" => .ldarg (some 1)
  | "ldarg.2" => .ldarg (some 2)
  | "ldarg.3" => .ldarg (some 3)
  | "starg" => .starg
  | "ldloc" => .ldloc none
  | "ldloc.0" => .ldloc (some 0)
  | "ldloc.1" => .ldloc (some 1)
  | "ldloc.2" => .ldloc (some 2)
  | "ldloc.3" => .ldloc (some 3)
  | "stloc" => .stloc none
  | "stloc.0" => .stloc (some 0)
  | "stloc.1" => .stloc (some 1)
  | "stloc.2" => .stloc (some 2)
  | "stloc.3" => .stloc (some 3)
  | "ldc.i4" => .ldcI4 none
  | "ldc.i4.m1" => .ldcI4 (some (-1))
  | "ldc.i8" => .ldcI8
  | "ldc.r4" => .ldcR4
  | "ldc.r8" => .ldcR8
  | "ldstr" => .ldstr
  | "ldnull" => .ldnull
  | "dup" => .dup
  | "pop" => .pop
  | "add" => .binary .add
  | "sub" => .binary .subtract
  | "mul" => .binary .multiply
  | "div" => .binary .divide
  | "rem" => .binary .remainder
  | "and" => .binary .bitAnd
  | "or" => .binary .bitOr
  | "xor" => .binary .bitXor
  | "shl" => .binary .shiftLeft
  | "shr" => .binary .shiftRight
  | "ceq" => .compare .equal
  | "cgt" => .compare .greater
  | "clt" => .compare .less
  | "neg" => .neg
  | "not" => .not
  | "br" => .br
  | "brtrue" => .brtrue
  | "brinst" => .brtrue
  | "brfalse" => .brfalse
  | "brnull" => .brfalse
  | "brzero" => .brfalse
  | "beq" => .branch .equal
  | "bne" => .branch .notEqual
  | "blt" => .branch .less
  | "bgt" => .branch .greater
  | "ble" => .branch .lessOrEqual
  | "bge" => .branch .greaterOrEqual
  | "switch" => .switch
  | "call" => .call
  | "callvirt" => .callvirt
  | "newobj" => .newobj
  | "ldfld" => .ldfld
  | "stfld" => .stfld
  | "ldsfld" => .ldsfld
  | "stsfld" => .stsfld
  | "ret" => .ret
  | "throw" => .throw
  | "leave" => .leave
  | "endfinally" => .endfinally
  | _ => constantMnemonic base

/-- Whether control can go on to the next instruction of the stream. -/
def fallsThrough : Opcode → Bool
  | .br => false
  | .ret => false
  | .throw => false
  | .leave => false
  | .endfinally => false
  | _ => true

end Opcode

end BytecodeFlow

/-
This file writes text in double quotes, as it appears in string constants and
graph labels (`quoted`). Quotes, backslashes and the four common controls are
escaped by a letter, every other character that would not show as itself is
written by its number (`hexadecimal`), and the rest stands as it is.
-/

import BytecodeFlow.Text.Hidden

namespace BytecodeFlow

/-- A number in lower-case hexadecimal, without leading zeros. -/
def hexadecimal (value : Nat) : String := String.ofList (Nat.toDigits 16 value)

/-- One character as it stands inside double quotes. -/
def quotedCharacter (character : Char) : String :=
  match character with
  | '\x00' => "\\0"
  | '\t' => "\\t"
  | '\r' => "\\r"
  | '\n' => "\\n"
  | '"' => "\\\""
  | '\\' => "\\\\"
  | _ =>
    if isHidden character then "\\u\x7b" ++ hexadecimal character.toNat ++ "\x7d"
    else character.toString

/-- A text in double quotes. -/
def quoted (text : String) : String :=
  "\"" ++ String.join (text.toList.map quotedCharacter) ++ "\""

end BytecodeFlow

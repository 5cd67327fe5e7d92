/-
This file writes JSON text, on one line (`compact`) or laid out with two blanks
for each level of nesting (`pretty`). A `writtenString` escapes the quote, the
backslash and the controls below the space, and nothing else.
-/

import BytecodeFlow.Json.Value

namespace BytecodeFlow

namespace Json

/-! ### Scalars -/

/-- One character as it stands in a JSON string. -/
def writtenCharacter (character : Char) : String :=
  match character with
  | '"' => "\\\""
  | '\\' => "\\\\"
  | '\x08' => "\\b"
  | '\x0c' => "\\f"
  | '\n' => "\\n"
  | '\r' => "\\r"
  | '\t' => "\\t"
  | _ =>
    if character.toNat < 0x20 then
      "\\u00" ++ String.ofList [Nat.digitChar (character.toNat / 16),
        Nat.digitChar (character.toNat % 16)]
    else character.toString

def writtenString (text : String) : String :=
  "\"" ++ String.join (text.toList.map writtenCharacter) ++ "\""

/-! ### On one line -/

mutual

def compact : Json → String
  | .null => "null"
  | .bool value => if value then "true" else "false"
  | .int value => toString value
  | .float value => value.fractionText
  | .string text => writtenString text
  | .array items => "[" ++ compactItems items ++ "]"
  | .object members => "\x7b" ++ compactMembers members ++ "\x7d"
  | .unreadable => "null"

def compactItems : List Json → String
  | [] => ""
  | [item] => compact item
  | item :: next :: rest => compact item ++ "," ++ compactItems (next :: rest)

def compactMembers : List (String × Json) → String
  | [] => ""
  | [(name, value)] => writtenString name ++ ":" ++ compact value
  | (name, value) :: next :: rest =>
    writtenString name ++ ":" ++ compact value ++ "," ++ compactMembers (next :: rest)

end

/-! ### Laid out -/

/-- The start of a line at a level of nesting. -/
def lineStart (level : Nat) : String := "\n" ++ String.ofList (List.replicate (2 * level) ' ')

mutual

def prettyAt (level : Nat) : Json → String
  | .array [] => "[]"
  | .array (item :: rest) =>
    "[" ++ prettyItems (level + 1) (item :: rest) ++ lineStart level ++ "]"
  | .object [] => "\x7b\x7d"
  | .object (member :: rest) =>
    "\x7b" ++ prettyMembers (level + 1) (member :: rest) ++ lineStart level ++ "\x7d"
  | .null => "null"
  | .bool value => if value then "true" else "false"
  | .int value => toString value
  | .float value => value.fractionText
  | .string text => writtenString text
  | .unreadable => "null"

def prettyItems (level : Nat) : List Json → String
  | [] => ""
  | [item] => lineStart level ++ prettyAt level item
  | item :: next :: rest =>
    lineStart level ++ prettyAt level item ++ "," ++ prettyItems level (next :: rest)

def prettyMembers (level : Nat) : List (String × Json) → String
  | [] => ""
  | [(name, value)] => lineStart level ++ writtenString name ++ ": " ++ prettyAt level value
  | (name, value) :: next :: rest =>
    lineStart level ++ writtenString name ++ ": " ++ prettyAt level value ++ "," ++
      prettyMembers level (next :: rest)

end

/-- The laid-out text of a value. -/
def pretty (json : Json) : String := prettyAt 0 json

end Json

end BytecodeFlow

/-
This file splits a text at a character (`splitText`). Nothing is lost: putting
the character between the parts gives the text back.
-/

namespace BytecodeFlow

/-- The parts of a text between the occurrences of a separator; there is always at least one. -/
def splitText (separator : Char) (text : String) : List String :=
  (text.toList.splitOn separator).map String.ofList

end BytecodeFlow

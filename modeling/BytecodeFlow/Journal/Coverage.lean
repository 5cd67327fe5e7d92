/-
This file computes how much of a program was covered, its `Coverage`. A share
is shown as a whole percentage (`percent`), worked out in double precision.
-/

import BytecodeFlow.Number.Binary64

namespace BytecodeFlow

/-- The largest percentage that is shown. -/
def greatestPercent : Nat := UInt32.size - 1

/-- A share in double precision: a hundred times the part, rounded, by the whole. -/
def hundredfoldShare? (part whole : Nat) : Option Binary64 := do
  let hundred ← Binary64.ofInt? 100
  let hundredfold ← hundred.mul? (← Binary64.ofInt? part)
  hundredfold.div? (← Binary64.ofInt? whole)

/-- The share of a part in a whole as a percentage; a half goes to the even neighbour, and a part
of nothing is zero. -/
def percent (part whole : Nat) : Nat :=
  if whole = 0 then 0
  else
    match hundredfoldShare? part whole with
    | some share => min share.roundMagnitude greatestPercent
    | none => greatestPercent

/-- Methods and instructions covered by a run. -/
structure Coverage where
  completeMethods : Nat
  unfinishedMethods : Nat
  totalMethods : Nat
  coveredInstructions : Nat
  skippedInstructions : Nat
  totalInstructions : Nat
deriving DecidableEq, Repr

namespace Coverage

/-- A count with its share in a whole. -/
def share (label : String) (part whole : Nat) : String :=
  label ++ ": " ++ toString part ++ " (" ++ toString (percent part whole) ++ "%)"

def lines (coverage : Coverage) : List String := [
  "coverage statistics:",
  share "methods successfully translated" coverage.completeMethods coverage.totalMethods,
  share "methods partially translated" coverage.unfinishedMethods coverage.totalMethods,
  share "instructions translated" coverage.coveredInstructions coverage.totalInstructions,
  share "instructions skipped" coverage.skippedInstructions coverage.totalInstructions]

def text (coverage : Coverage) : String := "\n".intercalate coverage.lines

end Coverage

end BytecodeFlow

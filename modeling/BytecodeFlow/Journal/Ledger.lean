/-
This file keeps the books of a run. What happens to the methods is a sequence
of events, and a `Ledger` is what is left of such a sequence (`ofEvents`):
counts, a `Tally` of the instructions nobody knew, and the methods that were
not finished. Ledgers of consecutive sequences can be merged (`Ledger.merge`).
-/

import Std.Data.ExtTreeMap
import BytecodeFlow.Journal.Coverage
import BytecodeFlow.Journal.Message

namespace BytecodeFlow

/-- How often each name was met. -/
abbrev Tally := Std.ExtTreeMap String Nat

namespace Tally

/-- Count a name some more times. -/
def add (tally : Tally) (name : String) (count : Nat) : Tally :=
  tally.insert name (tally.getD name 0 + count)

/-- Count everything in two tallies together. -/
def merge (left right : Tally) : Tally :=
  right.toList.foldl (fun tally (name, count) => tally.add name count) left

/-- The sum of all counts. -/
def sum (tally : Tally) : Nat := tally.foldl (fun sum _ count => sum + count) 0

end Tally

/-- What can happen to methods. -/
inductive Event where
  /-- A method with that many instructions was completed. -/
  | complete (instructions : Nat)
  /-- A method was given up with some of its instructions left. -/
  | unfinished (method : String) (instructions remaining : Nat)
  | unknownInstruction (mnemonic : String)
  | timedOut (count : Nat)
  | skippedDuplicates (count : Nat)
  | skippedWithoutLines (count : Nat)
deriving DecidableEq, Repr

structure Ledger where
  /-- The methods that were given up, with the number of instructions left in them. -/
  unfinished : Std.ExtTreeMap String Nat
  unknownInstructions : Tally
  timedOut : Nat
  skippedDuplicates : Nat
  skippedWithoutLines : Nat
  completeMethods : Nat
  totalInstructions : Nat

namespace Ledger

def empty : Ledger := ⟨∅, ∅, 0, 0, 0, 0, 0⟩

def record (ledger : Ledger) : Event → Ledger
  | .complete instructions =>
    { ledger with
      completeMethods := ledger.completeMethods + 1
      totalInstructions := ledger.totalInstructions + instructions }
  | .unfinished method instructions remaining =>
    { ledger with
      unfinished := ledger.unfinished.insert method remaining
      totalInstructions := ledger.totalInstructions + instructions }
  | .unknownInstruction mnemonic =>
    { ledger with unknownInstructions := ledger.unknownInstructions.add mnemonic 1 }
  | .timedOut count => { ledger with timedOut := ledger.timedOut + count }
  | .skippedDuplicates count =>
    { ledger with skippedDuplicates := ledger.skippedDuplicates + count }
  | .skippedWithoutLines count =>
    { ledger with skippedWithoutLines := ledger.skippedWithoutLines + count }

/-- The ledger of a sequence of events. -/
def ofEvents (events : List Event) : Ledger := events.foldl record empty

/-- The ledger of the events of one ledger and then those of another. Where both know a method as
unfinished, the later one is right. -/
def merge (earlier later : Ledger) : Ledger :=
  { unfinished := earlier.unfinished ∪ later.unfinished
    unknownInstructions := earlier.unknownInstructions.merge later.unknownInstructions
    timedOut := earlier.timedOut + later.timedOut
    skippedDuplicates := earlier.skippedDuplicates + later.skippedDuplicates
    skippedWithoutLines := earlier.skippedWithoutLines + later.skippedWithoutLines
    completeMethods := earlier.completeMethods + later.completeMethods
    totalInstructions := earlier.totalInstructions + later.totalInstructions }

def coverage (ledger : Ledger) : Coverage :=
  let skipped := Tally.sum ledger.unfinished
  { completeMethods := ledger.completeMethods
    unfinishedMethods := ledger.unfinished.size
    totalMethods := ledger.completeMethods + ledger.unfinished.size
    coveredInstructions := ledger.totalInstructions - skipped
    skippedInstructions := skipped
    totalInstructions := ledger.totalInstructions }

/-- The tally of unknown instructions, the rarest first and names in order among equals. -/
def rarestFirst (tally : Tally) : List (String × Nat) :=
  tally.toList.mergeSort fun left right => left.2 ≤ right.2

/-- The closing messages of a run. -/
def report (ledger : Ledger) : List Message :=
  let timeouts :=
    if ledger.timedOut = 0 then []
    else [Message.warn (toString ledger.timedOut ++ " method(s) timed out")]
  let unknown :=
    if ledger.unknownInstructions.isEmpty then []
    else .warn "unknown instructions:" ::
      (rarestFirst ledger.unknownInstructions).map fun (mnemonic, count) =>
        .warn (mnemonic ++ ": " ++ toString count)
  timeouts ++ unknown ++ ledger.coverage.lines.map .info

end Ledger

end BytecodeFlow

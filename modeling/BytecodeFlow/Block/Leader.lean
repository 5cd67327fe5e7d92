/-
This file finds the offsets at which a new block has to start, `blockLeaders`:
the boundaries of protected regions, and the offsets that occur more than once
among the `arrivals` of control. Entering the method is one way to arrive at
its first instruction.
-/

import Std.Data.ExtTreeSet
import BytecodeFlow.Metadata.Assembly

namespace BytecodeFlow

/-- A set of offsets, listed in ascending order. -/
abbrev OffsetSet := Std.ExtTreeSet Offset

/-- The offsets at which control arrives after the instructions of a stream, with
repetitions: the next instruction where one falls through, and every branch target. -/
def arrivalsAfter : List Instruction → List Offset
  | [] => []
  | [last] => last.branchTargets
  | instruction :: next :: rest =>
    (if instruction.fallsThrough then [next.offset] else []) ++ instruction.branchTargets ++
      arrivalsAfter (next :: rest)

/-- All static arrivals, that at the first instruction included. -/
def arrivals (instructions : List Instruction) : List Offset :=
  (instructions.head?.map Instruction.offset).toList ++ arrivalsAfter instructions

/-- The offsets that occur at least twice. -/
def repeatedOffsets (offsets : List Offset) : OffsetSet :=
  (offsets.foldl
    (fun ((seen, repeated) : OffsetSet × OffsetSet) offset =>
      if seen.contains offset then (seen, repeated.insert offset)
      else (seen.insert offset, repeated))
    (∅, ∅)).2

/-- The offsets at which a block starts. -/
def blockLeaders (instructions : List Instruction) (boundaries : List Offset) : OffsetSet :=
  boundaries.foldl (fun leaders boundary => leaders.insert boundary)
    (repeatedOffsets (arrivals instructions))

end BytecodeFlow

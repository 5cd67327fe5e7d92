/-
This file runs a walk until no path is left, or until the method has to be
given up (`Abandonment`): because of its exception regions, because a bound on
the work is exceeded, or because of a single instruction. The bounds are part
of the definition, so every `run` ends: each `turn` uses up one unit of the
budget, and once the budget is spent, in `drain`, no turn queues anything.
-/

import BytecodeFlow.Walk.Step

namespace BytecodeFlow

/-- Bounds on the work for one method. -/
structure Limits where
  /-- How often a single offset may be taken up. -/
  offsetVisits : Nat
  /-- How many waiting paths may be taken up. -/
  iterations : Nat
deriving DecidableEq, Repr

def Limits.standard : Limits := ⟨1000, 100000⟩

/-- Why a method was given up. -/
inductive Abandonment where
  | unsupportedRegions
  | unhandledRegions
  | timeout
  | unknownInstruction (mnemonic : String)
  | internal (fault : Fault)
deriving DecidableEq, Repr

def Abandonment.message : Abandonment → String
  | .unsupportedRegions => "unsupported exception region layout"
  | .unhandledRegions => "unhandled exception region"
  | .timeout => "timed out"
  | .unknownInstruction mnemonic => "unknown instruction " ++ mnemonic
  | .internal fault => "internal error: " ++ fault.message

inductive Outcome where
  | complete
  /-- Given up, with the number of instructions that are left. -/
  | abandoned (reason : Abandonment) (remaining : Nat)
deriving DecidableEq, Repr

namespace Walk

/-- Why an offset is not walked over, if it is not: the layout of the regions comes first, then
regions that cannot be handled, then the bounds. -/
def refusal? (routine : Routine) (limits : Limits) (visits : Nat) (overdue : Bool) :
    Option Abandonment :=
  if !routine.regions.valid then some .unsupportedRegions
  else if routine.regions.unhandled then some .unhandledRegions
  else if limits.offsetVisits < visits || overdue then some .timeout
  else none

/-- Walk over the instruction at an offset. -/
def stepAt (walk : Walk) (routine : Routine) (offset : Offset) : Walk × Option Outcome :=
  match routine.instructionAt? offset with
  | none =>
    (walk, some (.abandoned (.internal (.offsetNotFound offset)) routine.instructions.size))
  | some instruction =>
    match (walk.setLocation routine instruction).step routine instruction with
    | (walk, .done) => (walk, none)
    | (walk, .unknown) =>
      (walk, some (.abandoned (.unknownInstruction instruction.mnemonic)
        (routine.remaining offset)))
    | (walk, .failed fault) =>
      (walk, some (.abandoned (.internal fault) routine.instructions.size))

/-- Take up a waiting path: share a node that is there already, or walk over one instruction. An
outcome ends the run. -/
def turn (walk : Walk) (routine : Routine) (limits : Limits) (overdue : Bool)
    (pending : Pending) : Walk × Option Outcome :=
  let walk := (walk.resume pending).visit pending.offset
  match walk.reusableNode? routine with
  | some node => (walk.linkPrevious node, none)
  | none =>
    match refusal? routine limits (walk.visitsOf pending.offset) overdue with
    | some reason => (walk, some (.abandoned reason (routine.remaining pending.offset)))
    | none => walk.stepAt routine pending.offset

/-- Take up the waiting paths after the budget is spent: only nodes that are there already can
still be shared. -/
def drain (routine : Routine) (limits : Limits) : (waiting : List Pending) → Walk → Walk × Outcome
  | [], walk => (walk, .complete)
  | pending :: rest, walk =>
    match { walk with worklist := rest }.turn routine limits true pending with
    | (walk, none) => drain routine limits rest walk
    | (walk, some outcome) => (walk, outcome)

/-- Take up waiting paths until none is left or the run ends. -/
def run (routine : Routine) (limits : Limits) : (budget : Nat) → Walk → Walk × Outcome
  | 0, walk => drain routine limits walk.worklist walk
  | budget + 1, walk =>
    match walk.worklist with
    | [] => (walk, .complete)
    | pending :: rest =>
      match { walk with worklist := rest }.turn routine limits false pending with
      | (walk, none) => run routine limits budget walk
      | (walk, some outcome) => (walk, outcome)

end Walk

end BytecodeFlow

/-
This file deals with the methods of a program one after the other. Each method
with a body is a `Candidate`, which is either skipped or lowered: only the
first method of a name is considered, and only if it has line information. What
became of a method, its `Treatment`, decides what is entered in the books and
what is said about it.
-/

import Std.Data.ExtTreeSet
import BytecodeFlow.Journal.Ledger
import BytecodeFlow.Lowering.Method

namespace BytecodeFlow

/-- A method with a body, and the type that declares it. -/
structure Candidate where
  declaring : TypeDef
  method : MethodDef
  body : MethodBody
deriving DecidableEq, Repr

namespace Candidate

def name (candidate : Candidate) : String := candidate.method.fullName candidate.declaring.name

def instructionCount (candidate : Candidate) : Nat := candidate.body.instructions.length

/-- The methods of a type that can be lowered. -/
def ofType (declaring : TypeDef) : List Candidate :=
  declaring.methods.filterMap fun method =>
    if method.isAbstract then none else method.body.map (⟨declaring, method, ·⟩)

/-- The methods of an assembly that can be lowered, in the order of their declaration. -/
def ofAssembly (assembly : Assembly) : List Candidate := assembly.types.flatMap ofType

end Candidate

/-- What became of a method. -/
inductive Treatment where
  | duplicate
  | withoutLines
  | lowered (result : Lowered)

namespace Treatment

/-- The name in the tally for regions of a kind that cannot be handled. -/
def unhandledName : String := "unhandled-exception"

/-- What a reason for giving up adds to the books. -/
def eventsOfReason : Abandonment → List Event
  | .timeout => [.timedOut 1]
  | .unknownInstruction mnemonic => [.unknownInstruction mnemonic]
  | .unhandledRegions => [.unknownInstruction unhandledName]
  | .unsupportedRegions => []
  | .internal _ => []

/-- What is entered in the books for a method. -/
def events (candidate : Candidate) : Treatment → List Event
  | .duplicate => [.skippedDuplicates 1]
  | .withoutLines => [.skippedWithoutLines 1]
  | .lowered result =>
    match result.outcome with
    | .complete => [.complete candidate.instructionCount]
    | .abandoned reason remaining =>
      .unfinished candidate.name candidate.instructionCount remaining :: eventsOfReason reason

/-- What is said about a method. An unsupported layout of its regions is noticed first. -/
def messages (candidate : Candidate) : Treatment → List Message
  | .duplicate => [.warn ("skipping duplicate method " ++ candidate.name)]
  | .withoutLines => [.warn ("skipping " ++ candidate.name ++ ": no line information")]
  | .lowered result =>
    match result.outcome with
    | .complete => [.debug ("translated " ++ candidate.name)]
    | .abandoned reason remaining =>
      (if reason = .unsupportedRegions then [.debug reason.message] else []) ++
        [.warn ("abandoned translation of " ++ candidate.name ++ ": " ++ reason.message ++ " (" ++
          toString remaining ++ " instruction(s) left)")]

/-- The procedure that is kept of a method. -/
def procedure? : Treatment → Option Procedure
  | .lowered result => if result.isKept then some result.procedure else none
  | _ => none

end Treatment

/-- The program built so far, and the names of the methods met so far. -/
structure Progress where
  program : Program
  met : Std.ExtTreeSet String

namespace Progress

def start : Progress := ⟨.empty, ∅⟩

/-- Decide what becomes of a method. -/
def treat (progress : Progress) (limits : Limits) (candidate : Candidate) : Treatment :=
  if progress.met.contains candidate.name then .duplicate
  else if candidate.method.firstLine.isNone then .withoutLines
  else .lowered (.ofMethod progress.program candidate.declaring candidate.method candidate.body
    limits)

/-- Remember a method, and take in what is kept of it. -/
def advance (progress : Progress) (candidate : Candidate) (treatment : Treatment) : Progress :=
  { program :=
      match treatment.procedure? with
      | some procedure => progress.program.commit procedure
      | none => progress.program
    met := progress.met.insert candidate.name }

/-- Deal with a list of methods in turn. -/
def treatAll (limits : Limits) : Progress → List Candidate → List (Candidate × Treatment) × Progress
  | progress, [] => ([], progress)
  | progress, candidate :: rest =>
    let treatment := progress.treat limits candidate
    let (treatments, progress) := treatAll limits (progress.advance candidate treatment) rest
    ((candidate, treatment) :: treatments, progress)

end Progress

end BytecodeFlow

/-
This file lowers assemblies to one program, a `Build`. The books are kept for
each assembly by itself (`ledgerOf`) and then merged; the program and the names
already met, the `Progress`, are carried on from one assembly to the next.
-/

import BytecodeFlow.Lowering.Treatment

namespace BytecodeFlow

/-- A program with the books of how it came about. -/
structure Build where
  program : Program
  ledger : Ledger
  messages : List Message

namespace Build

/-- The books of the methods of an assembly. -/
def ledgerOf (treatments : List (Candidate × Treatment)) : Ledger :=
  .ofEvents (treatments.flatMap fun (candidate, treatment) => treatment.events candidate)

/-- What is said about the methods of an assembly, and then about the assembly. -/
def messagesOf (assembly : Assembly) (treatments : List (Candidate × Treatment)) : List Message :=
  let ledger := ledgerOf treatments
  (treatments.flatMap fun (candidate, treatment) => treatment.messages candidate) ++
    [.debug (assembly.name ++ ": " ++ toString ledger.completeMethods ++
      " method(s) translated, " ++ toString ledger.unfinished.size ++ " abandoned")]

/-- Lower assemblies in turn, after what was done so far. -/
def continueWith (limits : Limits) : Progress → Ledger → List Assembly → Build
  | progress, ledger, [] => ⟨progress.program, ledger, []⟩
  | progress, ledger, assembly :: rest =>
    let (treatments, progress) := progress.treatAll limits (Candidate.ofAssembly assembly)
    let build := continueWith limits progress (ledger.merge (ledgerOf treatments)) rest
    { build with messages := messagesOf assembly treatments ++ build.messages }

def ofAssemblies (assemblies : List Assembly) (limits : Limits) : Build :=
  continueWith limits .start .empty assemblies

end Build

end BytecodeFlow

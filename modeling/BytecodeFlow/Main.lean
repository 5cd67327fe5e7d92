/-
This file is the program itself: it reads the files that the command line
names, carries out the plan on the disk, and shows the messages on the error
stream. Directories are not listed here, so one that is named stops the program;
what a scan makes of a directory is in `Scan.ofEntry`.
-/

import BytecodeFlow.Archive.Content
import BytecodeFlow.CommandLine.Plan

namespace BytecodeFlow.Main

def usage : String :=
  "usage: bytecodeflow [--quiet | --verbose] translate --input PATH [--reference PATH]...\n" ++
  "           [--cfg PATH] [--tenv PATH] [--dot PATH] [--tenv-dot PATH] [--text PATH]\n" ++
  "           [--max-offset-visits N] [--max-iterations N] [--timing]\n" ++
  "       bytecodeflow [--quiet | --verbose] print [--procs NAMES] FILE..."

/-- The file at a path of the disk. A file that cannot be read counts as one that holds no text, and
a directory is refused. -/
def readTree (path : String) : IO (Option FileTree) := do
  try return some (.file (.ofBytes (← IO.FS.readBinFile path)))
  catch
    | .noFileOrDirectory .. => return none
    | .inappropriateType .. => throw (.userError ("cannot list the directory " ++ path))
    | _ => return some (.file .binary)

/-- Write an output. -/
def write (output : Output) : IO (Option RunError) := do
  if Path.isStandardOutput output.path then
    (← IO.getStdout).putStr output.text
    return none
  else
    try
      IO.FS.writeFile output.path output.text
      return none
    catch _ => return some (.cannotOpen output.path)

/-- Write outputs up to the first that cannot be written. -/
def writeAll : List Output → IO (Option RunError)
  | [] => return none
  | output :: rest => do
    match ← write output with
    | some error => return some error
    | none => writeAll rest

def say (severity : Severity) (messages : List Message) : IO Unit :=
  (shownLines (some severity) messages).forM fun line => IO.eprintln line

/-- Do what the command line asks for. -/
def run (invocation : Invocation) : IO UInt32 := do
  let started ← IO.monoMsNow
  let trees ← invocation.subcommand.paths.mapM fun path => do return (path, ← readTree path)
  let plan := Plan.ofSubcommand (fun path => (trees.lookup path).join) invocation.subcommand
  say invocation.severity plan.messages
  match (← writeAll plan.outputs).or plan.failure with
  | some error =>
    IO.eprintln ("Error: " ++ error.message)
    return 1
  | none =>
    let elapsed := (← IO.monoMsNow) - started
    say invocation.severity
      (plan.timing.map fun timing => timing.message (toString elapsed)).toList
    return 0

end BytecodeFlow.Main

open BytecodeFlow in
def main (arguments : List String) : IO UInt32 := do
  match Invocation.read arguments with
  | .ok invocation =>
    try Main.run invocation
    catch error =>
      IO.eprintln ("Error: " ++ toString error)
      return 1
  | .error .helpRequested =>
    IO.println Main.usage
    return 0
  | .error .versionRequested =>
    IO.println "bytecodeflow 0.4.0"
    return 0
  | .error error =>
    IO.eprintln ("error: " ++ error.message ++ "\n" ++ Main.usage)
    return 2

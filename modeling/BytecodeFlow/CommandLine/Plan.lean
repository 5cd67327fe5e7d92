/-
This file says what a run of the program does, short of doing it. A `Plan` is
made from what is found at the paths of the command line; it lists what is to
be said and written, in order, and how the run ends. It can be carried out on a
`FileSystem` in memory, as a `Performance`, or on a disk by whoever has one.
-/

import BytecodeFlow.CommandLine.Invocation
import BytecodeFlow.Files.Scan
import BytecodeFlow.Graph.Saved
import BytecodeFlow.Json.Writer
import BytecodeFlow.Session

namespace BytecodeFlow

/-- Why a run fails. -/
inductive RunError where
  | inputNotFound (path : String)
  | referenceNotFound (path : String)
  | scan (error : ScanError)
  | stage (error : StageError)
  | cannotOpen (path : String)
  | unreadable (path : String)
  | notSaved (path : String)
deriving DecidableEq, Repr

def RunError.message : RunError → String
  | .inputNotFound path => "input not found: " ++ path
  | .referenceNotFound path => "reference not found: " ++ path
  | .scan error => error.message
  | .stage error => error.message
  | .cannotOpen path => "failed to open " ++ path
  | .unreadable path => "failed to read " ++ path
  | .notSaved path => path ++ " is not a saved CFG"

structure Output where
  path : String
  text : String
deriving DecidableEq, Repr

/-- The size of what was worked on. -/
structure Timing where
  types : Nat
  procedures : Nat
  nodes : Nat
deriving DecidableEq, Repr

/-- The size of the work with the time that it took. -/
def Timing.message (timing : Timing) (milliseconds : String) : Message :=
  .info ("timing: total_ms=" ++ milliseconds ++ " types=" ++ toString timing.types ++
    " procedures=" ++ toString timing.procedures ++ " nodes=" ++ toString timing.nodes)

/-- What a run says and writes. A failure comes after the outputs, and the timing is said at the
very end. -/
structure Plan where
  messages : List Message
  outputs : List Output
  failure : Option RunError
  timing : Option Timing

namespace Plan

def fail (messages : List Message) (error : RunError) : Plan := ⟨messages, [], some error, none⟩

/-! ### Lowering -/

/-- The first path at which nothing is found. -/
def missing? (find : Lookup) (options : LowerOptions) : Option RunError :=
  if (find options.input).isNone then some (.inputNotFound options.input)
  else (options.references.find? fun path => (find path).isNone).map .referenceNotFound

/-- What is written of the results, the optional parts only where a path is given. -/
def outputsOf (options : LowerOptions) (results : Results) : List Output :=
  let optional (path : Option String) (text : String) : List Output :=
    (path.map fun path => Output.mk path text).toList
  [⟨options.programPath, results.program.toJson.pretty ++ "\n"⟩,
    ⟨options.typesPath, results.types.toJson.pretty ++ "\n"⟩] ++
    optional options.programDrawing results.program.toDot ++
    optional options.typesDrawing results.types.toDot ++
    optional options.textPath (results.program.text ++ results.types.text)

/-- Lower what is found at the paths. -/
def lower (find : Lookup) (options : LowerOptions) : Plan :=
  match missing? find options with
  | some error => fail [] error
  | none =>
    let scan := scanSources find options.input options.references
    match scan.sources with
    | .error error => fail scan.messages (.scan error)
    | .ok sources =>
      match Session.complete options.limits sources with
      | .error error => fail scan.messages (.stage error)
      | .ok (results, messages) =>
        { messages := scan.messages ++ messages
          outputs := outputsOf options results
          failure := none
          timing :=
            if options.showTiming then
              some ⟨scan.typeCount, results.program.procedureCount, results.program.nodeCount⟩
            else none }

/-! ### Printing -/

/-- What is printed of saved programs. -/
structure Printed where
  text : String
  messages : List Message
  failure : Option RunError

/-- The procedures that are asked for of a saved program, each followed by an empty line. -/
def printProgram (path : String) (names : List String) (program : SavedProgram) :
    String × List Message :=
  let selected := program.select names
  (String.join (selected.map fun procedure => procedure.text ++ "\n"),
    if selected.isEmpty then [.warn ("no matching procedure in " ++ path)] else [])

/-- The saved program at a path. -/
def savedAt (find : Lookup) (path : String) : Except RunError SavedProgram :=
  match find path with
  | some (.file content) =>
    match (content.text?.bind Json.parse?).bind SavedProgram.decode with
    | some program => .ok program
    | none => .error (.notSaved path)
  | _ => .error (.unreadable path)

/-- Print from files in turn, until one cannot be read. -/
def printFiles (find : Lookup) (names : List String) : List String → Printed
  | [] => ⟨"", [], none⟩
  | path :: rest =>
    match savedAt find path with
    | .error error => ⟨"", [], some error⟩
    | .ok program =>
      let (text, messages) := printProgram path names program
      let later := printFiles find names rest
      { later with text := text ++ later.text, messages := messages ++ later.messages }

def print (find : Lookup) (names files : List String) : Plan :=
  let printed := printFiles find names files
  ⟨printed.messages, [⟨"-", printed.text⟩], printed.failure, none⟩

/-! ### Running -/

/-- The plan of a subcommand. -/
def ofSubcommand (find : Lookup) : Subcommand → Plan
  | .lower options => lower find options
  | .print names files => print find names files

end Plan

/-- What a run has done to a file system. -/
structure Performance where
  system : FileSystem
  standardOutput : String
  failure : Option RunError

namespace Performance

/-- Write an output, unless a run has failed. -/
def write (performance : Performance) (output : Output) : Performance :=
  if performance.failure.isSome then performance
  else if Path.isStandardOutput output.path then
    { performance with standardOutput := performance.standardOutput ++ output.text }
  else
    match performance.system.create? output.path (.text output.text) with
    | some system => { performance with system }
    | none => { performance with failure := some (.cannotOpen output.path) }

/-- Carry out a plan on a file system. -/
def ofPlan (system : FileSystem) (plan : Plan) : Performance :=
  let written := plan.outputs.foldl write ⟨system, "", none⟩
  { written with failure := written.failure.or plan.failure }

/-- What was said, with the given text for the time that the run took. The timing is said only if
nothing failed. -/
def messages (performance : Performance) (plan : Plan) (milliseconds : String) : List Message :=
  let closing :=
    if performance.failure.isSome then none
    else plan.timing.map fun timing => timing.message milliseconds
  plan.messages ++ closing.toList

end Performance

end BytecodeFlow

/-
This file reads the command line as an `Invocation`. There are two subcommands,
one that lowers assemblies (`readLower`) and one that prints saved programs
(`readPrint`), and two flags that choose how much is said; these may stand
before or after the subcommand.
-/

import BytecodeFlow.CommandLine.Option
import BytecodeFlow.Journal.Message
import BytecodeFlow.Walk.Run

namespace BytecodeFlow

/-- What to lower and where to write the results. -/
structure LowerOptions where
  input : String
  references : List String
  programPath : String
  typesPath : String
  programDrawing : Option String
  typesDrawing : Option String
  textPath : Option String
  limits : Limits
  showTiming : Bool
deriving DecidableEq, Repr

inductive Subcommand where
  | lower (options : LowerOptions)
  | print (names : List String) (files : List String)
deriving DecidableEq, Repr

/-- The paths that a subcommand reads from. -/
def Subcommand.paths : Subcommand → List String
  | .lower options => options.input :: options.references
  | .print _ files => files

structure Invocation where
  subcommand : Subcommand
  quiet : Bool
  verbose : Bool
deriving DecidableEq, Repr

/-- How much is said. The quiet flag wins. -/
def Invocation.severity (invocation : Invocation) : Severity :=
  if invocation.quiet then .error
  else if invocation.verbose then .debug
  else .info

/-! ### Grammars -/

namespace OptionSpec

def flag (name : String) : OptionSpec := ⟨name, .flag, none, false⟩

def path (name : String) : OptionSpec := ⟨name, .path, none, false⟩

def number (name : String) : OptionSpec := ⟨name, .number, none, false⟩

def help : OptionSpec := ⟨"help", .help, some 'h', false⟩

def version : OptionSpec := ⟨"version", .version, some 'V', false⟩

end OptionSpec

namespace Grammar

/-- The options that are understood everywhere. -/
def everywhere : List OptionSpec := [.flag "quiet", .flag "verbose", .help]

/-- What may stand before the subcommand. -/
def top : Grammar := ⟨.version :: everywhere, false⟩

def lower : Grammar :=
  { options := everywhere ++ [
      .path "input",
      { OptionSpec.path "reference" with mayRepeat := true },
      .path "cfg",
      .path "tenv",
      .path "dot",
      .path "tenv-dot",
      .path "text",
      .number "max-offset-visits",
      .number "max-iterations",
      .flag "timing"]
    takesFiles := false }

def print : Grammar := ⟨everywhere ++ [⟨"procs", .names, none, true⟩], true⟩

end Grammar

/-! ### Subcommands -/

/-- The names that are understood as subcommands. -/
def subcommandNames : List String := ["translate", "print", "help"]

/-- Both flags may not be given together. -/
def Reading.checkFlags (reading : Reading) : Except UsageError Unit :=
  if reading.isSet "quiet" && reading.isSet "verbose" then .error .conflict else .ok ()

def readLower (reading : Reading) : Except UsageError Subcommand :=
  match reading.path? "input" with
  | none => .error .missingRequired
  | some input => .ok (.lower
    { input
      references := reading.paths "reference"
      programPath := (reading.path? "cfg").getD "cfg.json"
      typesPath := (reading.path? "tenv").getD "tenv.json"
      programDrawing := reading.path? "dot"
      typesDrawing := reading.path? "tenv-dot"
      textPath := reading.path? "text"
      limits :=
        { offsetVisits :=
            (reading.number? "max-offset-visits").getD Limits.standard.offsetVisits
          iterations := (reading.number? "max-iterations").getD Limits.standard.iterations }
      showTiming := reading.isSet "timing" })

def readPrint (reading : Reading) : Except UsageError Subcommand :=
  if reading.files.isEmpty then .error .missingRequired
  else .ok (.print (reading.names "procs") reading.files)

/-- What follows `help` are names of subcommands. -/
def readHelp : List String → UsageError
  | [] => .helpRequested
  | [name] => if subcommandNames.contains name then .helpRequested else .unknownSubcommand
  | _ => .unknownSubcommand

namespace Invocation

/-- Read a subcommand with its arguments, after the flags that stand before it. -/
def readSubcommand (top : Reading) (grammar : Grammar)
    (build : Reading → Except UsageError Subcommand) (arguments : List String) :
    Except UsageError Invocation := do
  let reading ← Reading.start.read grammar arguments
  reading.checkFlags
  let subcommand ← build reading
  top.checkFlags
  return {
    subcommand
    quiet := top.isSet "quiet" || reading.isSet "quiet"
    verbose := top.isSet "verbose" || reading.isSet "verbose" }

/-- Without a subcommand nothing can be done. -/
def withoutSubcommand (top : Reading) : UsageError :=
  if top.settings.isEmpty then .noArguments else .missingSubcommand

/-- A subcommand cannot be given where options have been ruled out. -/
def afterEscape (top : Reading) : List String → UsageError
  | [] => withoutSubcommand top
  | argument :: _ =>
    if subcommandNames.contains argument then .unknownArgument else .unknownSubcommand

def readFrom : (top : Reading) → List String → Except UsageError Invocation
  | top, [] => .error (withoutSubcommand top)
  | top, argument :: rest =>
    match Token.ofArgument argument with
    | .escape => .error (afterEscape top rest)
    | .long name attached => do readFrom (← top.takeLong .top name attached) rest
    | .short letter => do readFrom (← top.takeShort .top letter) rest
    | .value =>
      match argument with
      | "translate" => readSubcommand top .lower readLower rest
      | "print" => readSubcommand top .print readPrint rest
      | "help" => .error (readHelp rest)
      | _ => .error .unknownSubcommand

/-- Read the arguments of the program. -/
def read (arguments : List String) : Except UsageError Invocation := readFrom .start arguments

end Invocation

end BytecodeFlow

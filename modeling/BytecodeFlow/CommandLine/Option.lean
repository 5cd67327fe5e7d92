/-
This file reads options and files from a list of arguments, by a `Grammar` that
lists the options. `Reading.settle` settles an option only when the next one
begins or the arguments end: until then its value may still come, and a mistake
in it is not yet a `UsageError`. So an unknown argument is reported ahead of a
mistake in the option before it.
-/

import BytecodeFlow.Text.Split

namespace BytecodeFlow

/-- Why arguments are refused. Asking for help or for the version also ends the reading. -/
inductive UsageError where
  | noArguments
  | missingSubcommand
  | unknownSubcommand
  | unknownArgument
  | missingRequired
  /-- A value is missing or empty. -/
  | invalidValue
  | invalidNumber
  /-- A flag takes no value. -/
  | unexpectedValue
  | conflict
  | helpRequested
  | versionRequested
deriving DecidableEq, Repr

def UsageError.message : UsageError → String
  | .noArguments | .missingSubcommand => "a subcommand is required"
  | .unknownSubcommand => "unrecognized subcommand"
  | .unknownArgument => "unexpected argument"
  | .missingRequired => "a required argument was not provided"
  | .invalidValue => "a value is required"
  | .invalidNumber => "invalid number"
  | .unexpectedValue => "unexpected value for a flag"
  | .conflict => "arguments cannot be used together"
  | .helpRequested => "help"
  | .versionRequested => "version"

/-- The shape of an argument. -/
inductive Token where
  /-- From here on there are no options. -/
  | escape
  | long (name : String) (attached : Option String)
  | short (letter : Char)
  | value
deriving DecidableEq, Repr

def Token.ofArgument (argument : String) : Token :=
  match argument.toList with
  | ['-', '-'] => .escape
  | '-' :: '-' :: body =>
    let (name, attached) := body.span (· ≠ '=')
    .long (String.ofList name) (attached.tail?.map String.ofList)
  | '-' :: letter :: _ => .short letter
  | _ => .value

/-! ### Options -/

/-- What an option takes. -/
inductive OptionForm where
  | flag
  | help
  | version
  | path
  | number
  /-- Names with commas between them. -/
  | names
deriving DecidableEq, Repr

namespace OptionForm

def takesValue : OptionForm → Bool
  | .path | .number | .names => true
  | .flag | .help | .version => false

end OptionForm

structure OptionSpec where
  name : String
  form : OptionForm
  letter : Option Char
  mayRepeat : Bool
deriving DecidableEq, Repr

/-- What an option was set to. -/
inductive Setting where
  | on
  | path (path : String)
  | number (value : Nat)
  | names (names : List String)
deriving DecidableEq, Repr

/-- An unsigned number of 64 bits, with or without a plus. -/
def unsignedNumber? (text : String) : Option Nat :=
  let digits :=
    match text.toList with
    | '+' :: digits => digits
    | digits => digits
  if digits.isEmpty || !digits.all Char.isDigit then none
  else
    let value := digits.foldl (fun value digit => 10 * value + (digit.toNat - '0'.toNat)) 0
    if value < UInt64.size then some value else none

/-- The setting that a value gives. -/
def OptionForm.read (form : OptionForm) (value : String) : Except UsageError Setting :=
  match form with
  | .flag | .help | .version => .ok .on
  | .path => if value.isEmpty then .error .invalidValue else .ok (.path value)
  | .number =>
    match unsignedNumber? value with
    | some quantity => .ok (.number quantity)
    | none => .error .invalidNumber
  | .names => .ok (.names (splitText ',' value))

/-! ### Reading -/

/-- What may follow a subcommand. -/
structure Grammar where
  options : List OptionSpec
  takesFiles : Bool

/-- What is still open. -/
inductive Unsettled where
  | nothing
  | awaiting (option : OptionSpec)
  | valued (option : OptionSpec) (value : String)
  | files (paths : List String)
deriving DecidableEq, Repr

/-- The settings made so far, in their order, and what is still open. -/
structure Reading where
  settings : List (String × Setting)
  files : List String
  unsettled : Unsettled
deriving DecidableEq, Repr

namespace Reading

def start : Reading := ⟨[], [], .nothing⟩

def isSet (reading : Reading) (name : String) : Bool := (reading.settings.lookup name).isSome

/-- Set an option, which can be done once unless it may be repeated. -/
def set (reading : Reading) (option : OptionSpec) (value : String) : Except UsageError Reading := do
  if reading.isSet option.name && !option.mayRepeat then .error .conflict
  else
    let setting ← option.form.read value
    return { reading with settings := reading.settings ++ [(option.name, setting)] }

/-- Settle what is open. -/
def settle (reading : Reading) : Except UsageError Reading :=
  let settled := { reading with unsettled := .nothing }
  match reading.unsettled with
  | .nothing => .ok settled
  | .awaiting _ => .error .invalidValue
  | .valued option value => settled.set option value
  | .files paths =>
    if paths.any String.isEmpty then .error .invalidValue
    else .ok { settled with files := reading.files ++ paths }

/-- An option, with the value that is attached to it. -/
def takeOption (reading : Reading) (attached : Option String) :
    Option OptionSpec → Except UsageError Reading
  | none => .error .unknownArgument
  | some option =>
    match option.form.takesValue, attached with
    | true, some value => do (← reading.settle).set option value
    | true, none => do return { ← reading.settle with unsettled := .awaiting option }
    | false, some _ => .error .unexpectedValue
    | false, none => do
      let reading ← reading.settle
      match option.form with
      | .help => .error .helpRequested
      | .version => .error .versionRequested
      | _ => reading.set option ""

/-- An argument that is no option: one more file, where files are taken. -/
def takeFile (reading : Reading) (grammar : Grammar) (path : String) : Except UsageError Reading :=
  if !grammar.takesFiles then .error .unknownArgument
  else
    match reading.unsettled with
    | .files paths => .ok { reading with unsettled := .files (paths ++ [path]) }
    | _ => do return { ← reading.settle with unsettled := .files [path] }

/-- A value for the option that awaits one, or a file. -/
def takeValue (reading : Reading) (grammar : Grammar) (value : String) :
    Except UsageError Reading :=
  match reading.unsettled with
  | .awaiting option => .ok { reading with unsettled := .valued option value }
  | _ => reading.takeFile grammar value

def takeLong (reading : Reading) (grammar : Grammar) (name : String) (attached : Option String) :
    Except UsageError Reading :=
  reading.takeOption attached (grammar.options.find? fun option => option.name == name)

def takeShort (reading : Reading) (grammar : Grammar) (letter : Char) :
    Except UsageError Reading :=
  reading.takeOption none (grammar.options.find? fun option => option.letter == some letter)

/-- Read all arguments of a subcommand. -/
def read (grammar : Grammar) : Reading → List String → Except UsageError Reading
  | reading, [] => reading.settle
  | reading, argument :: rest =>
    match Token.ofArgument argument with
    | .escape => do
      (← rest.foldlM (fun reading path => reading.takeFile grammar path) reading).settle
    | .long name attached => do read grammar (← reading.takeLong grammar name attached) rest
    | .short letter => do read grammar (← reading.takeShort grammar letter) rest
    | .value => do read grammar (← reading.takeValue grammar argument) rest

/-! ### Settings -/

def path? (reading : Reading) (name : String) : Option String :=
  match reading.settings.lookup name with
  | some (.path path) => some path
  | _ => none

def number? (reading : Reading) (name : String) : Option Nat :=
  match reading.settings.lookup name with
  | some (.number value) => some value
  | _ => none

/-- The paths of an option that may be repeated. -/
def paths (reading : Reading) (name : String) : List String :=
  reading.settings.filterMap fun
    | (option, .path path) => if option = name then some path else none
    | _ => none

/-- All names of an option that may be repeated. -/
def names (reading : Reading) (name : String) : List String :=
  reading.settings.flatMap fun
    | (option, .names names) => if option = name then names else []
    | _ => []

end Reading

end BytecodeFlow

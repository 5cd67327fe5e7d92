/-
This file collects assemblies from files as a `Scan`. A single assembly is a
JSON text, a bundle holds several of them, and a directory stands for
everything in it. Entries are taken in the order of their names (`inOrder`), so
the result does not depend on the order in which they are listed. The first
failure ends a scan.
-/

import BytecodeFlow.Files.Tree
import BytecodeFlow.Journal.Message
import BytecodeFlow.Json.Reader
import BytecodeFlow.Metadata.Format
import BytecodeFlow.Metadata.Sources

namespace BytecodeFlow

/-- What is found at a path. -/
abbrev Lookup := String → Option FileTree

inductive ScanError where
  | unsupported (path : String)
  | unreadable (path : String)
  | cannotOpen (path : String)
  | malformed (path : String)
  | malformedEntry (path entry : String)
deriving DecidableEq, Repr

def ScanError.message : ScanError → String
  | .unsupported path => "unsupported input file: " ++ path
  | .unreadable path => "failed to read " ++ path
  | .cannotOpen path => "failed to open " ++ path
  | .malformed path => "failed to parse " ++ path
  | .malformedEntry path entry => "failed to parse " ++ path ++ ":" ++ entry

/-- The assemblies found, with a count of their types, and the failure that ended the scan, if one
did. -/
structure Scan where
  assemblies : List Assembly
  typeCount : Nat
  messages : List Message
  failure : Option ScanError

namespace Scan

def empty : Scan := ⟨[], 0, [], none⟩

/-- One scan and then another, which is not reached after a failure. -/
def append (first second : Scan) : Scan :=
  match first.failure with
  | some _ => first
  | none =>
    { assemblies := first.assemblies ++ second.assemblies
      typeCount := first.typeCount + second.typeCount
      messages := first.messages ++ second.messages
      failure := second.failure }

def concat (scans : List Scan) : Scan := scans.foldr append empty

/-- Scans of named things, taken in the order of the names. -/
def inOrder (scans : List (String × Scan)) : Scan :=
  concat ((scans.mergeSort fun left right => left.1 ≤ right.1).map Prod.snd)

def fail (error : ScanError) : Scan := ⟨[], 0, [], some error⟩

def ofAssembly (assembly : Assembly) : Scan :=
  { assemblies := [assembly]
    typeCount := assembly.types.length
    messages := [.debug ("loaded assembly " ++ assembly.name ++ " (" ++
      toString assembly.types.length ++ " type(s))")]
    failure := none }

/-! ### Files -/

/-- The assembly that a text describes. -/
def assemblyOf? (text : String) : Option Assembly := (Json.parse? text).bind Assembly.decode

/-- A text that has to describe an assembly. -/
def ofText (text : Option String) (otherwise : ScanError) : Scan :=
  match text.bind assemblyOf? with
  | some assembly => ofAssembly assembly
  | none => fail otherwise

/-- Whether the name of an entry marks it as JSON. -/
def isJsonName (name : String) : Bool := ".json".toList.isSuffixOf name.toList

/-- The JSON entries of a bundle. -/
def ofBundle (path : String) (entries : List (String × Option String)) : Scan :=
  let wanted := entries.filter fun (name, _) => isJsonName name
  inOrder (wanted.map fun (name, text) => (name, ofText text (.malformedEntry path name)))

/-- Whatever is at a path that is no directory. A file of another kind is skipped with a message,
unless it was asked for. -/
def ofFile (path : String) (content : Option Content) (wasAskedFor : Bool) : Scan :=
  match Path.extension? path, content with
  | some "json", none => fail (.unreadable path)
  | some "json", some content => ofText content.text? (.malformed path)
  | some "zip", none => fail (.cannotOpen path)
  | some "zip", some (.bundle entries) => ofBundle path entries
  | some "zip", some _ => fail (.unreadable path)
  | _, _ =>
    if wasAskedFor then fail (.unsupported path)
    else ⟨[], 0, [.debug ("ignoring " ++ path)], none⟩

/-! ### Directories -/

mutual

/-- An entry of a directory. It is looked up by its path, so nothing is found there if the path is
too long to be followed. -/
def ofEntry (path : String) : FileTree → Scan
  | .file content => ofFile path (if Path.canBeFollowed path then some content else none) false
  | .directory children =>
    if Path.canBeFollowed path then inOrder (ofEntries path children)
    else ofFile path none false

/-- The scans of the entries of a directory under their names. -/
def ofEntries (path : String) : List (String × FileTree) → List (String × Scan)
  | [] => []
  | (name, child) :: rest => (name, ofEntry (Path.join path name) child) :: ofEntries path rest

end

/-- A path that was asked for. -/
def ofPath (find : Lookup) (path : String) : Scan :=
  match find path with
  | some (.directory children) => ofEntry path (.directory children)
  | some (.file content) => ofFile path (some content) true
  | none => ofFile path none true

end Scan

/-- The sources collected, or why they could not be, and a count of the types that were loaded. -/
structure ScanOutcome where
  messages : List Message
  typeCount : Nat
  sources : Except ScanError Sources

/-- Collect the input and then the references in the order of their paths. -/
def scanSources (find : Lookup) (input : String) (references : List String) : ScanOutcome :=
  let inputs := Scan.ofPath find input
  let references := Scan.concat
    ((references.mergeSort fun left right => left ≤ right).map (Scan.ofPath find))
  let whole := inputs.append references
  { messages := whole.messages
    typeCount := whole.typeCount
    sources :=
      match whole.failure with
      | some error => .error error
      | none => .ok ⟨inputs.assemblies, references.assemblies⟩ }

end BytecodeFlow

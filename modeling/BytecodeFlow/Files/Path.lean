/-
This file gives a meaning to the text of a path: the names it is made of
(`parts`), its `extension?`, its limits (`canBeFollowed`), and the one path
that stands for the standard output. Nothing here looks at files.
-/

import BytecodeFlow.Text.Split

namespace BytecodeFlow.Path

/-- The parts of a path between slashes. -/
def parts (path : String) : List String := splitText '/' path

/-- Whether a part of a path leads nowhere else. -/
def isIdle (part : String) : Bool := part == "" || part == "."

/-- Whether a path starts at the root of the file system. -/
def isAbsolute (path : String) : Bool := path.toList.head? == some '/'

/-- The parts of a path by which it is compared with others. A dot counts only at the start. -/
def components (path : String) : List String :=
  let steps := (parts path).filter fun part => !isIdle part
  if isAbsolute path then "/" :: steps
  else if (parts path).head? = some "." then "." :: steps
  else steps

/-- The name at the end of a path, if the path ends in a name. -/
def fileName? (path : String) : Option String :=
  (components path).getLast?.filter fun name => name != "/" && name != "." && name != ".."

/-- What follows the last dot of the name at the end of a path. A dot at the start of a name does
not begin an extension. -/
def extension? (path : String) : Option String := do
  let name ← fileName? path
  let (suffix, rest) := name.toList.reverse.span (· ≠ '.')
  match rest with
  | _dot :: _ :: _ => return String.ofList suffix.reverse
  | _ => none

/-- The longest name that a file may have, in bytes. -/
def longestName : Nat := 255

/-- The longest path that can be followed, in bytes. -/
def longestPath : Nat := 4095

/-- Whether a file may have a name. -/
def canBeName (name : String) : Bool :=
  name.utf8ByteSize ≤ longestName && !name.toList.contains '\x00'

/-- Whether a path is not too long to be followed. -/
def canBeFollowed (path : String) : Bool := path.utf8ByteSize ≤ longestPath

/-- The path of an entry of a directory. -/
def join (directory name : String) : String :=
  if directory.toList.getLast? == some '/' then directory ++ name else directory ++ "/" ++ name

/-- Whether a path stands for the standard output. -/
def isStandardOutput (path : String) : Bool := components path == ["-"]

end BytecodeFlow.Path

/-
This file models files: in a `FileTree` a directory lists its entries under
their names, and a file holds text, a bundle of texts, or something else. In a
`FileSystem` paths are followed from the root if they are absolute and from a
working directory otherwise, through `.` and `..` where these stand for a
directory.
-/

import BytecodeFlow.Files.Path

namespace BytecodeFlow

/-- What a file holds. -/
inductive Content where
  | text (text : String)
  /-- An archive of named entries, each with its text if it holds one. -/
  | bundle (entries : List (String × Option String))
  | binary
deriving DecidableEq, Repr

def Content.text? : Content → Option String
  | .text content => some content
  | _ => none

inductive FileTree where
  | file (content : Content)
  | directory (children : List (String × FileTree))
deriving Repr

namespace FileTree

/-- A directory without entries. -/
def empty : FileTree := .directory []

/-- The entries of a directory; a file has none. -/
def children : FileTree → List (String × FileTree)
  | .file _ => []
  | .directory children => children

def isDirectory : FileTree → Bool
  | .file _ => false
  | .directory _ => true

/-! ### By names -/

/-- What a sequence of names leads to. -/
def get? (tree : FileTree) : List String → Option FileTree
  | [] => some tree
  | name :: rest => (tree.children.lookup name).bind fun child => child.get? rest

/-- Put an entry under a name, in the place of an earlier one. -/
def enter (name : String) (child : FileTree) :
    List (String × FileTree) → List (String × FileTree)
  | [] => [(name, child)]
  | (other, present) :: rest =>
    if other = name then (name, child) :: rest else (other, present) :: enter name child rest

/-- Put a tree where a sequence of names leads, with the directories on the way. -/
def put (new : FileTree) : List String → FileTree → FileTree
  | [], _ => new
  | name :: rest, tree =>
    let child := (tree.children.lookup name).getD empty
    .directory (enter name (put new rest child) tree.children)

mutual

/-- The files of a tree with their paths, given the path of the tree. -/
def filesUnder (path : List String) : FileTree → List (List String × Content)
  | .file content => [(path, content)]
  | .directory children => filesOf path children

def filesOf (path : List String) : List (String × FileTree) → List (List String × Content)
  | [] => []
  | (name, child) :: rest => filesUnder (path ++ [name]) child ++ filesOf path rest

end

/-- The files of a tree with their paths from it. -/
def files (tree : FileTree) : List (String × Content) :=
  (filesUnder [] tree).map fun (path, content) => ("/".intercalate path, content)

/-! ### By paths -/

/-- Follow the parts of a path from where the names `here`, the innermost first, lead. Every part
has to be taken in a directory. Above the root there is only the root itself. -/
def follow (root : FileTree) : (here : List String) → List String → Option (List String)
  | here, [] => some here
  | here, part :: rest =>
    match root.get? here.reverse with
    | some (.directory children) =>
      if Path.isIdle part then follow root here rest
      else if part = ".." then follow root here.tail rest
      else if (children.lookup part).isSome then follow root (part :: here) rest
      else none
    | _ => none

end FileTree

/-- All files, with the names that lead from the root to the working directory. -/
structure FileSystem where
  root : FileTree
  working : List String
deriving Repr

namespace FileSystem

/-- The names from which a path is followed, the innermost first. -/
def origin (system : FileSystem) (path : String) : List String :=
  if Path.isAbsolute path then [] else system.working.reverse

/-- What a path leads to. -/
def find? (system : FileSystem) (path : String) : Option FileTree :=
  if path.isEmpty || !Path.canBeFollowed path then none
  else (system.root.follow (system.origin path) (Path.parts path)).bind
    fun here => system.root.get? here.reverse

/-- Make a file at a path, in the place of an earlier one. Its directory has to be there, no
directory may be in its place, and its name has to be possible. -/
def create? (system : FileSystem) (path : String) (content : Content) : Option FileSystem :=
  match (Path.parts path).reverse with
  | [] => none
  | name :: above =>
    if !Path.canBeFollowed path then none
    else if Path.isIdle name || name = ".." || !Path.canBeName name then none
    else do
      let here ← system.root.follow (system.origin path) above.reverse
      let directory ← system.root.get? here.reverse
      if !directory.isDirectory then none
      else if (directory.children.lookup name).any FileTree.isDirectory then none
      else return { system with root := .put (.file content) (here.reverse ++ [name]) system.root }

end FileSystem

end BytecodeFlow

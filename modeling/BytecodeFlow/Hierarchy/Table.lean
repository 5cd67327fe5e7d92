/-
This file collects the entries of types under their names and renders them. A
`TypeTable` also knows the order in which its entries were made: an entry is
made after those of the types it inherits from.
-/

import Std.Data.ExtTreeMap
import BytecodeFlow.Hierarchy.Entry

namespace BytecodeFlow

structure TypeTable where
  entries : Std.ExtTreeMap String TypeEntry
  /-- The types for which an entry was made, the latest first. -/
  history : List String

namespace TypeTable

def empty : TypeTable := ⟨∅, []⟩

def find? (table : TypeTable) (name : String) : Option TypeEntry := table.entries[name]?

/-- The entries in the order of their names. -/
def toList (table : TypeTable) : List TypeEntry := table.entries.toList.map Prod.snd

def size (table : TypeTable) : Nat := table.entries.size

/-- How many entries were made. -/
def resolutions (table : TypeTable) : Nat := table.history.length

def insert (table : TypeTable) (entry : TypeEntry) : TypeTable :=
  ⟨table.entries.insert entry.name entry, entry.name :: table.history⟩

/-! ### Rendering -/

def text (table : TypeTable) : String := String.join (table.toList.map TypeEntry.text)

def toJson (table : TypeTable) : Json :=
  .object (table.toList.map fun entry => (entry.name, entry.toJson))

/-- A type of the drawing with its edges to the types it inherits from directly. -/
def dotOfEntry (entry : TypeEntry) : String :=
  let node (name : String) : String := "\"" ++ name ++ "\""
  "  " ++ node entry.name ++ ";\n" ++
    String.join (entry.parents.map fun parent =>
      "  " ++ node entry.name ++ " -> " ++ node parent ++ ";\n")

/-- The inheritance graph as input for a graph drawing tool. -/
def toDot (table : TypeTable) : String :=
  "digraph tenv \x7b\n  rankdir=BT;\n  node [shape=box];\n" ++
    String.join (table.toList.map dotOfEntry) ++ "\x7d\n"

end TypeTable

end BytecodeFlow

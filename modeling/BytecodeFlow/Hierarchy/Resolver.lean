/-
This file works out inheritance. The `TypeEntry` of a type is made from the
entries of the types it inherits from, which are made first (`resolveParents`).
The `Resolver` deals with each type once. A type that is met again while its
own entry is being made does not count as a supertype there, so a cycle in the
metadata is cut where it closes.
-/

import BytecodeFlow.Hierarchy.Table
import BytecodeFlow.Journal.Message

namespace BytecodeFlow

/-- Type definitions under their names. -/
abbrev Definitions := Std.ExtTreeMap String TypeDef

namespace Definitions

/-- The definitions of a list of types; the first one of a name counts. -/
def ofTypes (types : List TypeDef) : Definitions :=
  types.foldl (fun definitions definition => definitions.insertIfNew definition.name definition) ∅

/-- All types of a list of assemblies. -/
def typesOf (assemblies : List Assembly) : List TypeDef := assemblies.flatMap Assembly.types

def ofAssemblies (assemblies : List Assembly) : Definitions := ofTypes (typesOf assemblies)

/-- Setting aside a definition that is there leaves fewer of them. -/
theorem size_erase_lt {definitions : Definitions} {name : String} {definition : TypeDef}
    (found : definitions[name]? = some definition) :
    (definitions.erase name).size < definitions.size := by
  have present : name ∈ definitions :=
    Std.ExtTreeMap.mem_iff_isSome_getElem?.mpr (by simp [found])
  have nonempty : definitions.size ≠ 0 := by
    intro zero
    rw [← Std.ExtTreeMap.eq_empty_iff_size_eq_zero] at zero
    simp [zero] at present
  rw [Std.ExtTreeMap.size_erase, if_pos (Std.ExtTreeMap.contains_iff_mem.mpr present)]
  omega

end Definitions

/-- The entries made so far, and the messages given on the way. -/
structure Resolver where
  table : TypeTable
  messages : Array Message

namespace Resolver

def empty : Resolver := ⟨.empty, #[]⟩

def say (resolver : Resolver) (text : String) : Resolver :=
  { resolver with messages := resolver.messages.push (.debug text) }

def insert (resolver : Resolver) (entry : TypeEntry) : Resolver :=
  { resolver with table := resolver.table.insert entry }

mutual

/-- Make the entry of a type, unless it is there or being made. The definitions that are not
being made are `idle`. -/
def resolveFrom (definitions idle : Definitions) (name : String) (resolver : Resolver) :
    Resolver :=
  if name ∈ resolver.table.entries then resolver
  else
    match found : idle[name]? with
    | none =>
      if name ∈ definitions then resolver
      else resolver.say ("no metadata for type " ++ name)
    | some definition =>
      have := Definitions.size_erase_lt found
      let (parents, resolver) :=
        resolveParents definitions (idle.erase name) name definition.parentNames resolver
      resolver.insert (.ofDefinition definition parents)
termination_by (idle.size, 0)

/-- Make the entries of the types from which a child inherits, and collect those that could be
made. -/
def resolveParents (definitions idle : Definitions) (child : String) (names : List String)
    (resolver : Resolver) : List TypeEntry × Resolver :=
  match names with
  | [] => ([], resolver)
  | name :: rest =>
    let resolver := resolveFrom definitions idle name resolver
    match resolver.table.find? name with
    | none => resolveParents definitions idle child rest
        (resolver.say ("skipping unresolved supertype " ++ name ++ " of " ++ child))
    | some entry =>
      let (entries, resolver) := resolveParents definitions idle child rest resolver
      (entry :: entries, resolver)
termination_by (idle.size, names.length + 1)

end

/-- Make the entry of a type if it has a definition. -/
def resolve (definitions : Definitions) (resolver : Resolver) (name : String) : Resolver :=
  resolveFrom definitions definitions name resolver

/-- Make the entries of all types of the assemblies. -/
def resolveAll (assemblies : List Assembly) : Resolver :=
  let definitions := Definitions.ofAssemblies assemblies
  let names := (Definitions.typesOf assemblies).map TypeDef.name
  let resolver := names.foldl (resolve definitions) empty
  resolver.say ("resolved " ++ toString resolver.table.size ++ " type(s)")

end Resolver

end BytecodeFlow

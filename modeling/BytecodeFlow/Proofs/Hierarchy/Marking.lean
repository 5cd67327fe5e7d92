/-
This file describes how types are resolved by the marks that are set on the
way. A type is marked while its entry is being made; a type that is met again
meanwhile is passed over; and the mark is replaced by the entry in the end.
Working through a list of types in this manner is a relation between slots,
`Collects`, which has at most one outcome. The `Resolver` takes a definition
out of the idle ones instead of marking it, and this comes to the same: what it
does is always an outcome of the relation, so there is one, whatever the
hierarchy is.
-/

import Mathlib.Logic.Function.Basic
import BytecodeFlow.Hierarchy.Resolver

namespace BytecodeFlow

/-! ### Definitions -/

namespace Definitions

/-- The first type of a name. -/
def declared? (types : List TypeDef) (name : String) : Option TypeDef :=
  types.find? fun definition => definition.name == name

theorem getElem?_foldl_insertIfNew (types : List TypeDef) (definitions : Definitions)
    (name : String) :
    (types.foldl (fun definitions definition =>
        definitions.insertIfNew definition.name definition) definitions)[name]? =
      definitions[name]?.or (declared? types name) := by
  induction types generalizing definitions with
  | nil => simp [declared?]
  | cons first rest inductionHypothesis =>
    rw [List.foldl_cons, inductionHypothesis, Std.ExtTreeMap.getElem?_insertIfNew]
    simp only [Std.LawfulEqCmp.compare_eq_iff_eq, Std.ExtTreeMap.mem_iff_isSome_getElem?]
    by_cases same : first.name = name
    · subst same
      cases definitions[first.name]? <;> simp [declared?]
    · simp [declared?, same]

/-- The first definition of a name counts. -/
theorem getElem?_ofTypes (types : List TypeDef) (name : String) :
    (ofTypes types)[name]? = declared? types name := by
  rw [ofTypes, getElem?_foldl_insertIfNew]
  simp

theorem name_of_declared? {types : List TypeDef} {name : String} {definition : TypeDef}
    (found : declared? types name = some definition) : definition.name = name := by
  have same := List.find?_some found
  exact eq_of_beq same

/-- Definitions are kept under their own names. -/
def Named (definitions : Definitions) : Prop :=
  ∀ (name : String) (definition : TypeDef), definitions[name]? = some definition →
    definition.name = name

theorem named_ofTypes (types : List TypeDef) : (ofTypes types).Named := by
  intro name definition found
  rw [getElem?_ofTypes] at found
  exact name_of_declared? found

theorem mem_ofTypes {types : List TypeDef} {name : String} :
    name ∈ ofTypes types ↔ name ∈ types.map TypeDef.name := by
  rw [Std.ExtTreeMap.mem_iff_isSome_getElem?, getElem?_ofTypes, declared?, List.find?_isSome]
  simp

theorem mem_names_typesOf {assemblies : List Assembly} {name : String} :
    name ∈ (typesOf assemblies).map TypeDef.name ↔
      ∃ assembly ∈ assemblies, ∃ definition ∈ assembly.types, definition.name = name := by
  simp only [typesOf, List.mem_map, List.mem_flatMap]
  constructor
  · rintro ⟨definition, ⟨assembly, listed, member⟩, same⟩
    exact ⟨assembly, listed, definition, member, same⟩
  · rintro ⟨assembly, listed, definition, member, same⟩
    exact ⟨definition, ⟨assembly, listed, member⟩, same⟩

/-- Definitions are among others. -/
def Within (idle definitions : Definitions) : Prop :=
  ∀ (name : String) (definition : TypeDef), idle[name]? = some definition →
    definitions[name]? = some definition

theorem Within.erase {idle definitions : Definitions} (within : idle.Within definitions)
    (name : String) : Within (Std.ExtTreeMap.erase idle name) definitions := by
  intro other definition found
  rw [Std.ExtTreeMap.getElem?_erase] at found
  split at found
  · cases found
  · exact within other definition found

end Definitions

/-! ### Slots -/

/-- What there is of a type that has been turned to. -/
inductive TypeSlot where
  | inProgress
  | resolved (entry : TypeEntry)

/-- The `TypeSlot`s of all types, and the types for which an entry was made, the latest first. -/
structure TypeSlots where
  slot? : String → Option TypeSlot
  history : List String

namespace TypeSlots

def empty : TypeSlots := ⟨fun _ => none, []⟩

/-- Begin with a type: its slot is `inProgress`. -/
def mark (slots : TypeSlots) (name : String) : TypeSlots :=
  { slots with slot? := Function.update slots.slot? name (some .inProgress) }

/-- End with a type: its slot is `resolved`. -/
def store (slots : TypeSlots) (name : String) (entry : TypeEntry) : TypeSlots :=
  ⟨Function.update slots.slot? name (some (.resolved entry)), name :: slots.history⟩

/-- Working through a list of types turns slots into others and gives entries. Entries that are
there are taken, types in progress and types without a definition are passed over, and an entry
that is to be made is made from those of the types that it inherits from. -/
inductive Collects (definitions : Definitions) :
    TypeSlots → List String → List TypeEntry → TypeSlots → Prop
  | nil (slots : TypeSlots) : Collects definitions slots [] [] slots
  | known {slots final : TypeSlots} {name : String} {rest : List String} {entry : TypeEntry}
    {entries : List TypeEntry} (there : slots.slot? name = some (.resolved entry))
    (further : Collects definitions slots rest entries final) :
    Collects definitions slots (name :: rest) (entry :: entries) final
  | busy {slots final : TypeSlots} {name : String} {rest : List String} {entries : List TypeEntry}
    (marked : slots.slot? name = some .inProgress)
    (further : Collects definitions slots rest entries final) :
    Collects definitions slots (name :: rest) entries final
  | undeclared {slots final : TypeSlots} {name : String} {rest : List String}
    {entries : List TypeEntry} (fresh : slots.slot? name = none)
    (unknown : definitions[name]? = none)
    (further : Collects definitions slots rest entries final) :
    Collects definitions slots (name :: rest) entries final
  | made {slots middle final : TypeSlots} {name : String} {definition : TypeDef}
    {rest : List String} {parents entries : List TypeEntry} (fresh : slots.slot? name = none)
    (declared : definitions[name]? = some definition)
    (inherits : Collects definitions (slots.mark name) definition.parentNames parents middle)
    (further : Collects definitions (middle.store name (.ofDefinition definition parents)) rest
      entries final) :
    Collects definitions slots (name :: rest) (.ofDefinition definition parents :: entries) final

/-- `Collects` has at most one outcome. -/
theorem Collects.functional {definitions : Definitions} {slots final otherFinal : TypeSlots}
    {names : List String} {entries otherEntries : List TypeEntry}
    (collects : Collects definitions slots names entries final)
    (other : Collects definitions slots names otherEntries otherFinal) :
    entries = otherEntries ∧ final = otherFinal := by
  induction collects generalizing otherEntries otherFinal with
  | nil slots =>
    cases other
    exact ⟨rfl, rfl⟩
  | known there further inductionHypothesis =>
    cases other with
    | known again otherFurther =>
      obtain ⟨rfl, rfl⟩ := inductionHypothesis otherFurther
      cases there.symm.trans again
      exact ⟨rfl, rfl⟩
    | busy marked => cases there.symm.trans marked
    | undeclared fresh => cases there.symm.trans fresh
    | made fresh => cases there.symm.trans fresh
  | busy marked further inductionHypothesis =>
    cases other with
    | known there => cases marked.symm.trans there
    | busy again otherFurther => exact inductionHypothesis otherFurther
    | undeclared fresh => cases marked.symm.trans fresh
    | made fresh => cases marked.symm.trans fresh
  | undeclared fresh unknown further inductionHypothesis =>
    cases other with
    | known there => cases fresh.symm.trans there
    | busy marked => cases fresh.symm.trans marked
    | undeclared again unknownAgain otherFurther => exact inductionHypothesis otherFurther
    | made again declared => cases unknown.symm.trans declared
  | made fresh declared inherits further fromParents inductionHypothesis =>
    cases other with
    | known there => cases fresh.symm.trans there
    | busy marked => cases fresh.symm.trans marked
    | undeclared again unknown => cases declared.symm.trans unknown
    | made again declaredAgain otherInherits otherFurther =>
      cases declared.symm.trans declaredAgain
      obtain ⟨rfl, rfl⟩ := fromParents otherInherits
      obtain ⟨rfl, rfl⟩ := inductionHypothesis otherFurther
      exact ⟨rfl, rfl⟩

/-- The `TypeSlots` that a resolver stands for: a type without an entry is in progress if its
definition is not idle. -/
def ofTable (definitions idle : Definitions) (table : TypeTable) : TypeSlots where
  slot? name :=
    match table.find? name with
    | some entry => some (.resolved entry)
    | none => if name ∈ definitions ∧ name ∉ idle then some .inProgress else none
  history := table.history

variable {definitions idle : Definitions} {table : TypeTable} {name : String}
  {definition : TypeDef}

theorem slot?_ofTable_of_some {entry : TypeEntry} (found : table.find? name = some entry) :
    (ofTable definitions idle table).slot? name = some (.resolved entry) := by
  simp only [ofTable, found]

theorem slot?_ofTable_of_none (definitions idle : Definitions) (absent : table.find? name = none) :
    (ofTable definitions idle table).slot? name =
      if name ∈ definitions ∧ name ∉ idle then some .inProgress else none := by
  simp only [ofTable, absent]

theorem ofTable_empty (definitions : Definitions) :
    ofTable definitions definitions .empty = empty := by
  unfold ofTable empty TypeTable.find? TypeTable.empty
  simp

/-- Taking a definition out of the idle ones is a `mark`. -/
theorem ofTable_erase (absent : table.find? name = none) (declared : name ∈ definitions) :
    ofTable definitions (idle.erase name) table = (ofTable definitions idle table).mark name := by
  unfold mark
  refine congrArg (TypeSlots.mk · _) (funext fun other => ?_)
  by_cases same : other = name
  · subst same
    rw [Function.update_self]
    simp [absent, declared]
  · rw [Function.update_of_ne same]
    simp [ofTable, Ne.symm same]

/-- Making an entry is a `store` in place of the mark. -/
theorem ofTable_insert (definitions idle : Definitions) (table : TypeTable) (entry : TypeEntry) :
    ofTable definitions idle (table.insert entry) =
      (ofTable definitions (idle.erase entry.name) table).store entry.name entry := by
  unfold store
  refine congrArg (TypeSlots.mk · _) (funext fun other => ?_)
  by_cases same : other = entry.name
  · subst same
    rw [Function.update_self]
    simp [TypeTable.find?, TypeTable.insert]
  · rw [Function.update_of_ne same]
    simp [ofTable, TypeTable.find?, TypeTable.insert, Ne.symm same,
      Std.ExtTreeMap.getElem?_insert]

end TypeSlots

/-! ### The resolver -/

namespace Resolver

variable {definitions idle : Definitions} {name child : String} {resolver : Resolver}
  {definition : TypeDef}

theorem mem_entries_iff {table : TypeTable} :
    name ∈ table.entries ↔ ∃ entry, table.find? name = some entry :=
  Std.ExtTreeMap.mem_iff_isSome_getElem?.trans Option.isSome_iff_exists

theorem notMem_entries_of_none {table : TypeTable} (absent : table.find? name = none) :
    name ∉ table.entries := by
  rw [mem_entries_iff, absent]
  simp

theorem resolveFrom_of_known {entry : TypeEntry}
    (there : resolver.table.find? name = some entry) :
    resolveFrom definitions idle name resolver = resolver := by
  rw [resolveFrom, if_pos (mem_entries_iff.mpr ⟨entry, there⟩)]

theorem table_resolveFrom_of_none (absent : resolver.table.find? name = none)
    (notIdle : idle[name]? = none) :
    (resolveFrom definitions idle name resolver).table = resolver.table := by
  rw [resolveFrom, if_neg (notMem_entries_of_none absent)]
  split
  · split <;> rfl
  next found => cases notIdle.symm.trans found

theorem table_resolveFrom_of_some (absent : resolver.table.find? name = none)
    (found : idle[name]? = some definition) :
    (resolveFrom definitions idle name resolver).table =
      (resolveParents definitions (idle.erase name) name definition.parentNames
        resolver).2.table.insert
        (.ofDefinition definition (resolveParents definitions (idle.erase name) name
          definition.parentNames resolver).1) := by
  rw [resolveFrom, if_neg (notMem_entries_of_none absent)]
  split
  next missing => cases found.symm.trans missing
  next again =>
    cases found.symm.trans again
    rfl

/-- What the resolver makes of a type is an outcome of `Collects`, if this holds of the types that
it inherits from. -/
theorem collects_resolveFrom (named : definitions.Named)
    (within : idle.Within definitions)
    (inherits : ∀ definition, idle[name]? = some definition →
      TypeSlots.Collects definitions (.ofTable definitions (idle.erase name) resolver.table)
        definition.parentNames
        (resolveParents definitions (idle.erase name) name definition.parentNames resolver).1
        (.ofTable definitions (idle.erase name) (resolveParents definitions (idle.erase name) name
          definition.parentNames resolver).2.table))
    {rest : List String} {entries : List TypeEntry} {final : TypeSlots}
    (further : TypeSlots.Collects definitions
      (.ofTable definitions idle (resolveFrom definitions idle name resolver).table) rest entries
      final) :
    TypeSlots.Collects definitions (.ofTable definitions idle resolver.table) (name :: rest)
      (((resolveFrom definitions idle name resolver).table.find? name).toList ++ entries)
      final := by
  cases there : resolver.table.find? name with
  | some entry =>
    rw [resolveFrom_of_known there] at further ⊢
    rw [there]
    exact .known (TypeSlots.slot?_ofTable_of_some there) further
  | none =>
    have slot := TypeSlots.slot?_ofTable_of_none definitions idle there
    cases found : idle[name]? with
    | none =>
      rw [table_resolveFrom_of_none there found] at further ⊢
      rw [there]
      have notIdle : name ∉ idle := by simp [Std.ExtTreeMap.mem_iff_isSome_getElem?, found]
      by_cases declared : name ∈ definitions
      · rw [if_pos ⟨declared, notIdle⟩] at slot
        exact .busy slot further
      · rw [if_neg fun both => declared both.1] at slot
        exact .undeclared slot (Std.ExtTreeMap.getElem?_eq_none declared) further
    | some definition =>
      have same : definition.name = name := named _ _ (within _ _ found)
      have isIdle : name ∈ idle := Std.ExtTreeMap.mem_iff_isSome_getElem?.mpr (by simp [found])
      have declared : name ∈ definitions :=
        Std.ExtTreeMap.mem_iff_isSome_getElem?.mpr (by simp [within _ _ found])
      rw [if_neg fun both => both.2 isIdle] at slot
      have parents := inherits definition found
      rw [TypeSlots.ofTable_erase there declared] at parents
      rw [table_resolveFrom_of_some there found] at further ⊢
      rw [TypeSlots.ofTable_insert] at further
      have kept : (TypeEntry.ofDefinition definition (resolveParents definitions (idle.erase name)
          name definition.parentNames resolver).1).name = name := same
      rw [kept] at further
      simpa [TypeTable.find?, TypeTable.insert, kept] using
        TypeSlots.Collects.made slot (within _ _ found) parents further

/-- What the resolver makes of a list of types is an outcome of `Collects`, if this holds of each
type. -/
theorem collects_resolveParents_of
    (single : ∀ (name : String) (resolver : Resolver) {rest : List String}
      {entries : List TypeEntry} {final : TypeSlots},
      TypeSlots.Collects definitions
        (.ofTable definitions idle (resolveFrom definitions idle name resolver).table) rest
        entries final →
      TypeSlots.Collects definitions (.ofTable definitions idle resolver.table) (name :: rest)
        (((resolveFrom definitions idle name resolver).table.find? name).toList ++ entries) final)
    (names : List String) (resolver : Resolver) :
    TypeSlots.Collects definitions (.ofTable definitions idle resolver.table) names
      (resolveParents definitions idle child names resolver).1
      (.ofTable definitions idle
        (resolveParents definitions idle child names resolver).2.table) := by
  induction names generalizing resolver with
  | nil =>
    rw [resolveParents]
    exact .nil _
  | cons name rest inductionHypothesis =>
    rw [resolveParents]
    dsimp only
    split
    next absent =>
      have collects := single name resolver (inductionHypothesis
        ((resolveFrom definitions idle name resolver).say
          ("skipping unresolved supertype " ++ name ++ " of " ++ child)))
      rwa [absent] at collects
    next entry found =>
      have collects := single name resolver
        (inductionHypothesis (resolveFrom definitions idle name resolver))
      rwa [found] at collects

/-- The resolver arrives at an outcome of `Collects`. The induction is on the number of idle
definitions. -/
theorem collects_resolveParents (named : definitions.Named)
    (within : idle.Within definitions)
    (child : String) (names : List String) (resolver : Resolver) :
    TypeSlots.Collects definitions (.ofTable definitions idle resolver.table) names
      (resolveParents definitions idle child names resolver).1
      (.ofTable definitions idle
        (resolveParents definitions idle child names resolver).2.table) := by
  induction size : idle.size using Nat.strongRecOn generalizing idle child names resolver with
  | _ size inductionHypothesis =>
    subst size
    refine collects_resolveParents_of (fun name resolver => ?_) names resolver
    refine collects_resolveFrom named within fun definition found => ?_
    exact inductionHypothesis _ (Definitions.size_erase_lt found) (within.erase name) _ _ _ rfl

/-- Resolving types one after the other is working through the list of them. -/
theorem collects_foldl_resolve (named : definitions.Named) (requests : List String)
    (resolver : Resolver) :
    ∃ entries, TypeSlots.Collects definitions (.ofTable definitions definitions resolver.table)
      requests entries
      (.ofTable definitions definitions (requests.foldl (resolve definitions) resolver).table) := by
  induction requests generalizing resolver with
  | nil => exact ⟨[], .nil _⟩
  | cons name rest inductionHypothesis =>
    obtain ⟨entries, collects⟩ := inductionHypothesis (resolve definitions resolver name)
    have all : definitions.Within definitions := fun _ _ => id
    refine ⟨_, collects_resolveFrom named all (fun definition _ => ?_) collects⟩
    exact collects_resolveParents named (all.erase name) _ _ _

theorem collects_requests (named : definitions.Named) (requests : List String) :
    ∃ entries, TypeSlots.Collects definitions .empty requests entries
      (.ofTable definitions definitions (requests.foldl (resolve definitions) empty).table) := by
  rw [← TypeSlots.ofTable_empty definitions]
  exact collects_foldl_resolve named requests empty

end Resolver

end BytecodeFlow

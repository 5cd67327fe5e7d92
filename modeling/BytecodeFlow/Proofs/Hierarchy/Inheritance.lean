/-
This file defines what a type inherits, where inheritance has no cycle
(`Acyclic`): `entryOf?` is by recursion from the types that it inherits from
directly. The `Resolver` makes just these entries. No type that it meets is
ever in progress then, so it does not matter which types were asked for before.
-/

import Mathlib.Order.WellFoundedSet
import BytecodeFlow.Proofs.Hierarchy.Ordering

namespace BytecodeFlow

namespace Definitions

/-- A declared type inherits directly from another declared one. -/
def Inherits (types : List TypeDef) (parent child : String) : Prop :=
  (declared? types parent).isSome ∧
    ∃ definition, declared? types child = some definition ∧ parent ∈ definition.parentNames

/-- No type `Inherits` from itself, directly or not. -/
def Acyclic (types : List TypeDef) : Prop :=
  ∀ name, ¬ Relation.TransGen (Inherits types) name name

theorem isSome_declared? {types : List TypeDef} {name : String} :
    (declared? types name).isSome ↔ name ∈ types.map TypeDef.name := by
  rw [← getElem?_ofTypes, ← Std.ExtTreeMap.mem_iff_isSome_getElem?, mem_ofTypes]

/-- Types that can be ranked are `Acyclic`. -/
theorem acyclic_of_rank {types : List TypeDef} (rank : String → Nat)
    (ranked : ∀ definition ∈ types, declared? types definition.name = some definition →
      ∀ parent ∈ definition.parentNames, parent ∈ types.map TypeDef.name →
        rank parent < rank definition.name) : Acyclic types := by
  refine not_transGen_of_rank rank ?_
  rintro parent child ⟨declared, definition, found, listed⟩
  have named := name_of_declared? found
  rw [← named] at found ⊢
  exact ranked definition (List.mem_of_find?_eq_some found) found parent listed
    (isSome_declared?.mp declared)

end Definitions

open Definitions

/-- Types among which inheritance is `Acyclic`. -/
structure Hierarchy where
  types : List TypeDef
  acyclic : Acyclic types

namespace Hierarchy

/-- Only finitely many types are declared, so `Inherits` is well-founded. -/
theorem wellFounded (hierarchy : Hierarchy) : WellFounded (Inherits hierarchy.types) := by
  have finite : {name | name ∈ hierarchy.types.map TypeDef.name}.Finite := List.finite_toSet _
  have : IsStrictOrder String (Relation.TransGen (Inherits hierarchy.types)) :=
    { irrefl := hierarchy.acyclic, trans := fun _ _ _ => Relation.TransGen.trans }
  have ancestors := Set.wellFoundedOn_iff.mp
    (finite.wellFoundedOn (r := Relation.TransGen (Inherits hierarchy.types)))
  refine Subrelation.wf (fun {parent child} inherits => ?_) ancestors
  obtain ⟨declared, definition, found, -⟩ := id inherits
  exact ⟨.single inherits, isSome_declared?.mp declared,
    isSome_declared?.mp (Option.isSome_iff_exists.mpr ⟨definition, found⟩)⟩

/-- The fields of a definition that satisfy a condition, under their qualified names. -/
def qualified (definition : TypeDef) (condition : FieldDef → Bool) : List FieldName :=
  (definition.fields.filter condition).map fun field =>
    ⟨qualifiedFieldName definition.name field.name, .ofName field.fieldType⟩

/-- The entry of a type: its own fields and then those of its parents, the supertypes of its
parents and then these, and its own methods. -/
def inheriting (definition : TypeDef) (parents : List TypeEntry) : TypeEntry where
  name := definition.name
  instanceFields := qualified definition (fun field => !field.isStatic) ++
    (parents.map TypeEntry.instanceFields).flatten
  staticFields := qualified definition (fun field => field.isStatic) ++
    (parents.map TypeEntry.staticFields).flatten
  supers := (parents.map TypeEntry.supers).flatten ++ parents.map TypeEntry.name
  methods := definition.methods.map fun method => method.fullName definition.name
  parents := parents.map TypeEntry.name

/-- The entry of a declared type: `inheriting` from the entries of its parents, by recursion over
`Inherits`. -/
def entryOf? (hierarchy : Hierarchy) (name : String) : Option TypeEntry :=
  match found : declared? hierarchy.types name with
  | none => none
  | some definition =>
    some (inheriting definition (definition.parentNames.attach.filterMap fun ⟨parent, listed⟩ =>
      if declared : (declared? hierarchy.types parent).isSome then
        have : Inherits hierarchy.types parent name := ⟨declared, definition, found, listed⟩
        hierarchy.entryOf? parent
      else none))
termination_by hierarchy.wellFounded.wrap name
decreasing_by exact this

theorem entryOf?_of_undeclared {hierarchy : Hierarchy} {name : String}
    (undeclared : declared? hierarchy.types name = none) : hierarchy.entryOf? name = none := by
  rw [entryOf?]
  split
  · rfl
  next found => cases undeclared.symm.trans found

/-- Undeclared parents may be asked for their entries too, since they have none. -/
theorem filterMap_attach_entryOf? (hierarchy : Hierarchy) (names : List String) :
    (names.attach.filterMap fun name =>
        if (declared? hierarchy.types name.1).isSome then hierarchy.entryOf? name.1 else none) =
      names.filterMap hierarchy.entryOf? := by
  have same : ∀ name, (if (declared? hierarchy.types name).isSome then hierarchy.entryOf? name
      else none) = hierarchy.entryOf? name := by
    intro name
    cases found : declared? hierarchy.types name with
    | none => rw [entryOf?_of_undeclared found, ite_self]
    | some definition => rfl
  simp only [same]
  conv_rhs => rw [← List.attach_map_subtype_val names, List.filterMap_map]
  rfl

/-- The recursion of `entryOf?`, without the proof that it ends. -/
theorem entryOf?_eq (hierarchy : Hierarchy) (name : String) :
    hierarchy.entryOf? name = (declared? hierarchy.types name).map fun definition =>
      inheriting definition (definition.parentNames.filterMap hierarchy.entryOf?) := by
  rw [entryOf?]
  split
  next undeclared => rw [undeclared, Option.map_none]
  next definition found =>
    refine Eq.trans ?_ (congrArg (Option.map _) found).symm
    rw [Option.map_some, ← filterMap_attach_entryOf?]
    rfl

theorem isSome_entryOf? {hierarchy : Hierarchy} {name : String} :
    (hierarchy.entryOf? name).isSome ↔ name ∈ hierarchy.types.map TypeDef.name := by
  rw [entryOf?_eq, Option.isSome_map, isSome_declared?]

/-- `TypeEntry.ofDefinition`, which the resolver applies to given parents, is `inheriting`. -/
theorem ofDefinition_eq_inheriting (definition : TypeDef) (parents : List TypeEntry) :
    TypeEntry.ofDefinition definition parents = inheriting definition parents := by
  have instanceFields : TypeEntry.ownFields definition false =
      qualified definition fun field => !field.isStatic := by
    simp [TypeEntry.ownFields, qualified]
  have staticFields : TypeEntry.ownFields definition true =
      qualified definition fun field => field.isStatic := by
    simp [TypeEntry.ownFields, qualified]
  unfold TypeEntry.ofDefinition inheriting
  rw [instanceFields, staticFields]
  simp only [List.flatMap_def]

/-! ### Slots of a hierarchy -/

/-- The entries that are there are those of `entryOf?`, and only declared types are in progress. -/
structure Agrees (hierarchy : Hierarchy) (slots : TypeSlots) : Prop where
  resolved : ∀ {name entry}, slots.slot? name = some (.resolved entry) →
    hierarchy.entryOf? name = some entry
  inProgress : ∀ {name}, slots.slot? name = some .inProgress →
    (declared? hierarchy.types name).isSome

/-- None of some types is in progress, nor is any that they inherit from by `Inherits`, directly or
not. -/
def Clear (hierarchy : Hierarchy) (slots : TypeSlots) (names : List String) : Prop :=
  ∀ name ∈ names, ∀ marked, slots.slot? marked = some .inProgress →
    ¬ Relation.ReflTransGen (Inherits hierarchy.types) marked name

variable {hierarchy : Hierarchy} {slots before after : TypeSlots} {name : String}
  {names rest : List String} {entry : TypeEntry} {entries : List TypeEntry} {definition : TypeDef}

theorem agrees_empty (hierarchy : Hierarchy) : hierarchy.Agrees .empty where
  resolved := fun there => nomatch there
  inProgress := fun marked => nomatch marked

theorem Clear.tail (clear : hierarchy.Clear slots (name :: rest)) : hierarchy.Clear slots rest :=
  fun other listed => clear other (List.mem_cons_of_mem _ listed)

theorem Clear.of_grows (grows : before.Grows after) (clear : hierarchy.Clear before names) :
    hierarchy.Clear after names :=
  fun other listed marked isMarked => clear other listed marked (grows.inProgress.mp isMarked)

theorem Agrees.mark (agrees : hierarchy.Agrees slots)
    (declared : (declared? hierarchy.types name).isSome) :
    hierarchy.Agrees (slots.mark name) where
  resolved := by
    intro other known there
    by_cases same : other = name
    · subst same
      rw [TypeSlots.slot?_mark_self] at there
      cases there
    · rw [TypeSlots.slot?_mark_of_ne same] at there
      exact agrees.resolved there
  inProgress := by
    intro other marked
    by_cases same : other = name
    · exact same ▸ declared
    · rw [TypeSlots.slot?_mark_of_ne same] at marked
      exact agrees.inProgress marked

theorem Agrees.store (agrees : hierarchy.Agrees slots)
    (right : hierarchy.entryOf? name = some entry) : hierarchy.Agrees (slots.store name entry) where
  resolved := by
    intro other known there
    by_cases same : other = name
    · subst same
      rw [TypeSlots.slot?_store_self] at there
      cases there
      exact right
    · rw [TypeSlots.slot?_store_of_ne same] at there
      exact agrees.resolved there
  inProgress := by
    intro other marked
    by_cases same : other = name
    · subst same
      rw [TypeSlots.slot?_store_self] at marked
      cases marked
    · rw [TypeSlots.slot?_store_of_ne same] at marked
      exact agrees.inProgress marked

/-- When a type is marked, none that its parents inherit from is in progress: it would lie on a
cycle, or the type itself would have met it. -/
theorem Clear.parents (agrees : hierarchy.Agrees slots)
    (clear : hierarchy.Clear slots (name :: rest))
    (found : declared? hierarchy.types name = some definition) :
    hierarchy.Clear (slots.mark name) definition.parentNames := by
  intro parent listed marked isMarked path
  have isDeclared : (declared? hierarchy.types marked).isSome :=
    (agrees.mark (Option.isSome_iff_exists.mpr ⟨_, found⟩)).inProgress isMarked
  have declared : (declared? hierarchy.types parent).isSome := by
    rcases Relation.ReflTransGen.cases_tail path with rfl | ⟨_, _, _, parentDefinition, known, _⟩
    · exact isDeclared
    · exact Option.isSome_iff_exists.mpr ⟨parentDefinition, known⟩
  have inherits : Inherits hierarchy.types parent name := ⟨declared, definition, found, listed⟩
  by_cases same : marked = name
  · subst same
    exact hierarchy.acyclic marked (Relation.TransGen.tail' path inherits)
  · rw [TypeSlots.slot?_mark_of_ne same] at isMarked
    exact clear name List.mem_cons_self marked isMarked (path.tail inherits)

/-- What `Collects` gives for types that are `Clear` are their entries by `entryOf?`. -/
theorem entries_of_collects
    (collects : TypeSlots.Collects (ofTypes hierarchy.types) before names entries after)
    (agrees : hierarchy.Agrees before) (clear : hierarchy.Clear before names) :
    entries = names.filterMap hierarchy.entryOf? ∧ hierarchy.Agrees after := by
  induction collects with
  | nil slots => exact ⟨rfl, agrees⟩
  | known there _ inductionHypothesis =>
    obtain ⟨same, agreesAfter⟩ := inductionHypothesis agrees clear.tail
    rw [List.filterMap_cons_some (agrees.resolved there), ← same]
    exact ⟨rfl, agreesAfter⟩
  | busy marked _ _ => exact absurd .refl (clear _ List.mem_cons_self _ marked)
  | undeclared _ unknown _ inductionHypothesis =>
    rw [getElem?_ofTypes] at unknown
    rw [List.filterMap_cons_none (entryOf?_of_undeclared unknown)]
    exact inductionHypothesis agrees clear.tail
  | @made slots middle final name definition rest parents entries fresh declared inherits _
      fromParents inductionHypothesis =>
    rw [getElem?_ofTypes] at declared
    obtain ⟨sameParents, agreesMiddle⟩ := fromParents
      (agrees.mark (Option.isSome_iff_exists.mpr ⟨_, declared⟩)) (clear.parents agrees declared)
    have right : hierarchy.entryOf? name = some (.ofDefinition definition parents) := by
      rw [hierarchy.entryOf?_eq, declared, Option.map_some, ← sameParents,
        ← ofDefinition_eq_inheriting]
    obtain ⟨same, agreesAfter⟩ := inductionHypothesis (agreesMiddle.store right)
      (clear.tail.of_grows (inherits.grows.replace_mark fresh))
    rw [List.filterMap_cons_some right, ← same]
    exact ⟨rfl, agreesAfter⟩

/-- Whatever was asked for before, the table has the entry of a type that was asked for. -/
theorem find?_foldl_resolve (hierarchy : Hierarchy) (requests : List String) (name : String)
    (asked : name ∈ hierarchy.types.map TypeDef.name → name ∈ requests) :
    (requests.foldl (Resolver.resolve (ofTypes hierarchy.types)) .empty).table.find? name =
      hierarchy.entryOf? name := by
  have named := named_ofTypes hierarchy.types
  obtain ⟨entries, collects⟩ := Resolver.collects_requests named requests
  have clear : hierarchy.Clear .empty requests := fun _ _ _ marked => nomatch marked
  have agreesAfter := (entries_of_collects collects hierarchy.agrees_empty clear).2
  cases found : hierarchy.entryOf? name with
  | some entry =>
    have declared : name ∈ hierarchy.types.map TypeDef.name := isSome_entryOf?.mp (by simp [found])
    obtain ⟨other, there⟩ := collects.resolved_of_mem (asked declared) (mem_ofTypes.mpr declared)
      (fun marked => nomatch marked)
    rw [← found, agreesAfter.resolved there]
    exact TypeTable.slot?_ofTable_eq_resolved.mp there
  | none =>
    refine Option.eq_none_iff_forall_ne_some.mpr fun other there => ?_
    rw [agreesAfter.resolved (TypeTable.slot?_ofTable_eq_resolved.mpr there)] at found
    cases found

end Hierarchy

/-- Where inheritance has no cycle (`Acyclic`), `resolve` gives the entry that recursion over
inheritance gives (`Hierarchy.entryOf?`), and nothing just for types that are not declared, whatever
was resolved before. `resolveAll` makes the same entries. -/
theorem Resolver.resolve_eq_entryOf? (assemblies : List Assembly)
    (acyclic : Acyclic (typesOf assemblies)) :
    let hierarchy : Hierarchy := ⟨typesOf assemblies, acyclic⟩
    let definitions := ofAssemblies assemblies
    (∀ name, hierarchy.entryOf? name =
      (declared? (typesOf assemblies) name).map fun definition =>
        Hierarchy.inheriting definition (definition.parentNames.filterMap hierarchy.entryOf?)) ∧
    (∀ (requests : List String) (name : String),
      let resolver := resolve definitions (requests.foldl (resolve definitions) empty) name
      (resolver.table.find? name = none ↔
        ¬ ∃ assembly ∈ assemblies, ∃ definition ∈ assembly.types, definition.name = name) ∧
      resolver.table.find? name = hierarchy.entryOf? name) ∧
    ∀ name, (resolveAll assemblies).table.find? name = hierarchy.entryOf? name := by
  intro hierarchy definitions
  refine ⟨hierarchy.entryOf?_eq, fun requests name => ?_, fun name => ?_⟩
  · intro resolver
    have found : resolver.table.find? name = hierarchy.entryOf? name := by
      rw [← hierarchy.find?_foldl_resolve (requests ++ [name]) name
        fun _ => List.mem_append_right _ List.mem_cons_self, List.foldl_append]
      rfl
    refine ⟨?_, found⟩
    rw [found, ← Option.not_isSome_iff_eq_none, Hierarchy.isSome_entryOf?, mem_names_typesOf]
  · exact hierarchy.find?_foldl_resolve _ name id

/-- Two ways to an interface, a base that is not declared, and a second declaration of a type that
would make it its own parent. -/
def diamondAssemblies : List Assembly :=
  let type (name : String) (base : Option String) (interfaces : List String) : TypeDef :=
    { name, base, interfaces, fields := [⟨"tag", "System.Int32", false⟩], methods := [] }
  [⟨"App", [
      type "App.Stream" (some "App.Resource") ["App.IDisposable"],
      type "App.Resource" (some "System.Object") ["App.ICloseable"]]⟩,
    ⟨"Library", [
      type "App.Resource" (some "App.Stream") [],
      type "App.IDisposable" none ["App.ICloseable"],
      type "App.ICloseable" none []]⟩]

theorem Resolver.resolve_eq_entryOf?_diamond :
    ∃ acyclic : Acyclic (typesOf diamondAssemblies),
      let definitions := ofAssemblies diamondAssemblies
      let resolver := ["App.Resource", "System.Object", "App.Stream"].foldl
        (resolve definitions) empty
      resolver.table.find? "App.Stream" =
        (⟨typesOf diamondAssemblies, acyclic⟩ : Hierarchy).entryOf? "App.Stream" ∧
      (resolver.table.find? "App.Stream").map TypeEntry.supers =
        some ["App.ICloseable", "App.ICloseable", "App.IDisposable", "App.Resource"] := by
  have acyclic : Acyclic (typesOf diamondAssemblies) := acyclic_of_rank
    (fun name => ["App.ICloseable", "App.IDisposable", "App.Resource", "App.Stream"].idxOf name)
    (by decide +kernel)
  obtain ⟨recursion, returned, -⟩ := resolve_eq_entryOf? diamondAssemblies acyclic
  have found := (returned ["App.Resource", "System.Object"] "App.Stream").2
  refine ⟨acyclic, found, (congrArg _ found).trans ?_⟩
  generalize (⟨typesOf diamondAssemblies, acyclic⟩ : Hierarchy).entryOf? = entryOf at recursion ⊢
  simp [recursion "App.Stream", recursion "App.Resource", recursion "System.Object",
    recursion "App.IDisposable", recursion "App.ICloseable", declared?, typesOf,
    diamondAssemblies, TypeDef.parentNames, Hierarchy.inheriting]

end BytecodeFlow

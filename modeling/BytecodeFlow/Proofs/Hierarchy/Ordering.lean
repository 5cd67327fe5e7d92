/-
This file follows the order in which types are resolved. An entry is made once
the entries of all types that it mentions are there (`InOrder`), and it is made
only once. So inheritance as it is recorded has no cycle, even where the
metadata has one, and no type is in progress any more when all is done.
-/

import Mathlib.Data.List.Basic
import Mathlib.Data.List.Nodup
import Mathlib.Logic.Relation
import BytecodeFlow.Proofs.Hierarchy.Marking

namespace BytecodeFlow

/-- A relation between types has no cycle if it goes up in some ranking. -/
theorem not_transGen_of_rank {relation : String → String → Prop} (rank : String → Nat)
    (ascends : ∀ first second, relation first second → rank first < rank second) (name : String) :
    ¬ Relation.TransGen relation name name := by
  intro path
  have above := path.lift rank ascends
  rw [Relation.transGen_eq_self] at above
  exact Nat.lt_irrefl _ above

namespace TypeSlots

variable {definitions : Definitions} {slots before after final : TypeSlots} {name : String}
  {names : List String} {entry : TypeEntry} {entries : List TypeEntry}

theorem slot?_mark_self (slots : TypeSlots) (name : String) :
    (slots.mark name).slot? name = some .inProgress :=
  Function.update_self ..

theorem slot?_mark_of_ne {other : String} (different : other ≠ name) :
    (slots.mark name).slot? other = slots.slot? other :=
  Function.update_of_ne different ..

theorem slot?_store_self (slots : TypeSlots) (name : String) (entry : TypeEntry) :
    (slots.store name entry).slot? name = some (.resolved entry) :=
  Function.update_self ..

theorem slot?_store_of_ne {other : String} (different : other ≠ name) :
    (slots.store name entry).slot? other = slots.slot? other :=
  Function.update_of_ne different ..

/-! ### What stays -/

/-- Entries stay as they are, and the same types are in progress. -/
structure Grows (before after : TypeSlots) : Prop where
  resolved : ∀ {name entry}, before.slot? name = some (.resolved entry) →
    after.slot? name = some (.resolved entry)
  inProgress : ∀ {name}, after.slot? name = some .inProgress ↔
    before.slot? name = some .inProgress

theorem Grows.trans (first : Grows before slots) (second : Grows slots after) :
    Grows before after :=
  ⟨fun there => second.resolved (first.resolved there),
    second.inProgress.trans first.inProgress⟩

/-- What `Grows` from the `mark` of a type that was not turned to before also does so from the slots
without the mark, once a `store` has replaced it. -/
theorem Grows.replace_mark (fresh : before.slot? name = none)
    (grows : Grows (before.mark name) after) : Grows before (after.store name entry) where
  resolved := by
    intro other known there
    have different : other ≠ name := by
      rintro rfl
      cases fresh.symm.trans there
    rw [slot?_store_of_ne different]
    exact grows.resolved ((slot?_mark_of_ne different).trans there)
  inProgress := by
    intro other
    by_cases same : other = name
    · subst same
      rw [slot?_store_self, fresh]
      simp
    · rw [slot?_store_of_ne same, grows.inProgress, slot?_mark_of_ne same]

theorem Collects.grows (collects : Collects definitions before names entries after) :
    Grows before after := by
  induction collects with
  | nil slots => exact ⟨id, Iff.rfl⟩
  | known _ _ inductionHypothesis => exact inductionHypothesis
  | busy _ _ inductionHypothesis => exact inductionHypothesis
  | undeclared _ _ _ inductionHypothesis => exact inductionHypothesis
  | made fresh _ _ _ fromParents inductionHypothesis =>
    exact (fromParents.replace_mark fresh).trans inductionHypothesis

/-- A declared type that is asked for gets its entry, unless it is in progress. -/
theorem Collects.resolved_of_mem (collects : Collects definitions before names entries after)
    (asked : name ∈ names) (declared : name ∈ definitions)
    (idle : before.slot? name ≠ some .inProgress) :
    ∃ entry, after.slot? name = some (.resolved entry) := by
  induction collects with
  | nil slots => cases asked
  | known there further inductionHypothesis =>
    rcases List.mem_cons.mp asked with rfl | later
    · exact ⟨_, further.grows.resolved there⟩
    · exact inductionHypothesis later idle
  | busy marked _ inductionHypothesis =>
    rcases List.mem_cons.mp asked with rfl | later
    · exact absurd marked idle
    · exact inductionHypothesis later idle
  | undeclared _ unknown _ inductionHypothesis =>
    rcases List.mem_cons.mp asked with rfl | later
    · rw [Std.ExtTreeMap.mem_iff_isSome_getElem?, unknown] at declared
      cases declared
    · exact inductionHypothesis later idle
  | made fresh _ inherits further _ inductionHypothesis =>
    rcases List.mem_cons.mp asked with rfl | later
    · exact ⟨_, further.grows.resolved (slot?_store_self ..)⟩
    · refine inductionHypothesis later fun marked => idle ?_
      exact (inherits.grows.replace_mark fresh).inProgress.mp marked

/-! ### What comes first -/

/-- The history lists each type with an entry once, and after those that its entry mentions. -/
structure InOrder (definitions : Definitions) (slots : TypeSlots) : Prop where
  declared : ∀ {name}, slots.slot? name ≠ none → name ∈ definitions
  listed : ∀ {name}, name ∈ slots.history ↔ ∃ entry, slots.slot? name = some (.resolved entry)
  distinct : slots.history.Nodup
  named : ∀ {name entry}, slots.slot? name = some (.resolved entry) → entry.name = name
  earlier : ∀ {name entry}, slots.slot? name = some (.resolved entry) →
    ∃ later earlier, slots.history = later ++ name :: earlier ∧
      entry.parents ++ entry.supers ⊆ earlier

theorem inOrder_empty (definitions : Definitions) : InOrder definitions empty where
  declared some? := absurd rfl some?
  listed := by simp [empty]
  distinct := List.nodup_nil
  named there := by cases there
  earlier there := by cases there

/-- Whatever an entry mentions has an entry. -/
theorem InOrder.mentions (inOrder : InOrder definitions slots)
    (there : slots.slot? name = some (.resolved entry)) :
    entry.parents ++ entry.supers ⊆ slots.history := by
  obtain ⟨later, earlier, split, mentions⟩ := inOrder.earlier there
  rw [split]
  exact fun other mentioned => List.mem_append_right _ (List.mem_cons_of_mem _ (mentions mentioned))

theorem InOrder.mark (inOrder : InOrder definitions slots) (declared : name ∈ definitions)
    (fresh : slots.slot? name = none) : InOrder definitions (slots.mark name) := by
  have kept : ∀ {other known}, (slots.mark name).slot? other = some (.resolved known) ↔
      slots.slot? other = some (.resolved known) := by
    intro other known
    by_cases same : other = name
    · subst same
      rw [slot?_mark_self, fresh]
      simp
    · rw [slot?_mark_of_ne same]
  refine ⟨fun {other} turned => ?_, ?_, inOrder.distinct,
    fun there => inOrder.named (kept.mp there), fun there => inOrder.earlier (kept.mp there)⟩
  · by_cases same : other = name
    · exact same ▸ declared
    · rw [slot?_mark_of_ne same] at turned
      exact inOrder.declared turned
  · intro other
    simp only [kept]
    exact inOrder.listed

theorem InOrder.store (inOrder : InOrder definitions slots)
    (marked : slots.slot? name = some .inProgress) (named : entry.name = name)
    (mentions : entry.parents ++ entry.supers ⊆ slots.history) :
    InOrder definitions (slots.store name entry) := by
  have new : name ∉ slots.history := by
    intro again
    obtain ⟨_, there⟩ := inOrder.listed.mp again
    cases marked.symm.trans there
  refine ⟨fun {other} turned => ?_, fun {other} => ?_,
    List.nodup_cons.mpr ⟨new, inOrder.distinct⟩, fun {other known} there => ?_,
    fun {other known} there => ?_⟩
  · by_cases same : other = name
    · refine same ▸ inOrder.declared ?_
      rw [marked]
      exact Option.some_ne_none _
    · rw [slot?_store_of_ne same] at turned
      exact inOrder.declared turned
  · by_cases same : other = name
    · subst same
      simp [TypeSlots.store]
    · rw [slot?_store_of_ne same, ← inOrder.listed]
      simp [TypeSlots.store, same]
  · by_cases same : other = name
    · subst same
      rw [slot?_store_self] at there
      cases there
      exact named
    · rw [slot?_store_of_ne same] at there
      exact inOrder.named there
  · by_cases same : other = name
    · subst same
      rw [slot?_store_self] at there
      cases there
      exact ⟨[], slots.history, rfl, mentions⟩
    · rw [slot?_store_of_ne same] at there
      obtain ⟨later, earlier, split, before⟩ := inOrder.earlier there
      exact ⟨name :: later, earlier, congrArg (name :: ·) split, before⟩

/-- An entry that is made of others mentions only what is there. -/
theorem InOrder.mentions_ofDefinition (inOrder : InOrder definitions slots)
    {parents : List TypeEntry} (definition : TypeDef)
    (there : ∀ parent ∈ parents, slots.slot? parent.name = some (.resolved parent)) :
    (TypeEntry.ofDefinition definition parents).parents ++
      (TypeEntry.ofDefinition definition parents).supers ⊆ slots.history := by
  have names : parents.map TypeEntry.name ⊆ slots.history := by
    intro other mentioned
    obtain ⟨parent, isParent, rfl⟩ := List.mem_map.mp mentioned
    exact inOrder.listed.mpr ⟨parent, there parent isParent⟩
  have supers : parents.flatMap TypeEntry.supers ⊆ slots.history := by
    intro other mentioned
    obtain ⟨parent, isParent, isSuper⟩ := List.mem_flatMap.mp mentioned
    exact inOrder.mentions (there parent isParent) (List.mem_append_right _ isSuper)
  exact List.append_subset.mpr ⟨names, List.append_subset.mpr ⟨supers, names⟩⟩

/-- What `Collects` leaves is `InOrder`, and the entries that it gives are there in the end. -/
theorem Collects.inOrder (named : definitions.Named)
    (collects : Collects definitions before names entries after)
    (inOrder : InOrder definitions before) :
    InOrder definitions after ∧
      ∀ entry ∈ entries, after.slot? entry.name = some (.resolved entry) := by
  induction collects with
  | nil slots => exact ⟨inOrder, fun _ listed => by cases listed⟩
  | known there further inductionHypothesis =>
    obtain ⟨ordered, collected⟩ := inductionHypothesis inOrder
    refine ⟨ordered, List.forall_mem_cons.mpr ⟨?_, collected⟩⟩
    rw [inOrder.named there]
    exact further.grows.resolved there
  | busy _ _ inductionHypothesis => exact inductionHypothesis inOrder
  | undeclared _ _ _ inductionHypothesis => exact inductionHypothesis inOrder
  | @made slots middle final name definition rest parents entries fresh declared inherits further
      fromParents inductionHypothesis =>
    have isDeclared : name ∈ definitions :=
      Std.ExtTreeMap.mem_iff_isSome_getElem?.mpr (by simp [declared])
    have same : (TypeEntry.ofDefinition definition parents).name = name := named _ _ declared
    obtain ⟨parentsOrdered, parentsThere⟩ := fromParents (inOrder.mark isDeclared fresh)
    have marked : middle.slot? name = some .inProgress :=
      inherits.grows.inProgress.mpr (slot?_mark_self ..)
    obtain ⟨ordered, collected⟩ := inductionHypothesis (parentsOrdered.store marked same
      (parentsOrdered.mentions_ofDefinition definition parentsThere))
    refine ⟨ordered, List.forall_mem_cons.mpr ⟨?_, collected⟩⟩
    rw [same]
    exact further.grows.resolved (slot?_store_self ..)

end TypeSlots

/-! ### Tables -/

namespace TypeTable

/-- The entry of one type was made before that of another, by the history of the table. -/
def FinishedBefore (table : TypeTable) (first second : String) : Prop :=
  ∃ later earlier, table.history = later ++ second :: earlier ∧ first ∈ earlier

/-- The types of a table, each with those it inherits from directly. -/
def drawing (table : TypeTable) : List (String × List String) :=
  table.toList.map fun entry => (entry.name, entry.parents)

/-- The text of a `drawing`, with a line for each type and for each of its edges. -/
def dotOfDrawing (drawing : List (String × List String)) : String :=
  let node (name : String) : String := "\"" ++ name ++ "\""
  "digraph tenv \x7b\n  rankdir=BT;\n  node [shape=box];\n" ++
    String.join (drawing.map fun (name, parents) =>
      "  " ++ node name ++ ";\n" ++
        String.join (parents.map fun parent =>
          "  " ++ node name ++ " -> " ++ node parent ++ ";\n")) ++
    "\x7d\n"

/-- There is an edge between two types in the `drawing` of a table. -/
def Draws (table : TypeTable) (child parent : String) : Prop :=
  ∃ parents, (child, parents) ∈ table.drawing ∧ parent ∈ parents

variable {definitions : Definitions} {table : TypeTable} {first second name : String}
  {entry : TypeEntry}

/-- All that `toDot` shows of a table is its `drawing`. -/
theorem toDot_eq_dotOfDrawing (table : TypeTable) : table.toDot = dotOfDrawing table.drawing := by
  unfold toDot dotOfDrawing drawing
  dsimp only
  rw [List.map_map]
  rfl

/-- A table that nobody is working on is in order. -/
def InOrder (definitions : Definitions) (table : TypeTable) : Prop :=
  (TypeSlots.ofTable definitions definitions table).InOrder definitions

theorem slot?_ofTable_eq_resolved :
    (TypeSlots.ofTable definitions definitions table).slot? name = some (.resolved entry) ↔
      table.find? name = some entry := by
  cases found : table.find? name with
  | some other => simp [TypeSlots.slot?_ofTable_of_some found]
  | none => simp [TypeSlots.slot?_ofTable_of_none definitions definitions found]

theorem slot?_ofTable_ne_inProgress (definitions : Definitions) (table : TypeTable)
    (name : String) :
    (TypeSlots.ofTable definitions definitions table).slot? name ≠ some .inProgress := by
  cases found : table.find? name with
  | some other => simp [TypeSlots.slot?_ofTable_of_some found]
  | none => simp [TypeSlots.slot?_ofTable_of_none definitions definitions found]

namespace InOrder

theorem mem_history (inOrder : table.InOrder definitions) :
    name ∈ table.history ↔ name ∈ table.entries := by
  rw [Resolver.mem_entries_iff]
  refine inOrder.listed.trans (exists_congr fun entry => ?_)
  exact slot?_ofTable_eq_resolved

/-- The history of a table that is `InOrder` lists each entry once. -/
theorem count_history (inOrder : table.InOrder definitions) (name : String) :
    table.history.count name = if name ∈ table.entries then 1 else 0 := by
  have distinct : table.history.Nodup := inOrder.distinct
  rw [distinct.count]
  simp only [inOrder.mem_history]

/-- As many entries were made as there are. -/
theorem resolutions_eq_size (inOrder : table.InOrder definitions) :
    table.resolutions = table.size := by
  have perm : table.history.Perm table.entries.keys := by
    refine (List.perm_ext_iff_of_nodup inOrder.distinct Std.ExtTreeMap.nodup_keys).mpr ?_
    exact fun name => inOrder.mem_history.trans Std.ExtTreeMap.mem_keys.symm
  exact perm.length_eq.trans Std.ExtTreeMap.length_keys

theorem finishedBefore (inOrder : table.InOrder definitions)
    (found : table.find? name = some entry) {mentioned : String}
    (mentions : mentioned ∈ entry.parents ++ entry.supers) :
    table.FinishedBefore mentioned name := by
  obtain ⟨later, earlier, split, before⟩ := inOrder.earlier (slot?_ofTable_eq_resolved.mpr found)
  exact ⟨later, earlier, split, before mentions⟩

/-- The later of two types comes first in the history. -/
theorem idxOf_lt (inOrder : table.InOrder definitions)
    (before : table.FinishedBefore first second) :
    table.history.idxOf second < table.history.idxOf first := by
  obtain ⟨later, earlier, split, isEarlier⟩ := before
  have distinct : (later ++ second :: earlier).Nodup := split ▸ inOrder.distinct
  obtain ⟨-, distinctEarlier, apart⟩ := List.nodup_append.mp distinct
  have secondNew : second ∉ later := fun again => apart _ again _ List.mem_cons_self rfl
  have firstNew : first ∉ later :=
    fun again => apart _ again _ (List.mem_cons_of_mem _ isEarlier) rfl
  have different : second ≠ first := by
    rintro rfl
    exact (List.nodup_cons.mp distinctEarlier).1 isEarlier
  rw [split, List.idxOf_append_of_notMem secondNew, List.idxOf_append_of_notMem firstNew,
    List.idxOf_cons_self, List.idxOf_cons_ne _ different]
  omega

theorem find?_of_mem_drawing (inOrder : table.InOrder definitions) {parents : List String}
    (drawn : (name, parents) ∈ table.drawing) :
    ∃ entry, table.find? name = some entry ∧ entry.parents = parents := by
  obtain ⟨entry, listed, same⟩ := List.mem_map.mp drawn
  obtain ⟨rfl, rfl⟩ := Prod.mk.inj same
  obtain ⟨⟨key, _⟩, member, rfl⟩ := List.mem_map.mp listed
  have found := Std.ExtTreeMap.mem_toList_iff_getElem?_eq_some.mp member
  rw [inOrder.named (slot?_ofTable_eq_resolved.mpr found)]
  exact ⟨_, found, rfl⟩

/-- `Draws` has no cycle: the edges of a drawing lead back in the history. -/
theorem acyclic (inOrder : table.InOrder definitions) (name : String) :
    ¬ Relation.TransGen table.Draws name name := by
  refine not_transGen_of_rank table.history.idxOf ?_ name
  rintro child parent ⟨parents, drawn, isParent⟩
  obtain ⟨entry, found, rfl⟩ := inOrder.find?_of_mem_drawing drawn
  exact inOrder.idxOf_lt (inOrder.finishedBefore found (List.mem_append_left _ isParent))

theorem notMem_supers (inOrder : table.InOrder definitions)
    (found : table.find? name = some entry) : name ∉ entry.supers := by
  intro isSuper
  have before := inOrder.finishedBefore found (List.mem_append_right _ isSuper)
  exact Nat.lt_irrefl _ (inOrder.idxOf_lt before)

end InOrder

end TypeTable

namespace Resolver

theorem inOrder_foldl_resolve {definitions : Definitions} (named : definitions.Named)
    (requests : List String) :
    (requests.foldl (resolve definitions) empty).table.InOrder definitions := by
  obtain ⟨entries, collects⟩ := collects_requests named requests
  exact (collects.inOrder named (TypeSlots.inOrder_empty definitions)).1

/-- Once all declared types are resolved, the table has entries for just these. -/
theorem mem_entries_resolveAll (assemblies : List Assembly) (name : String) :
    name ∈ (resolveAll assemblies).table.entries ↔
      name ∈ (Definitions.typesOf assemblies).map TypeDef.name := by
  let definitions := Definitions.ofAssemblies assemblies
  let names := (Definitions.typesOf assemblies).map TypeDef.name
  have named : definitions.Named := Definitions.named_ofTypes _
  have inOrder := inOrder_foldl_resolve named names
  obtain ⟨entries, collects⟩ := collects_requests named names
  have same : (resolveAll assemblies).table = (names.foldl (resolve definitions) empty).table := rfl
  rw [same, mem_entries_iff, ← Definitions.mem_ofTypes]
  constructor
  · rintro ⟨entry, found⟩
    refine inOrder.declared ?_
    rw [TypeTable.slot?_ofTable_eq_resolved.mpr found]
    exact Option.some_ne_none _
  · intro declared
    obtain ⟨entry, there⟩ := collects.resolved_of_mem (Definitions.mem_ofTypes.mp declared) declared
      fun marked => nomatch marked
    exact ⟨entry, TypeTable.slot?_ofTable_eq_resolved.mp there⟩

/-- Resolving types, in whatever order, comes to an end. With marks set on the way
(`TypeSlots.Collects`) there is exactly one outcome: no type is left in progress, and the rest is
the table. Each entry in it was made once, after those of all types that it mentions
(`FinishedBefore`), so inheritance as `toDot` draws it has no cycle and no type is among its own
supertypes. `resolveAll` makes entries for just the declared types. -/
theorem resolve_orderly (assemblies : List Assembly) (requests : List String) :
    let definitions := Definitions.ofAssemblies assemblies
    let table := (requests.foldl (resolve definitions) empty).table
    (∃ entries final, TypeSlots.Collects definitions .empty requests entries final ∧
      (∀ otherEntries other, TypeSlots.Collects definitions .empty requests otherEntries other →
        otherEntries = entries ∧ other = final) ∧
      (∀ name, final.slot? name ≠ some .inProgress) ∧
      (∀ name entry, final.slot? name = some (.resolved entry) ↔
        table.find? name = some entry) ∧
      final.history = table.history) ∧
    table.resolutions = table.size ∧
    (∀ name, table.history.count name = if name ∈ table.entries then 1 else 0) ∧
    (∀ name entry, table.find? name = some entry →
      ∀ mentioned ∈ entry.parents ++ entry.supers,
        mentioned ∈ table.entries ∧ table.FinishedBefore mentioned name) ∧
    table.toDot = TypeTable.dotOfDrawing table.drawing ∧
    (∀ name, ¬ Relation.TransGen table.Draws name name) ∧
    (∀ name entry, table.find? name = some entry → name ∉ entry.supers) ∧
    ∀ name, name ∈ (resolveAll assemblies).table.entries ↔
      ∃ assembly ∈ assemblies, ∃ definition ∈ assembly.types, definition.name = name := by
  intro definitions table
  have named : definitions.Named := Definitions.named_ofTypes _
  have inOrder : table.InOrder definitions := inOrder_foldl_resolve named requests
  refine ⟨?_, inOrder.resolutions_eq_size, inOrder.count_history, ?_, table.toDot_eq_dotOfDrawing,
    inOrder.acyclic, fun name entry => inOrder.notMem_supers,
    fun name => (mem_entries_resolveAll assemblies name).trans Definitions.mem_names_typesOf⟩
  · obtain ⟨entries, collects⟩ := collects_requests named requests
    refine ⟨entries, _, collects, fun otherEntries other otherCollects => ?_,
      TypeTable.slot?_ofTable_ne_inProgress definitions table,
      fun name entry => TypeTable.slot?_ofTable_eq_resolved, rfl⟩
    exact otherCollects.functional collects
  · intro name entry found mentioned mentions
    have before := inOrder.finishedBefore found mentions
    refine ⟨inOrder.mem_history.mp ?_, before⟩
    obtain ⟨later, earlier, split, isEarlier⟩ := before
    rw [split]
    exact List.mem_append_right _ (List.mem_cons_of_mem _ isEarlier)

end Resolver

end BytecodeFlow

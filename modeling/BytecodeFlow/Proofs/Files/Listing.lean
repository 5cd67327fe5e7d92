/-
This file says when two trees of files differ in nothing but the order in which
directories and bundles list their entries (`FileTree.Rearranged`). Where names
are `Distinct`, a path leads to trees that again differ in nothing else, so
what `FileSystem.find?` finds does not depend on how it is listed.
-/

import Mathlib.Data.List.Nodup
import BytecodeFlow.Files.Tree

namespace BytecodeFlow

namespace FileTree

/-- What holds of files, and of a directory if it holds of all its entries, holds of every tree. -/
theorem inductionOn {property : FileTree → Prop} (file : ∀ content, property (.file content))
    (directory : ∀ children : List (String × FileTree), (∀ entry ∈ children, property entry.2) →
      property (.directory children)) (tree : FileTree) : property tree := by
  refine @FileTree.rec property (fun children => ∀ entry ∈ children, property entry.2)
    (fun entry => property entry.2) file directory ?_ ?_ ?_ tree
  · exact fun _ member => absurd member List.not_mem_nil
  · exact fun _ _ first rest => List.forall_mem_cons.mpr ⟨first, rest⟩
  · exact fun _ _ holds => holds

/-- In every directory and in every bundle of a tree the names are distinct. -/
inductive Distinct : FileTree → Prop
  | text (text : String) : Distinct (.file (.text text))
  | binary : Distinct (.file .binary)
  | bundle {entries : List (String × Option String)} (names : (entries.map Prod.fst).Nodup) :
    Distinct (.file (.bundle entries))
  | directory {children : List (String × FileTree)} (names : (children.map Prod.fst).Nodup)
    (below : ∀ entry ∈ children, Distinct entry.2) : Distinct (.directory children)

/-- A tree becomes another by listing the entries of directories and bundles in other orders. -/
inductive Rearranged : FileTree → FileTree → Prop
  | refl (tree : FileTree) : Rearranged tree tree
  | trans {first second third : FileTree} (former : Rearranged first second)
    (latter : Rearranged second third) : Rearranged first third
  | bundle {entries others : List (String × Option String)} (perm : entries.Perm others) :
    Rearranged (.file (.bundle entries)) (.file (.bundle others))
  | directory {children others : List (String × FileTree)} (perm : children.Perm others) :
    Rearranged (.directory children) (.directory others)
  /-- Something is rearranged in one entry of a directory. -/
  | entry (before after : List (String × FileTree)) (name : String) {child other : FileTree}
    (inside : Rearranged child other) :
    Rearranged (.directory (before ++ (name, child) :: after))
      (.directory (before ++ (name, other) :: after))

namespace Distinct

theorem of_directory {children : List (String × FileTree)}
    (distinct : Distinct (.directory children)) :
    (children.map Prod.fst).Nodup ∧ ∀ entry ∈ children, Distinct entry.2 := by
  cases distinct with
  | directory names below => exact ⟨names, below⟩

theorem of_bundle {entries : List (String × Option String)}
    (distinct : Distinct (.file (.bundle entries))) : (entries.map Prod.fst).Nodup := by
  cases distinct with
  | bundle names => exact names

theorem rearranged {first second : FileTree} (distinct : first.Distinct)
    (rearranged : first.Rearranged second) : second.Distinct := by
  induction rearranged with
  | refl => exact distinct
  | trans _ _ former latter => exact latter (former distinct)
  | bundle perm => exact .bundle ((perm.map Prod.fst).nodup_iff.mp distinct.of_bundle)
  | directory perm =>
    obtain ⟨names, below⟩ := distinct.of_directory
    exact .directory ((perm.map Prod.fst).nodup_iff.mp names)
      fun entry member => below entry (perm.mem_iff.mpr member)
  | entry before after name inside inductionHypothesis =>
    obtain ⟨names, below⟩ := distinct.of_directory
    refine .directory (by simpa using names) fun entry member => ?_
    rcases List.mem_append.mp member with earlier | later
    · exact below entry (List.mem_append_left _ earlier)
    · rcases List.mem_cons.mp later with rfl | last
      · exact inductionHypothesis (below _ (List.mem_append_right _ List.mem_cons_self))
      · exact below entry (List.mem_append_right _ (List.mem_cons_of_mem _ last))

end Distinct

/-! ### Looking up -/

/-- Where names are distinct, an entry is found under its name. -/
theorem lookup_eq_some {Entry : Type} {entries : List (String × Entry)}
    (names : (entries.map Prod.fst).Nodup) {name : String} {entry : Entry} :
    entries.lookup name = some entry ↔ (name, entry) ∈ entries := by
  rw [List.lookup_eq_some_iff]
  constructor
  · rintro ⟨before, after, rfl, -⟩
    exact List.mem_append_right _ List.mem_cons_self
  · intro member
    obtain ⟨before, after, rfl⟩ := List.append_of_mem member
    refine ⟨before, after, rfl, fun other earlier => bne_iff_ne.mpr ?_⟩
    rintro rfl
    rw [List.map_append, List.map_cons] at names
    exact (List.nodup_append.mp names).2.2 _ (List.mem_map_of_mem earlier) _ List.mem_cons_self rfl

theorem lookup_perm {Entry : Type} {entries others : List (String × Entry)}
    (perm : entries.Perm others) (names : (entries.map Prod.fst).Nodup) (name : String) :
    entries.lookup name = others.lookup name := by
  refine Option.ext fun entry => ?_
  rw [lookup_eq_some names, lookup_eq_some ((perm.map Prod.fst).nodup_iff.mp names), perm.mem_iff]

theorem Distinct.get? {root tree : FileTree} (distinct : root.Distinct) {names : List String}
    (found : root.get? names = some tree) : tree.Distinct := by
  induction names generalizing root with
  | nil =>
    cases found
    exact distinct
  | cons name rest inductionHypothesis =>
    obtain ⟨child, entered, further⟩ := Option.bind_eq_some_iff.mp found
    cases root with
    | file => cases entered
    | directory entries =>
      obtain ⟨names, below⟩ := distinct.of_directory
      exact inductionHypothesis (below _ ((lookup_eq_some names).mp entered)) further

/-- Two searches find nothing, or trees of which one is `Rearranged` from the other. -/
abbrev Alike : Option FileTree → Option FileTree → Prop := Option.Rel Rearranged

theorem Alike.refl (found : Option FileTree) : Alike found found := by
  cases found with
  | none => exact .none
  | some tree => exact .some (.refl tree)

theorem Alike.trans {first second third : Option FileTree} (former : Alike first second)
    (latter : Alike second third) : Alike first third := by
  cases former with
  | none => exact latter
  | some former =>
    cases latter with
    | some latter => exact .some (former.trans latter)

theorem Alike.of_none {found : Option FileTree} (alike : Alike none found) : found = none := by
  cases alike
  rfl

theorem Alike.of_some {tree : FileTree} {found : Option FileTree}
    (alike : Alike (some tree) found) : ∃ other, found = some other ∧ tree.Rearranged other := by
  cases alike with
  | some rearranged => exact ⟨_, rfl, rearranged⟩

theorem Alike.isSome_eq {first second : Option FileTree} (alike : Alike first second) :
    first.isSome = second.isSome := by
  cases alike with
  | none | some => rfl

theorem get?_append (tree : FileTree) (names more : List String) :
    tree.get? (names ++ more) = (tree.get? names).bind fun found => found.get? more := by
  induction names generalizing tree with
  | nil => rfl
  | cons name rest inductionHypothesis =>
    rw [List.cons_append, FileTree.get?, FileTree.get?, Option.bind_assoc]
    exact Option.bind_congr fun child _ => inductionHypothesis child

namespace Rearranged

variable {root other : FileTree}

theorem isDirectory (rearranged : root.Rearranged other) :
    root.isDirectory = other.isDirectory := by
  induction rearranged with
  | refl | bundle | directory | entry => rfl
  | trans _ _ former latter => exact former.trans latter

/-- In `Rearranged` trees, names lead to `Rearranged` trees. -/
theorem get? (rearranged : root.Rearranged other) (distinct : root.Distinct)
    (names : List String) : Alike (root.get? names) (other.get? names) := by
  induction rearranged generalizing names with
  | refl => exact .refl _
  | trans former _ first second =>
    exact (first distinct names).trans (second (distinct.rearranged former) names)
  | @bundle entries others perm =>
    cases names with
    | nil => exact .some (.bundle perm)
    | cons => exact .none
  | directory perm =>
    cases names with
    | nil => exact .some (.directory perm)
    | cons name rest =>
      rw [FileTree.get?, FileTree.get?, children, children,
        lookup_perm perm distinct.of_directory.1]
      exact .refl _
  | @entry before after place child changed inside inductionHypothesis =>
    cases names with
    | nil => exact .some (.entry before after place inside)
    | cons name rest =>
      have below := distinct.of_directory.2 _ (List.mem_append_right before List.mem_cons_self)
      rw [FileTree.get?, FileTree.get?, children, children, List.lookup_append,
        List.lookup_append]
      cases before.lookup name with
      | some => exact .refl _
      | none =>
        rw [Option.none_or, Option.none_or, List.lookup_cons, List.lookup_cons]
        by_cases same : name == place
        · rw [same]
          exact inductionHypothesis below rest
        · rw [Bool.not_eq_true] at same
          rw [same]
          exact .refl _

/-! ### Following paths -/

/-- Where a directory is reached, the tree that is `Rearranged` from it has one with the same
names. -/
theorem directory_of_get? (rearranged : root.Rearranged other) (distinct : root.Distinct)
    {names : List String} {entries : List (String × FileTree)}
    (found : root.get? names = some (.directory entries)) :
    ∃ others, other.get? names = some (.directory others) ∧
      ∀ name, (entries.lookup name).isSome = (others.lookup name).isSome := by
  have reached := rearranged.get? distinct names
  rw [found] at reached
  obtain ⟨tree, foundOther, inside⟩ := reached.of_some
  cases tree with
  | file => cases inside.isDirectory
  | directory others =>
    refine ⟨others, foundOther, fun name => ?_⟩
    have further := (rearranged.get? distinct (names ++ [name])).isSome_eq
    rw [get?_append, get?_append, found, foundOther] at further
    simpa [FileTree.get?, children] using further

theorem follow (rearranged : root.Rearranged other) (distinct : root.Distinct)
    (here parts : List String) : root.follow here parts = other.follow here parts := by
  induction parts generalizing here with
  | nil => rfl
  | cons part rest inductionHypothesis =>
    have reached := rearranged.get? distinct here.reverse
    unfold FileTree.follow
    cases found : root.get? here.reverse with
    | none =>
      rw [found] at reached
      rw [reached.of_none]
    | some tree =>
      cases tree with
      | file content =>
        rw [found] at reached
        obtain ⟨tree, foundOther, inside⟩ := reached.of_some
        rw [foundOther]
        cases tree with
        | file => rfl
        | directory => cases inside.isDirectory
      | directory entries =>
        obtain ⟨others, foundOther, same⟩ := rearranged.directory_of_get? distinct found
        rw [foundOther]
        simp only [inductionHypothesis, same]

end Rearranged

end FileTree

namespace FileSystem

/-- Two file systems have the same working directory, and differ in nothing but the order in which
directories and bundles list their entries. -/
structure Rearranged (system other : FileSystem) : Prop where
  root : system.root.Rearranged other.root
  working : system.working = other.working

variable {system other : FileSystem} {tree : FileTree} {path : String}

theorem find?_eq_some (found : system.find? path = some tree) :
    Path.canBeFollowed path ∧ ∃ names, system.root.get? names = some tree := by
  unfold find? at found
  split at found
  case isTrue => cases found
  case isFalse possible =>
    rw [Bool.or_eq_true, not_or, Bool.not_eq_true', Bool.not_eq_false] at possible
    obtain ⟨here, -, reached⟩ := Option.bind_eq_some_iff.mp found
    exact ⟨possible.2, here.reverse, reached⟩

theorem Rearranged.find? (rearranged : system.Rearranged other) (distinct : system.root.Distinct)
    (path : String) : FileTree.Alike (system.find? path) (other.find? path) := by
  have origin : system.origin path = other.origin path := by
    unfold FileSystem.origin
    rw [rearranged.working]
  unfold FileSystem.find?
  rw [origin, rearranged.root.follow distinct]
  split
  · exact .none
  · cases other.root.follow (other.origin path) (Path.parts path) with
    | none => exact .none
    | some here => exact rearranged.root.get? distinct here.reverse

end FileSystem

end BytecodeFlow

/-
This file proves that `scanSources` depends neither on the order in which
directories and bundles list their entries nor on the order in which references
are given. It also says what a scan collects when it succeeds (`Scan.Yields`):
an assembly for each JSON file at or below a path and for each JSON entry of
the bundles there, and nothing else.
-/

import Mathlib.Data.List.Perm.Basic
import Mathlib.Data.List.Permutation
import BytecodeFlow.Files.Scan
import BytecodeFlow.Proofs.Files.Listing

namespace BytecodeFlow

/-- A sort by keys that tell the items apart does not depend on the order of the items. -/
theorem mergeSort_eq_of_perm {Item : Type} (key : Item → String) {items others : List Item}
    (perm : items.Perm others)
    (apart : ∀ item ∈ items, ∀ other ∈ items, key item = key other → item = other) :
    (items.mergeSort fun left right => key left ≤ key right) =
      others.mergeSort fun left right => key left ≤ key right := by
  have sorted : ∀ list : List Item, (list.mergeSort fun left right => key left ≤ key right).Pairwise
      fun left right => key left ≤ key right := by
    intro list
    refine (List.pairwise_mergeSort ?_ ?_ list).imp of_decide_eq_true
    · simpa using fun first second third => String.le_trans
    · simpa using fun first second => String.le_total (key first) (key second)
  refine List.Perm.eq_of_pairwise (fun item other inItems inOthers le ge => ?_) (sorted items)
    (sorted others)
    (((List.mergeSort_perm items _).trans perm).trans (List.mergeSort_perm others _).symm)
  exact apart item (List.mem_mergeSort.mp inItems) other
    (perm.mem_iff.mpr (List.mem_mergeSort.mp inOthers)) (String.le_antisymm le ge)

namespace Scan

/-! ### Kinds of files -/

section Kinds

variable {path : String} {wasAskedFor : Bool}

theorem ofFile_of_json (json : Path.extension? path = some "json") (content : Content) :
    ofFile path (some content) wasAskedFor = ofText content.text? (.malformed path) := by
  unfold ofFile
  rw [json]
  rfl

theorem ofFile_of_zip (zip : Path.extension? path = some "zip")
    (entries : List (String × Option String)) :
    ofFile path (some (.bundle entries)) wasAskedFor = ofBundle path entries := by
  unfold ofFile
  rw [zip]
  rfl

/-- A file of another kind is passed over, unless it was asked for. -/
theorem ofFile_of_other (notJson : Path.extension? path ≠ some "json")
    (notZip : Path.extension? path ≠ some "zip") (content : Option Content) :
    ofFile path content wasAskedFor =
      if wasAskedFor then fail (.unsupported path)
      else ⟨[], 0, [.debug ("ignoring " ++ path)], none⟩ := by
  unfold ofFile
  split
  case h_6 => rfl
  all_goals contradiction

end Kinds

/-! ### The order of entries -/

theorem inOrder_perm {scans others : List (String × Scan)} (perm : scans.Perm others)
    (names : (scans.map Prod.fst).Nodup) : inOrder scans = inOrder others := by
  unfold inOrder
  rw [mergeSort_eq_of_perm Prod.fst perm fun _ member _ other =>
    List.inj_on_of_nodup_map names member other]

theorem ofBundle_perm {entries others : List (String × Option String)}
    (perm : entries.Perm others) (names : (entries.map Prod.fst).Nodup) (path : String) :
    ofBundle path entries = ofBundle path others := by
  refine inOrder_perm ((perm.filter _).map _) ?_
  rw [List.map_map]
  exact names.sublist (List.filter_sublist.map Prod.fst)

theorem ofEntries_eq_map (path : String) (children : List (String × FileTree)) :
    ofEntries path children =
      children.map fun (name, child) => (name, ofEntry (Path.join path name) child) := by
  induction children with
  | nil => rfl
  | cons entry rest inductionHypothesis => rw [ofEntries, inductionHypothesis, List.map_cons]

theorem map_fst_ofEntries (path : String) (children : List (String × FileTree)) :
    (ofEntries path children).map Prod.fst = children.map Prod.fst := by
  rw [ofEntries_eq_map, List.map_map]
  rfl

theorem ofFile_bundle_perm {entries others : List (String × Option String)}
    (perm : entries.Perm others) (names : (entries.map Prod.fst).Nodup) (path : String)
    (wasAskedFor : Bool) :
    ofFile path (some (.bundle entries)) wasAskedFor =
      ofFile path (some (.bundle others)) wasAskedFor := by
  by_cases json : Path.extension? path = some "json"
  · rw [ofFile_of_json json, ofFile_of_json json]
    rfl
  · by_cases zip : Path.extension? path = some "zip"
    · rw [ofFile_of_zip zip, ofFile_of_zip zip, ofBundle_perm perm names]
    · rw [ofFile_of_other json zip, ofFile_of_other json zip]

theorem ofEntry_rearranged {tree other : FileTree} (rearranged : tree.Rearranged other)
    (distinct : tree.Distinct) (path : String) : ofEntry path tree = ofEntry path other := by
  induction rearranged generalizing path with
  | refl => rfl
  | trans former _ first second =>
    exact (first distinct path).trans (second (distinct.rearranged former) path)
  | bundle perm =>
    rw [ofEntry, ofEntry]
    split
    · exact ofFile_bundle_perm perm distinct.of_bundle path false
    · rfl
  | @directory children others perm =>
    have same : inOrder (ofEntries path children) = inOrder (ofEntries path others) := by
      refine inOrder_perm ?_ (map_fst_ofEntries path children ▸ distinct.of_directory.1)
      rw [ofEntries_eq_map, ofEntries_eq_map]
      exact perm.map _
    rw [ofEntry, ofEntry, same]
  | @entry before after name child changed inside inductionHypothesis =>
    have below := distinct.of_directory.2 _ (List.mem_append_right before List.mem_cons_self)
    have same := inductionHypothesis below (Path.join path name)
    rw [ofEntry, ofEntry, ofEntries_eq_map, ofEntries_eq_map]
    simp only [List.map_append, List.map_cons, same]

/-- The scan of what `FileSystem.find?` gives for a path that was asked for. -/
def ofFound (path : String) : FileTree → Scan
  | .file content => ofFile path (some content) true
  | .directory children => ofEntry path (.directory children)

theorem ofFound_rearranged {tree other : FileTree} (rearranged : tree.Rearranged other)
    (distinct : tree.Distinct) (path : String) : ofFound path tree = ofFound path other := by
  induction rearranged with
  | refl => rfl
  | trans former _ first second =>
    exact (first distinct).trans (second (distinct.rearranged former))
  | bundle perm => exact ofFile_bundle_perm perm distinct.of_bundle path true
  | directory perm => exact ofEntry_rearranged (.directory perm) distinct path
  | entry before after name inside =>
    exact ofEntry_rearranged (.entry before after name inside) distinct path

theorem ofPath_of_found {find : Lookup} {path : String} {tree : FileTree}
    (found : find path = some tree) : ofPath find path = ofFound path tree := by
  unfold ofPath
  rw [found]
  cases tree with
  | file | directory => rfl

theorem ofPath_rearranged {system other : FileSystem} (rearranged : system.Rearranged other)
    (distinct : system.root.Distinct) (path : String) :
    ofPath system.find? path = ofPath other.find? path := by
  have alike := rearranged.find? distinct path
  cases found : system.find? path with
  | none =>
    rw [found] at alike
    rw [ofPath, ofPath, found, alike.of_none]
  | some tree =>
    rw [found] at alike
    obtain ⟨changed, foundOther, inside⟩ := alike.of_some
    rw [ofPath_of_found found, ofPath_of_found foundOther]
    obtain ⟨-, names, reached⟩ := FileSystem.find?_eq_some found
    exact ofFound_rearranged inside (distinct.get? reached) path

/-! ### Scans one after the other -/

theorem failure_append (first second : Scan) :
    (first.append second).failure = first.failure.or second.failure := by
  unfold append
  cases failed : first.failure with
  | some => exact failed
  | none => rfl

theorem append_of_success {first : Scan} (succeeds : first.failure = none) (second : Scan) :
    first.append second =
      ⟨first.assemblies ++ second.assemblies, first.typeCount + second.typeCount,
        first.messages ++ second.messages, second.failure⟩ := by
  rw [append, succeeds]

/-- A sequence of scans succeeds if each of them does. -/
theorem failure_concat_eq_none {scans : List Scan} :
    (concat scans).failure = none ↔ ∀ scan ∈ scans, scan.failure = none := by
  induction scans with
  | nil => exact ⟨fun _ _ member => absurd member List.not_mem_nil, fun _ => rfl⟩
  | cons first rest inductionHypothesis =>
    rw [List.forall_mem_cons, ← inductionHypothesis, ← Option.or_eq_none_iff, ← failure_append]
    rfl

theorem assemblies_concat {scans : List Scan} (succeed : ∀ scan ∈ scans, scan.failure = none) :
    (concat scans).assemblies = scans.flatMap Scan.assemblies := by
  induction scans with
  | nil => rfl
  | cons first rest inductionHypothesis =>
    obtain ⟨head, tail⟩ := List.forall_mem_cons.mp succeed
    show (first.append (concat rest)).assemblies = _
    rw [append_of_success head, List.flatMap_cons, inductionHypothesis tail]

theorem failure_inOrder_eq_none {scans : List (String × Scan)} :
    (inOrder scans).failure = none ↔ ∀ scan ∈ scans, scan.2.failure = none := by
  unfold inOrder
  simp only [failure_concat_eq_none, List.forall_mem_map, List.mem_mergeSort]

theorem assemblies_inOrder {scans : List (String × Scan)}
    (succeed : ∀ scan ∈ scans, scan.2.failure = none) :
    (inOrder scans).assemblies.Perm (scans.flatMap fun scan => scan.2.assemblies) := by
  rw [inOrder, assemblies_concat (failure_concat_eq_none.mp (failure_inOrder_eq_none.mpr succeed)),
    List.flatMap_map]
  exact (List.mergeSort_perm scans _).flatMap_right _

/-! ### The count of types -/

/-- The count of a scan is the number of types in the assemblies that it found. -/
def Counted (scan : Scan) : Prop :=
  scan.typeCount = (scan.assemblies.flatMap Assembly.types).length

theorem Counted.append {first second : Scan} (one : first.Counted) (two : second.Counted) :
    (first.append second).Counted := by
  unfold Scan.append
  split
  · exact one
  · show first.typeCount + second.typeCount = _
    rw [List.flatMap_append, List.length_append, one, two]

theorem Counted.concat {scans : List Scan} (each : ∀ scan ∈ scans, scan.Counted) :
    (concat scans).Counted := by
  induction scans with
  | nil => rfl
  | cons first rest inductionHypothesis =>
    obtain ⟨head, tail⟩ := List.forall_mem_cons.mp each
    exact head.append (inductionHypothesis tail)

theorem Counted.inOrder {scans : List (String × Scan)} (each : ∀ scan ∈ scans, scan.2.Counted) :
    (inOrder scans).Counted := by
  refine .concat fun scan member => ?_
  obtain ⟨named, listed, rfl⟩ := List.mem_map.mp member
  exact each named (List.mem_mergeSort.mp listed)

theorem Counted.ofText (text : Option String) (otherwise : ScanError) :
    (ofText text otherwise).Counted := by
  unfold Scan.ofText
  split
  · exact congrArg List.length (List.flatMap_singleton ..).symm
  · rfl

theorem Counted.ofFile (path : String) (content : Option Content) (wasAskedFor : Bool) :
    (ofFile path content wasAskedFor).Counted := by
  unfold Scan.ofFile
  split
  case h_2 => exact .ofText _ _
  case h_4 entries _ _ =>
    refine .inOrder fun scan member => ?_
    obtain ⟨entry, -, rfl⟩ := List.mem_map.mp member
    exact .ofText _ _
  case h_6 => split <;> rfl
  all_goals rfl

theorem Counted.ofEntry (tree : FileTree) : ∀ path, (ofEntry path tree).Counted := by
  induction tree using FileTree.inductionOn with
  | file content => exact fun path => .ofFile _ _ _
  | directory children inductionHypothesis =>
    intro path
    rw [Scan.ofEntry, ofEntries_eq_map]
    split
    · refine .inOrder fun scan member => ?_
      obtain ⟨entry, listed, rfl⟩ := List.mem_map.mp member
      exact inductionHypothesis entry listed _
    · exact .ofFile _ _ _

theorem Counted.ofPath (find : Lookup) (path : String) : (ofPath find path).Counted := by
  unfold Scan.ofPath
  split
  · exact .ofEntry _ _
  · exact .ofFile _ _ _
  · exact .ofFile _ _ _

end Scan

/-! ### The files below a path -/

theorem Path.canBeFollowed_of_join {directory name : String}
    (followed : canBeFollowed (join directory name)) : canBeFollowed directory := by
  have longer : directory.utf8ByteSize ≤ (join directory name).utf8ByteSize := by
    unfold join
    split <;> simp only [String.utf8ByteSize_append] <;> omega
  exact decide_eq_true (longer.trans (of_decide_eq_true followed))

namespace FileTree

theorem filesOf_eq_flatMap (names : List String) (children : List (String × FileTree)) :
    filesOf names children =
      children.flatMap fun entry => filesUnder (names ++ [entry.1]) entry.2 := by
  induction children with
  | nil => rfl
  | cons entry rest inductionHypothesis => rw [filesOf, inductionHypothesis, List.flatMap_cons]

theorem filesUnder_append (tree : FileTree) : ∀ names more : List String,
    filesUnder (names ++ more) tree =
      (filesUnder more tree).map fun file => (names ++ file.1, file.2) := by
  induction tree using inductionOn with
  | file content => exact fun names more => rfl
  | directory children inductionHypothesis =>
    intro names more
    rw [filesUnder, filesUnder, filesOf_eq_flatMap, filesOf_eq_flatMap, List.map_flatMap]
    refine List.flatMap_congr fun entry listed => ?_
    rw [List.append_assoc]
    exact inductionHypothesis entry listed names (more ++ [entry.1])

/-- The files of a tree with their full paths, given the path of the tree. -/
def filesBelow (path : String) (tree : FileTree) : List (String × Content) :=
  (filesUnder [] tree).map fun file => (file.1.foldl Path.join path, file.2)

theorem filesBelow_directory (path : String) (children : List (String × FileTree)) :
    filesBelow path (.directory children) =
      children.flatMap fun entry => filesBelow (Path.join path entry.1) entry.2 := by
  rw [filesBelow, filesUnder, filesOf_eq_flatMap, List.map_flatMap]
  refine List.flatMap_congr fun entry _ => ?_
  have below := filesUnder_append entry.2 [entry.1] []
  rw [List.append_nil] at below
  rw [List.nil_append, below, List.map_map]
  rfl

end FileTree

/-- Whether an entry of a bundle stands for a directory. -/
def isDirectoryName (name : String) : Bool :=
  name.toList.getLast? == some '/' || name.toList.getLast? == some '\\'

theorem isDirectoryName_of_isJsonName {name : String} (json : Scan.isJsonName name) :
    isDirectoryName name = false := by
  obtain ⟨stem, spelled⟩ := List.isSuffixOf_iff_suffix.mp json
  rw [isDirectoryName, ← spelled, List.getLast?_append]
  rfl

/-- The texts of the entries of a bundle whose names end like JSON files and are no
`isDirectoryName`. -/
def Content.jsonEntries : Content → List (Option String)
  | .bundle entries =>
    (entries.filter fun entry => !isDirectoryName entry.1 && Scan.isJsonName entry.1).map Prod.snd
  | _ => []

/-- The texts in a file that have to describe an assembly each: the file itself, or the
`jsonEntries` of a bundle. -/
def Content.sourceTexts (path : String) (content : Content) : List (Option String) :=
  if Path.extension? path = some "json" then [content.text?]
  else if Path.extension? path = some "zip" then content.jsonEntries
  else []

namespace FileTree

/-- The texts that have to describe assemblies in the files of a tree, as far as their paths can be
followed. -/
def textsBelow (path : String) (tree : FileTree) : List (Option String) :=
  ((tree.filesBelow path).filter fun file => Path.canBeFollowed file.1).flatMap
    fun file => file.2.sourceTexts file.1

theorem textsBelow_file (path : String) (content : Content) :
    (FileTree.file content).textsBelow path =
      if Path.canBeFollowed path then content.sourceTexts path else [] := by
  unfold textsBelow filesBelow filesUnder
  split <;> simp [*]

theorem textsBelow_directory (path : String) (children : List (String × FileTree)) :
    (FileTree.directory children).textsBelow path =
      children.flatMap fun entry => entry.2.textsBelow (Path.join path entry.1) := by
  rw [textsBelow, filesBelow_directory, List.filter_flatMap, List.flatMap_assoc]
  rfl

/-- Below a path that cannot be followed there is none that can be. -/
theorem textsBelow_of_not_followed (tree : FileTree) :
    ∀ {path}, ¬ Path.canBeFollowed path → tree.textsBelow path = [] := by
  induction tree using inductionOn with
  | file content =>
    intro path lost
    rw [textsBelow_file, if_neg lost]
  | directory children inductionHypothesis =>
    intro path lost
    rw [textsBelow_directory]
    refine List.flatMap_eq_nil_iff.mpr fun entry listed => ?_
    exact inductionHypothesis entry listed fun followed =>
      lost (Path.canBeFollowed_of_join followed)

end FileTree

/-- The texts that have to describe assemblies at or below a path. -/
def FileSystem.textsAt (system : FileSystem) (path : String) : List (Option String) :=
  match system.find? path with
  | some tree => tree.textsBelow path
  | none => []

/-! ### What is collected -/

namespace Scan

/-- If the `Scan` succeeds, it finds the assemblies that some texts describe, one for each of
them. -/
def Yields (scan : Scan) (texts : List (Option String)) : Prop :=
  scan.failure = none → (scan.assemblies.map some).Perm (texts.map (·.bind assemblyOf?))

theorem Yields.fail (error : ScanError) (texts : List (Option String)) :
    (fail error).Yields texts :=
  fun succeeds => absurd succeeds (Option.some_ne_none error)

theorem Yields.ofText (text : Option String) (otherwise : ScanError) :
    (ofText text otherwise).Yields [text] := by
  unfold Scan.ofText
  split
  case h_1 assembly described =>
    intro _
    rw [List.map_singleton, described]
    exact .refl _
  case h_2 => exact .fail _ _

theorem Yields.inOrder {Item : Type} {items : List Item} (name : Item → String)
    {scan : Item → Scan} {texts : Item → List (Option String)}
    (each : ∀ item ∈ items, (scan item).Yields (texts item)) :
    (inOrder (items.map fun item => (name item, scan item))).Yields (items.flatMap texts) := by
  intro succeeds
  have all := failure_inOrder_eq_none.mp succeeds
  refine ((assemblies_inOrder all).map some).trans ?_
  rw [List.flatMap_map, List.map_flatMap, List.map_flatMap]
  refine List.Perm.flatMap_left items fun item member => ?_
  exact each item member (all _ (List.mem_map_of_mem member))

theorem Yields.ofBundle (path : String) (entries : List (String × Option String)) :
    (ofBundle path entries).Yields (Content.bundle entries).jsonEntries := by
  have wanted : (entries.filter fun entry => !isDirectoryName entry.1 && isJsonName entry.1) =
      entries.filter fun entry => isJsonName entry.1 := by
    refine List.filter_congr fun entry _ => ?_
    cases json : isJsonName entry.1 with
    | false => exact Bool.and_false _
    | true => rw [isDirectoryName_of_isJsonName json]; rfl
  rw [Content.jsonEntries, wanted, List.map_eq_flatMap]
  exact .inOrder Prod.fst fun entry _ => .ofText entry.2 _

theorem Yields.ofFile (path : String) (content : Content) (wasAskedFor : Bool) :
    (ofFile path (some content) wasAskedFor).Yields (content.sourceTexts path) := by
  unfold Content.sourceTexts
  split
  case isTrue json =>
    rw [ofFile_of_json json]
    exact .ofText _ _
  case isFalse json =>
    split
    case isTrue zip =>
      cases content with
      | bundle entries =>
        rw [ofFile_of_zip zip]
        exact .ofBundle path entries
      | text | binary =>
        unfold Scan.ofFile
        rw [zip]
        exact .fail _ _
    case isFalse zip =>
      rw [ofFile_of_other json zip]
      split
      · exact .fail _ _
      · exact fun _ => .refl _

/-- A scan that found nothing `Yields` nothing. -/
theorem Yields.missing (path : String) (wasAskedFor : Bool) :
    (Scan.ofFile path none wasAskedFor).Yields [] := by
  unfold Scan.ofFile
  split
  case h_1 | h_3 => exact .fail _ _
  case h_6 =>
    split
    · exact .fail _ _
    · exact fun _ => .refl _
  all_goals contradiction

theorem Yields.ofEntry (tree : FileTree) : ∀ path, (ofEntry path tree).Yields
    (tree.textsBelow path) := by
  induction tree using FileTree.inductionOn with
  | file content =>
    intro path
    rw [Scan.ofEntry, FileTree.textsBelow_file]
    split
    · exact .ofFile path content false
    · exact .missing path false
  | directory children inductionHypothesis =>
    intro path
    rw [Scan.ofEntry]
    split
    · rw [ofEntries_eq_map, FileTree.textsBelow_directory]
      exact .inOrder Prod.fst fun entry listed => inductionHypothesis entry listed _
    case isFalse lost =>
      rw [FileTree.textsBelow_of_not_followed _ lost]
      exact .missing path false

theorem Yields.ofPath (system : FileSystem) (path : String) :
    (ofPath system.find? path).Yields (system.textsAt path) := by
  unfold FileSystem.textsAt
  cases found : system.find? path with
  | none =>
    rw [Scan.ofPath, found]
    exact .missing path true
  | some tree =>
    rw [ofPath_of_found found]
    cases tree with
    | directory children => exact .ofEntry _ path
    | file content =>
      show (Scan.ofFile path (some content) true).Yields ((FileTree.file content).textsBelow path)
      rw [FileTree.textsBelow_file, if_pos (FileSystem.find?_eq_some found).1]
      exact .ofFile path content true

end Scan

/-! ### Inputs and references -/

theorem scanSources_congr {find other : Lookup}
    (same : ∀ path, Scan.ofPath find path = Scan.ofPath other path)
    {references others : List String} (perm : references.Perm others) (input : String) :
    scanSources find input references = scanSources other input others := by
  have order : (references.mergeSort fun left right => left ≤ right) =
      others.mergeSort fun left right => left ≤ right :=
    mergeSort_eq_of_perm id perm fun _ _ _ _ equal => equal
  unfold scanSources
  rw [order, funext same]

/-- The scan of several paths in their order. -/
def Scan.ofPaths (find : Lookup) (paths : List String) : Scan :=
  concat ((paths.mergeSort fun left right => left ≤ right).map (ofPath find))

theorem Scan.Counted.ofPaths (find : Lookup) (paths : List String) :
    (Scan.ofPaths find paths).Counted := by
  refine .concat fun scan member => ?_
  obtain ⟨path, -, rfl⟩ := List.mem_map.mp member
  exact .ofPath find path

theorem Scan.failure_ofPaths_eq_none {find : Lookup} {paths : List String} :
    (ofPaths find paths).failure = none ↔ ∀ path ∈ paths, (ofPath find path).failure = none := by
  unfold ofPaths
  simp only [failure_concat_eq_none, List.forall_mem_map, List.mem_mergeSort]

theorem Scan.assemblies_ofPaths {find : Lookup} {paths : List String}
    (succeed : ∀ path ∈ paths, (ofPath find path).failure = none) :
    (ofPaths find paths).assemblies =
      (paths.mergeSort fun left right => left ≤ right).flatMap
        fun path => (ofPath find path).assemblies := by
  rw [ofPaths, assemblies_concat (failure_concat_eq_none.mp (failure_ofPaths_eq_none.mpr succeed)),
    List.flatMap_map]

/-- `scanSources` collects sources if the scans of all paths succeed. -/
theorem sources_scanSources_eq_ok {find : Lookup} {input : String} {references : List String}
    {sources : Sources} :
    (scanSources find input references).sources = .ok sources ↔
      (∀ path ∈ input :: references, (Scan.ofPath find path).failure = none) ∧
        ⟨(Scan.ofPath find input).assemblies, (Scan.ofPaths find references).assemblies⟩ =
          sources := by
  have failure := Scan.failure_append (Scan.ofPath find input) (.ofPaths find references)
  have whole : ((Scan.ofPath find input).append (.ofPaths find references)).failure = none ↔
      ∀ path ∈ input :: references, (Scan.ofPath find path).failure = none := by
    rw [failure, Option.or_eq_none_iff, Scan.failure_ofPaths_eq_none, List.forall_mem_cons]
  rw [← whole]
  unfold scanSources Scan.ofPaths
  dsimp only
  generalize ((Scan.ofPath find input).append _).failure = failed
  cases failed with
  | some error => simp
  | none => simp

/-- The types counted are those of all assemblies collected. -/
theorem typeCount_scanSources {find : Lookup} {input : String} {references : List String}
    {sources : Sources} (succeeds : (scanSources find input references).sources = .ok sources) :
    (scanSources find input references).typeCount = sources.typeCount := by
  obtain ⟨each, rfl⟩ := sources_scanSources_eq_ok.mp succeeds
  have inputs := each input List.mem_cons_self
  have counted := (Scan.Counted.ofPath find input).append (.ofPaths find references)
  rw [Scan.append_of_success inputs] at counted
  show ((Scan.ofPath find input).append (.ofPaths find references)).typeCount = _
  rw [Scan.append_of_success inputs]
  exact counted

/-- What `scanSources` collects depends neither on the order in which directories and bundles list
their entries (`FileSystem.Rearranged`) nor on the order of the references, wherever the paths start
and lead. If it is collected, the types counted are those of all assemblies, and each path
contributes one assembly for each text at or below it that has to describe one
(`FileSystem.textsAt`), in the place of its path. -/
theorem scanSources_of_rearranged {system other : FileSystem} (distinct : system.root.Distinct)
    (rearranged : system.Rearranged other) {references others : List String}
    (perm : references.Perm others) (input : String) :
    scanSources other.find? input others = scanSources system.find? input references ∧
      ∀ sources, (scanSources system.find? input references).sources = .ok sources →
        (scanSources system.find? input references).typeCount = sources.typeCount ∧
        ∃ contribution : String → List Assembly,
          sources.inputs = contribution input ∧
          sources.references =
            (references.mergeSort fun left right => left ≤ right).flatMap contribution ∧
          ∀ path ∈ input :: references,
            ((contribution path).map some).Perm
              ((system.textsAt path).map (·.bind Scan.assemblyOf?)) := by
  have same := scanSources_congr (Scan.ofPath_rearranged rearranged distinct) perm input
  refine ⟨same.symm, fun sources succeeds => ⟨typeCount_scanSources succeeds, ?_⟩⟩
  obtain ⟨each, rfl⟩ := sources_scanSources_eq_ok.mp succeeds
  refine ⟨_, rfl, Scan.assemblies_ofPaths (List.forall_mem_cons.mp each).2, ?_⟩
  exact fun path member => Scan.Yields.ofPath system path (each path member)

/-- The text of an assembly with one type. -/
def assemblyText (name : String) : String :=
  "\x7b\"name\":\"" ++ name ++ "\",\"types\":[\x7b\"name\":\"T\"\x7d]\x7d"

/-- A directory with a bundle and a file, and a file beside it. Work is done in the directory. -/
def shelf : FileSystem where
  root := .directory [("lib", .directory [
      ("a.zip", .file (.bundle [("b.json", some (assemblyText "B")), ("c.txt", none)])),
      ("d.json", .file (.text (assemblyText "D")))]),
    ("e.json", .file (.text (assemblyText "E")))]
  working := ["lib"]

/-- The files of `shelf`, listed in other orders. -/
def shelfRelisted : FileSystem where
  root := .directory [("e.json", .file (.text (assemblyText "E"))),
    ("lib", .directory [("d.json", .file (.text (assemblyText "D"))),
      ("a.zip", .file (.bundle [("c.txt", none), ("b.json", some (assemblyText "B"))]))])]
  working := ["lib"]

theorem shelf_distinct : shelf.root.Distinct := by
  refine .directory (by decide) (List.forall_mem_cons.mpr ⟨?_, List.forall_mem_singleton.mpr ?_⟩)
  · refine .directory (by decide)
      (List.forall_mem_cons.mpr ⟨?_, List.forall_mem_singleton.mpr ?_⟩)
    · exact .bundle (by decide)
    · exact .text _
  · exact .text _

theorem shelf_rearranged : shelf.Rearranged shelfRelisted where
  root := by
    refine .trans (.entry [] _ "lib" ?_) (.directory (.swap _ _ []))
    exact .trans (.entry [] _ "a.zip" (.bundle (.swap _ _ []))) (.directory (.swap _ _ []))
  working := rfl

theorem shelf_scanned : ∀ path ∈ ["/lib", "../../e.json", "d.json"],
    (Scan.ofPath shelf.find? path).failure = none := by
  simp only [List.forall_mem_cons]
  refine ⟨?_, by decide +kernel, by decide +kernel, fun _ member => absurd member List.not_mem_nil⟩
  -- A sort of names is no computation, so the entries are taken one by one.
  show (Scan.inOrder
    [("a.zip", Scan.inOrder
      [("b.json", Scan.ofText (some (assemblyText "B")) (.malformedEntry "/lib/a.zip" "b.json"))]),
    ("d.json", Scan.ofText (some (assemblyText "D")) (.malformed "/lib/d.json"))]).failure = none
  refine Scan.failure_inOrder_eq_none.mpr (List.forall_mem_cons.mpr
    ⟨Scan.failure_inOrder_eq_none.mpr (List.forall_mem_singleton.mpr ?_),
      List.forall_mem_singleton.mpr ?_⟩)
  · decide +kernel
  · decide +kernel

/-- Listed in another order, the shelf gives the same sources: for a path from the root, one that
leads above it and one from the working directory. The directory contributes the assembly in the
bundle and the one beside it. -/
theorem scanSources_of_rearranged_shelf :
    shelf.root.Distinct ∧ shelf.Rearranged shelfRelisted ∧
      scanSources shelfRelisted.find? "/lib" ["d.json", "../../e.json"] =
        scanSources shelf.find? "/lib" ["../../e.json", "d.json"] ∧
      ∃ sources, (scanSources shelf.find? "/lib" ["../../e.json", "d.json"]).sources =
          .ok sources ∧
        (scanSources shelf.find? "/lib" ["../../e.json", "d.json"]).typeCount =
          sources.typeCount ∧
        sources.inputs.length = 2 := by
  obtain ⟨same, collected⟩ := scanSources_of_rearranged shelf_distinct shelf_rearranged
    (.swap "d.json" "../../e.json" []) "/lib"
  have succeeds := sources_scanSources_eq_ok.mpr ⟨shelf_scanned, rfl⟩
  obtain ⟨counted, contribution, inputs, -, each⟩ := collected _ succeeds
  have two : (shelf.textsAt "/lib").length = 2 := by decide +kernel
  refine ⟨shelf_distinct, shelf_rearranged, same, _, succeeds, counted, ?_⟩
  have length := (each "/lib" List.mem_cons_self).length_eq
  rwa [List.length_map, List.length_map, two, ← inputs] at length

end BytecodeFlow

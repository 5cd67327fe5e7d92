/-
This file reads a program back from its JSON form, as `Program.saved`. Nothing
that the text of a procedure shows is lost on the way: edges are saved as the
ids that the text shows, and kinds and commands as their texts. The names of a
program are distinct and in order, so the saved program has the same procedures
under the same names in the same order.
-/

import BytecodeFlow.Graph.Saved
import BytecodeFlow.Proofs.Json.RoundTrip

namespace BytecodeFlow

/-! ### Reading lists -/

namespace Json

/-- Where each item can be read, so can the list. -/
theorem listOf_map {α β : Type} {encode : α → Json} {decode : Json → Option β} {read : α → β}
    (reads : ∀ item, decode (encode item) = some (read item)) (items : List α) :
    listOf decode (.array (items.map encode)) = some (items.map read) := by
  have together : decode ∘ encode = fun item => pure (read item) := funext reads
  rw [listOf, List.mapM_map, together, List.mapM_pure]
  rfl

theorem listOf_mapIdx {α β : Type} {encode : Nat → α → Json} {decode : Json → Option β}
    {read : Nat → α → β} (reads : ∀ index item, decode (encode index item) = some (read index item))
    (items : List α) :
    listOf decode (.array (items.mapIdx encode)) = some (items.mapIdx read) := by
  rw [List.mapIdx_eq_zipIdx_map, List.mapIdx_eq_zipIdx_map]
  exact listOf_map (fun (item, index) => reads index item) items.zipIdx

theorem word64?_ofNat (value : Nat) : word64? (.ofNat value) = some value := by
  simp [word64?, ofNat]

theorem listOf_word64?_ofIds (ids : List Nat) : listOf word64? (.ofIds ids) = some ids := by
  have read := listOf_map word64?_ofNat ids
  rwa [List.map_id'] at read

end Json

/-! ### What is saved -/

theorem SavedNode.decodeCommand_toJson (command : Command) :
    decodeCommand command.toJson = some command.text := by
  simp [decodeCommand, Command.toJson, Json.record?, Json.Record.required, Json.text?]

namespace Procedure

/-- What `SavedNode` keeps of a node. -/
def savedNode (procedure : Procedure) (index : NodeIndex) (node : Node) : SavedNode where
  id := procedure.nodeId index
  label := node.kind.label
  commands := node.commands.map Command.text
  successors := procedure.nodeIds node.successors
  predecessors := procedure.nodeIds node.predecessors
  exceptions := procedure.nodeIds node.exceptions

/-- What is saved of a procedure. -/
def saved (procedure : Procedure) : SavedProcedure where
  id := procedure.id
  name := procedure.name
  nodes := procedure.nodes.toList.mapIdx procedure.savedNode

theorem decode_jsonOfNode (procedure : Procedure) (index : NodeIndex) (node : Node) :
    SavedNode.decode (procedure.jsonOfNode index node) = some (procedure.savedNode index node) := by
  have commands := Json.listOf_map SavedNode.decodeCommand_toJson node.commands
  simp [SavedNode.decode, jsonOfNode, Json.record?, Json.Record.required, Json.Record.withDefault,
    List.lookup_cons, Json.word64?_ofNat, Json.listOf_word64?_ofIds, Json.text?, commands,
    savedNode]

theorem decode_toJson (procedure : Procedure) :
    SavedProcedure.decode procedure.toJson = some procedure.saved := by
  have nodes := Json.listOf_mapIdx procedure.decode_jsonOfNode procedure.nodes.toList
  simp [SavedProcedure.decode, SavedProcedure.decodeName, toJson, Json.record?,
    Json.Record.required, List.lookup_cons, Json.word64?_ofNat, Json.text?, nodes, saved, name]

theorem text_saved (procedure : Procedure) : procedure.saved.text = procedure.text := by
  unfold SavedProcedure.text text saved
  rw [List.mapIdx_eq_zipIdx_map, List.mapIdx_eq_zipIdx_map, List.map_map]
  rfl

end Procedure

/-! ### Programs -/

/-- A map has what it lists and nothing else. -/
theorem ofList_toList {α : Type} (map : Std.ExtTreeMap String α) :
    Std.ExtTreeMap.ofList map.toList = map := by
  refine Std.ExtTreeMap.ext_getElem? fun name => ?_
  cases found : map[name]? with
  | some value =>
    exact Std.ExtTreeMap.getElem?_ofList_of_mem Std.ReflCmp.compare_self
      Std.ExtTreeMap.distinct_keys_toList (Std.ExtTreeMap.mem_toList_iff_getElem?_eq_some.mpr found)
  | none =>
    refine Std.ExtTreeMap.getElem?_ofList_of_contains_eq_false ?_
    rw [Std.ExtTreeMap.map_fst_toList_eq_keys, List.contains_eq_mem, decide_eq_false_iff_not,
      Std.ExtTreeMap.mem_keys, Std.ExtTreeMap.mem_iff_isSome_getElem?, found]
    exact Bool.false_ne_true

namespace Program

/-- What is saved of a program. -/
def saved (program : Program) : SavedProgram :=
  ⟨program.procedures.map fun _ procedure => procedure.saved⟩

theorem toList_saved (program : Program) : program.saved.procedures.toList =
    program.toList.map fun (name, procedure) => (name, procedure.saved) :=
  Std.ExtTreeMap.toList_map

/-- Reading members that were written one by one. -/
theorem foldlM_decode (entries : List (String × Procedure))
    (start : Std.ExtTreeMap String SavedProcedure) :
    (entries.map fun (name, procedure) => (name, procedure.toJson)).foldlM
        (fun procedures (name, value) => do
          return procedures.insert name (← SavedProcedure.decode value)) start =
      some (start.insertMany (entries.map fun (name, procedure) => (name, procedure.saved))) := by
  induction entries generalizing start with
  | nil => rfl
  | cons entry rest inductionHypothesis =>
    obtain ⟨name, procedure⟩ := entry
    simp only [List.map_cons, List.foldlM_cons, procedure.decode_toJson,
      Std.ExtTreeMap.insertMany_cons]
    exact inductionHypothesis _

theorem decode_toJson (program : Program) :
    SavedProgram.decode program.toJson = some program.saved := by
  have read : SavedProgram.decodeProcedures (.object (program.toList.map fun (name, procedure) =>
      (name, procedure.toJson))) = some program.saved.procedures := by
    rw [SavedProgram.decodeProcedures]
    refine (foldlM_decode program.toList ∅).trans ?_
    rw [← toList_saved, ← Std.ExtTreeMap.ofList_eq_insertMany_empty, ofList_toList]
  simp [SavedProgram.decode, toJson, Json.record?, Json.Record.required, read]

/-- The entries of a program under some names, or all of them if no name is given, in the order of
the names. -/
structure Chooses (program : Program) (names : List String)
    (chosen : List (String × Procedure)) : Prop where
  ordered : chosen.Pairwise fun former latter => former.1 < latter.1
  mem_iff : ∀ name procedure, (name, procedure) ∈ chosen ↔
    program.procedures[name]? = some procedure ∧ (names = [] ∨ name ∈ names)

theorem ordered_toList (program : Program) :
    program.toList.Pairwise fun former latter => former.1 < latter.1 := by
  have ordered : program.toList.Pairwise fun former latter => compare former.1 latter.1 = .lt :=
    Std.ExtTreeMap.ordered_keys_toList
  exact ordered.imp compareOfLessAndEq_eq_lt.mp

theorem select_saved (program : Program) (names : List String) :
    ∃ chosen, program.Chooses names chosen ∧
      program.saved.select names = chosen.map fun (_, procedure) => procedure.saved := by
  refine ⟨program.toList.filter fun (name, _) => names.isEmpty || names.contains name,
    ⟨program.ordered_toList.filter _, fun name procedure => ?_⟩, ?_⟩
  · rw [List.mem_filter, toList, Std.ExtTreeMap.mem_toList_iff_getElem?_eq_some]
    simp
  · rw [SavedProgram.select, toList_saved, List.filter_map, List.map_map]
    rfl

/-- Without names, `select` chooses everything. -/
theorem select_saved_nil (program : Program) :
    program.saved.select [] = program.toList.map fun (_, procedure) => procedure.saved := by
  refine (congrArg (List.map Prod.snd) (List.filter_eq_self.mpr fun _ _ => rfl)).trans ?_
  rw [toList_saved, List.map_map]
  rfl

/-- Each procedure stands under its own name. -/
def Named (program : Program) : Prop :=
  ∀ (name : String) (procedure : Procedure),
    program.procedures[name]? = some procedure → procedure.name = name

theorem Named.commit {program : Program} (named : program.Named) (added : Procedure) :
    (program.commit added).Named := by
  intro name procedure found
  rw [Program.commit, Std.ExtTreeMap.getElem?_insert] at found
  split at found
  next same =>
    cases found
    exact Std.LawfulEqCmp.compare_eq_iff_eq.mp same
  next => exact named name procedure found

/-- A program that is put together by `commit` is `Named`. -/
theorem named_of_commits (committed : List Procedure) : (committed.foldl commit empty).Named := by
  refine List.foldlRecOn committed commit (fun name procedure found => ?_)
    fun program named added _ => named.commit added
  cases Std.ExtTreeMap.getElem?_empty.symm.trans found

end Program

/-! ### Reading the text back -/

namespace Json

theorem Restorable.ofNat {value : Nat} (fits : value < UInt64.size) :
    Restorable (.ofNat value) := by
  have least : Int64.minValue.toInt ≤ 0 := by decide
  exact .int ⟨Int.le_trans least (Int.natCast_nonneg value), Int.ofNat_lt.mpr fits⟩

theorem Restorable.ofIds {ids : List Nat} (fit : ∀ id ∈ ids, id < UInt64.size) :
    Restorable (.ofIds ids) := by
  refine .array fun item member => ?_
  obtain ⟨id, listed, rfl⟩ := List.mem_map.mp member
  exact .ofNat (fit id listed)

/-- The whole numbers of 32 bits fit into 64 bits. -/
theorem Restorable.ofWord32 (word : UInt32) : Restorable (.ofNat word.toNat) :=
  .ofNat (word.toNat_lt.trans (by decide))

theorem Restorable.ofVariable (declared : String × Typ) : Restorable (.ofVariable declared) := by
  refine .object fun member listed => ?_
  rcases List.mem_pair.mp listed with rfl | rfl
  · exact .string _
  · exact .string _

end Json

theorem Command.restorable_toJson (command : Command) : command.toJson.Restorable := by
  refine .object fun member listed => ?_
  rcases List.mem_pair.mp listed with rfl | rfl
  · exact .string _
  · exact .string _

theorem Location.restorable_lineNumber (location : Location) :
    (Json.int location.lineNumber).Restorable := by
  unfold lineNumber
  split
  · exact .ofWord32 _
  · exact .int (by decide)

/-- The nodes at the other ends of a node's edges. -/
def Node.adjacent (node : Node) : List NodeIndex :=
  node.exceptions ++ node.exceptionPredecessors ++ node.predecessors ++ node.successors

namespace Procedure

/-- All ids that are written for a procedure, those of the nodes `adjacent` to its own included. -/
def ids (procedure : Procedure) : List Nat :=
  procedure.id :: procedure.nodeIds ([start, exit, sink] ++ List.range procedure.nodes.size ++
    procedure.nodes.toList.flatMap Node.adjacent)

theorem restorable_jsonOfNode {procedure : Procedure} {index : NodeIndex} {node : Node}
    (fits : procedure.nodeId index < UInt64.size)
    (fit : ∀ other ∈ node.adjacent, procedure.nodeId other < UInt64.size) :
    (procedure.jsonOfNode index node).Restorable := by
  have edges : ∀ {indices : List NodeIndex}, (∀ other ∈ indices, other ∈ node.adjacent) →
      (Json.ofIds (procedure.nodeIds indices)).Restorable := by
    intro indices within
    refine .ofIds fun id listed => ?_
    obtain ⟨other, member, rfl⟩ := List.mem_map.mp listed
    exact fit other (within other member)
  have commands : (Json.array (node.commands.map Command.toJson)).Restorable := by
    refine .array fun item member => ?_
    obtain ⟨command, _, rfl⟩ := List.mem_map.mp member
    exact command.restorable_toJson
  unfold jsonOfNode
  refine .object ?_
  simp only [List.forall_mem_cons]
  refine ⟨?_, edges ?_, edges ?_, .ofNat fits, commands, .string _, .object ?_, edges ?_, edges ?_,
    nofun⟩
  case refine_1 =>
    split
    · exact .ofWord32 _
    · exact .null
  case refine_4 =>
    simp only [List.forall_mem_cons]
    exact ⟨.int (by decide), .string _, node.location.restorable_lineNumber, nofun⟩
  all_goals simp +contextual [Node.adjacent]

theorem restorable_toJson {procedure : Procedure} (fit : ∀ id ∈ procedure.ids, id < UInt64.size) :
    procedure.toJson.Restorable := by
  have shown : ∀ index ∈ [start, exit, sink] ++ List.range procedure.nodes.size ++
      procedure.nodes.toList.flatMap Node.adjacent, procedure.nodeId index < UInt64.size :=
    fun index member => fit _ (List.mem_cons_of_mem _ (List.mem_map_of_mem member))
  simp only [List.forall_mem_append, List.forall_mem_cons] at shown
  obtain ⟨⟨⟨starts, exits, sinks, _⟩, numbered⟩, adjacent⟩ := shown
  have declarations : ∀ declared : List (String × Typ),
      (Json.array (declared.map .ofVariable)).Restorable := by
    refine fun declared => .array fun item member => ?_
    obtain ⟨one, _, rfl⟩ := List.mem_map.mp member
    exact .ofVariable one
  have nodes : (Json.array (procedure.nodes.toList.mapIdx procedure.jsonOfNode)).Restorable := by
    refine .array fun item member => ?_
    obtain ⟨index, within, rfl⟩ := List.mem_mapIdx.mp member
    refine restorable_jsonOfNode (numbered index (List.mem_range.mpr within)) fun other near => ?_
    exact adjacent other (List.mem_flatMap.mpr ⟨_, List.getElem_mem within, near⟩)
  unfold toJson
  refine .object ?_
  simp only [List.forall_mem_cons]
  refine ⟨.object ?_, .ofNat exits, .ofNat sinks, .ofNat (fit _ List.mem_cons_self), nodes,
    .ofNat starts, nofun⟩
  simp only [List.forall_mem_cons]
  refine ⟨declarations _, .object ?_, declarations _, .string _, .string _, nofun⟩
  simp only [List.forall_mem_cons]
  exact ⟨.string _, procedure.signature.location.restorable_lineNumber, nofun⟩

end Procedure

/-- Where all ids fit into 64 bits, the text of a program's JSON form holds this form. -/
theorem Program.parse?_pretty {program : Program}
    (fit : ∀ entry ∈ program.toList, ∀ id ∈ entry.2.ids, id < UInt64.size) :
    Json.parse? (program.toJson.pretty ++ "\n") = some program.toJson := by
  refine Json.Restorable.parse?_pretty (.object fun member listed => ?_)
  cases List.mem_singleton.mp listed
  refine .object fun member listed => ?_
  obtain ⟨entry, found, rfl⟩ := List.mem_map.mp listed
  exact Procedure.restorable_toJson (fit entry found)

end BytecodeFlow

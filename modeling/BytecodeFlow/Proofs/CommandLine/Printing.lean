/-
This file proves that a saved program is printed as the text of the program
that it was saved from. Any text may hold the JSON form (`Program.HeldAt`); the
one that is written when a program is saved does, as long as the ids fit into
64 bits.
-/

import BytecodeFlow.CommandLine.Plan
import BytecodeFlow.Proofs.Graph.Saving

namespace BytecodeFlow

/-- The file at a path holds a text that is read as `Program.toJson` of a program. -/
def Program.HeldAt (program : Program) (find : Lookup) (path : String) : Prop :=
  ∃ text, find path = some (.file (.text text)) ∧ Json.parse? text = some program.toJson

namespace Plan

theorem savedAt_of_heldAt {program : Program} {find : Lookup} {path : String}
    (held : program.HeldAt find path) : savedAt find path = .ok program.saved := by
  obtain ⟨text, found, parsed⟩ := held
  simp [savedAt, found, Content.text?, parsed, program.decode_toJson]

/-- What is printed of a program that is `HeldAt` a path, where `Chooses` gives some of its
entries. -/
theorem printFiles_of_heldAt {program : Program} {find : Lookup} {path : String}
    (held : program.HeldAt find path) {names : List String} {chosen : List (String × Procedure)}
    (selected : program.saved.select names = chosen.map fun (_, procedure) => procedure.saved) :
    printFiles find names [path] =
      { text := String.join (chosen.map fun (_, procedure) => procedure.text ++ "\n")
        messages := if chosen = [] then [.warn ("no matching procedure in " ++ path)] else []
        failure := none } := by
  have texts : (chosen.map fun (_, procedure) => procedure.saved).map
      (fun procedure => procedure.text ++ "\n") =
        chosen.map fun (_, procedure) => procedure.text ++ "\n" := by
    rw [List.map_map]
    exact List.map_congr_left fun (_, procedure) _ => congrArg (· ++ "\n") procedure.text_saved
  rw [printFiles, savedAt_of_heldAt held]
  simp only [printFiles, printProgram, selected, texts, List.isEmpty_map, List.isEmpty_iff,
    String.append_empty, List.append_nil]

/-- A program's JSON form can be read back by `SavedProgram.decode`, and what `SavedProgram.select`
chooses of it by names, in the order of the names, is what the program has under these names
(`Program.Chooses`). Printed, it gives the texts of these procedures, and without names the text of
the whole program. The text that is written when a program is saved holds its JSON form
(`Program.HeldAt`), as long as the ids fit into 64 bits. -/
theorem print_saved (program : Program) :
    ∃ saved, SavedProgram.decode program.toJson = some saved ∧
      (∀ names, ∃ chosen, program.Chooses names chosen ∧
        (saved.select names).map (fun shown => (shown.name, shown.id, shown.text)) =
          chosen.map (fun (_, procedure) => (procedure.name, procedure.id, procedure.text)) ∧
        ∀ find path, program.HeldAt find path →
          printFiles find names [path] =
            { text := String.join (chosen.map fun (_, procedure) => procedure.text ++ "\n")
              messages := if chosen = [] then [.warn ("no matching procedure in " ++ path)] else []
              failure := none }) ∧
      (∀ find path, program.HeldAt find path →
        (print find [] [path]).outputs = [⟨"-", program.text⟩] ∧
          (print find [] [path]).failure = none) ∧
      (∀ committed : List Procedure, program = committed.foldl Program.commit .empty →
        program.Named) ∧
      ((∀ entry ∈ program.toList, ∀ id ∈ entry.2.ids, id < UInt64.size) →
        ∀ find path, find path = some (.file (.text (program.toJson.pretty ++ "\n"))) →
          program.HeldAt find path) := by
  refine ⟨program.saved, program.decode_toJson, fun names => ?_, fun find path held => ?_,
    fun committed same => ?_, fun fit find path found => ?_⟩
  · obtain ⟨chosen, chooses, selected⟩ := program.select_saved names
    refine ⟨chosen, chooses, ?_, fun find path held => printFiles_of_heldAt held selected⟩
    rw [selected, List.map_map]
    refine List.map_congr_left fun (_, procedure) _ => ?_
    rw [Function.comp_apply, procedure.text_saved]
    rfl
  · rw [print, printFiles_of_heldAt held program.select_saved_nil]
    exact ⟨rfl, rfl⟩
  · rw [same]
    exact Program.named_of_commits committed
  · exact ⟨_, found, Program.parse?_pretty fit⟩

/-- Two procedures, the later one first by its name, which has to be escaped when saved. -/
def sketches : Program :=
  let sketch (name : String) (id firstNodeId : Nat) : Procedure :=
    (Procedure.begin id ⟨name, [], [], .void, ⟨some 3, "a\\b"⟩⟩ firstNodeId).link
      Procedure.start Procedure.exit
  [sketch "Shape.Draw" 0 0, sketch "Shape.\"\x01\"" 1 3].foldl Program.commit .empty

theorem print_saved_sketches :
    let find : Lookup := fun _ => some (.file (.text (sketches.toJson.pretty ++ "\n")))
    (print find [] ["sketches"]).outputs =
      [⟨"-", String.join [
        "procedure Shape.\"\x01\" (pd 1)\n",
        "  node3 preds:  succs: 4 exn:  Start\n",
        "  node4 preds:  succs:  exn:  Exit\n",
        "  node5 preds:  succs:  exn:  exception sink\n",
        "\n",
        "procedure Shape.Draw (pd 0)\n",
        "  node0 preds:  succs: 1 exn:  Start\n",
        "  node1 preds:  succs:  exn:  Exit\n",
        "  node2 preds:  succs:  exn:  exception sink\n",
        "\n"]⟩] := by
  intro find
  obtain ⟨_, _, _, printed, _, held⟩ := print_saved sketches
  have there : sketches.HeldAt find "sketches" := held (by decide +kernel) find "sketches" rfl
  refine (printed find "sketches" there).1.trans ?_
  decide +kernel

end Plan

end BytecodeFlow

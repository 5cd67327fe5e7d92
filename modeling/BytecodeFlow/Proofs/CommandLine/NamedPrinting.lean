/-
This file says which procedures of a saved program can be printed by their
names. Names are joined by commas to ask for them (`AsksFor`) and split again
at every comma, so the procedures that are printed are the ones that were asked
for exactly when no name has a comma in it. The name of a method has one as
soon as the method has two parameters.
-/

import BytecodeFlow.Proofs.CommandLine.Printing
import BytecodeFlow.Proofs.Lowering.Concatenation

namespace BytecodeFlow

/-! ### Joining and splitting -/

section Splitting

variable {separator : Char}

/-- What was joined is split at the places of the joints, and within the parts. -/
theorem splitOn_intercalate_eq_flatMap {parts : List (List Char)} (nonempty : parts ≠ []) :
    ([separator].intercalate parts).splitOn separator =
      parts.flatMap (List.splitOn separator) := by
  induction parts with
  | nil => exact absurd rfl nonempty
  | cons first rest inductionHypothesis =>
    cases rest with
    | nil => simp
    | cons second others =>
      rw [List.intercalate_cons_cons, List.append_assoc, List.singleton_append,
        List.splitOn_append_cons_self, inductionHypothesis (List.cons_ne_nil second others)]
      rfl

/-- No part has the separator in it. -/
theorem notMem_of_mem_splitOn {characters part : List Char}
    (member : part ∈ characters.splitOn separator) : separator ∉ part := by
  induction characters generalizing part with
  | nil =>
    cases List.mem_singleton.mp member
    exact List.not_mem_nil
  | cons character rest inductionHypothesis =>
    rw [List.splitOn_cons_eq_if_modifyHead] at member
    split at member
    case isTrue =>
      rcases List.mem_cons.mp member with rfl | later
      · exact List.not_mem_nil
      · exact inductionHypothesis later
    case isFalse differs =>
      cases parts : rest.splitOn separator with
      | nil => exact absurd parts (List.splitOn_ne_nil separator rest)
      | cons first others =>
        rw [parts] at member inductionHypothesis
        rcases List.mem_cons.mp member with rfl | later
        · rw [List.mem_cons, not_or]
          refine ⟨?_, inductionHypothesis List.mem_cons_self⟩
          rintro rfl
          exact differs (beq_self_eq_true separator)
        · exact inductionHypothesis (List.mem_cons_of_mem _ later)

theorem mem_intercalate_separator {parts : List (List Char)} :
    separator ∈ [separator].intercalate parts ↔
      2 ≤ parts.length ∨ ∃ part ∈ parts, separator ∈ part := by
  cases parts with
  | nil => simp
  | cons first rest =>
    cases rest with
    | nil => simp
    | cons second others =>
      have joint : separator ∈ [separator].intercalate (first :: second :: others) := by
        simp [List.intercalate_cons_cons]
      exact iff_of_true joint (.inl (by simp))

end Splitting

theorem toList_commaSeparated (names : List String) :
    (",".intercalate names).toList = [','].intercalate (names.map String.toList) :=
  String.toList_intercalate

/-- Names that are joined by commas come apart at the commas in them as well. -/
theorem splitText_intercalate {names : List String} (nonempty : names ≠ []) :
    splitText ',' (",".intercalate names) = names.flatMap (splitText ',') := by
  rw [splitText, toList_commaSeparated,
    splitOn_intercalate_eq_flatMap (mt List.map_eq_nil_iff.mp nonempty), List.flatMap_map,
    List.map_flatMap]
  rfl

theorem splitText_of_notMem {separator : Char} {text : String} (plain : separator ∉ text.toList) :
    splitText separator text = [text] := by
  rw [splitText, List.splitOn_eq_singleton plain, List.map_singleton, String.ofList_toList]

theorem notMem_of_mem_splitText {separator : Char} {text part : String}
    (member : part ∈ splitText separator text) : separator ∉ part.toList := by
  obtain ⟨characters, split, rfl⟩ := List.mem_map.mp member
  rw [String.toList_ofList]
  exact notMem_of_mem_splitOn split

/-! ### Names with commas -/

/-- There is a comma in the name of a method that has two parameters, or one in a part of it. -/
theorem MethodDef.comma_mem_fullName (method : MethodDef) (declaringType : String) :
    ',' ∈ (method.fullName declaringType).toList ↔
      2 ≤ method.parameters.length ∨
        ∃ part ∈ method.returnType :: declaringType :: method.name ::
          method.parameters.map Parameter.typeName, ',' ∈ part.toList := by
  have parameters : ',' ∈ (",".intercalate (method.parameters.map Parameter.typeName)).toList ↔
      2 ≤ method.parameters.length ∨
        ∃ part ∈ method.parameters.map Parameter.typeName, ',' ∈ part.toList := by
    rw [toList_commaSeparated, mem_intercalate_separator]
    simp only [List.length_map, List.mem_map, exists_exists_and_eq_and]
  have spaces : ',' ∉ " ".toList ∧ ',' ∉ "::".toList ∧ ',' ∉ "(".toList ∧ ',' ∉ ")".toList := by
    decide
  simp only [fullName, qualifiedMethodName, String.toList_append, List.mem_append, parameters,
    List.exists_mem_cons_iff, spaces, or_false, or_assoc]
  rw [← or_assoc, ← or_assoc, or_left_comm]
  simp only [or_assoc]

/-! ### Asking by names -/

/-- The arguments that ask for the procedures of some names in a file. The names may be attached to
their option; apart from it they must not look like an option, and neither may the path. -/
inductive AsksFor (names : List String) (path : String) : List String → Prop
  | attached (given : path ≠ "") :
    AsksFor names path ["print", "--procs=" ++ ",".intercalate names, "--", path]
  | apart (given : path ≠ "") (plainNames : Token.ofArgument (",".intercalate names) = .value)
    (plainPath : Token.ofArgument path = .value) :
    AsksFor names path ["print", "--procs", ",".intercalate names, path]

theorem Token.ofArgument_procs (value : String) :
    ofArgument ("--procs=" ++ value) = .long "procs" (some value) := by
  unfold ofArgument
  rw [String.toList_append]
  show Token.long _ (some (String.ofList value.toList)) = _
  rw [String.ofList_toList]
  rfl

/-- The `Reading` of arguments that ask for names and give a path, as in `AsksFor`. -/
def Reading.ofNames (names : List String) (path : String) : Reading :=
  ⟨[("procs", .names names)], [path], .nothing⟩

/-- A path that is there is taken by `settle` at the end of the arguments. -/
theorem Reading.settle_path {path : String} (given : path ≠ "")
    (settings : List (String × Setting)) :
    settle ⟨settings, [], .files [path]⟩ = .ok ⟨settings, [path], .nothing⟩ := by
  have present : [path].any String.isEmpty = false := by simpa using given
  unfold settle
  simp only [present]
  rfl

theorem Reading.read_attached (value : String) {path : String} (given : path ≠ "") :
    Reading.read .print .start ["--procs=" ++ value, "--", path] =
      .ok (.ofNames (splitText ',' value) path) := by
  rw [Reading.read, Token.ofArgument_procs]
  exact settle_path given _

theorem Reading.read_apart {value path : String} (given : path ≠ "")
    (plainValue : Token.ofArgument value = .value) (plainPath : Token.ofArgument path = .value) :
    Reading.read .print .start ["--procs", value, path] =
      .ok (.ofNames (splitText ',' value) path) := by
  have procs : Token.ofArgument "--procs" = .long "procs" none := by decide +kernel
  rw [Reading.read, procs]
  show Reading.read .print ⟨[], [], .awaiting ⟨"procs", .names, none, true⟩⟩ [value, path] = _
  rw [Reading.read, plainValue]
  show Reading.read .print ⟨[], [], .valued ⟨"procs", .names, none, true⟩ value⟩ [path] = _
  rw [Reading.read, plainPath]
  exact settle_path given _

theorem Invocation.readSubcommand_ofNames {arguments names : List String} {path : String}
    (reads : Reading.read .print .start arguments = .ok (.ofNames names path)) :
    readSubcommand .start .print readPrint arguments =
      .ok ⟨.print names [path], false, false⟩ := by
  rw [readSubcommand, reads]
  show Except.ok (Invocation.mk (.print (names ++ []) [path]) false false) = _
  rw [List.append_nil]

/-- The names in arguments that `AsksFor` describes are split at every comma. -/
theorem AsksFor.read {names : List String} {path : String} {arguments : List String}
    (asks : AsksFor names path arguments) :
    Invocation.read arguments =
      .ok ⟨.print (splitText ',' (",".intercalate names)) [path], false, false⟩ := by
  cases asks with
  | attached given =>
    exact Invocation.readSubcommand_ofNames (Reading.read_attached _ given)
  | apart given plainNames plainPath =>
    exact Invocation.readSubcommand_ofNames (Reading.read_apart given plainNames plainPath)

/-! ### What is printed -/

/-- `Chooses` gives the same for the parts of names as for the names, where no name has a comma. -/
theorem Program.Chooses.of_parts_iff {program : Program} {names : List String}
    (nonempty : names ≠ []) (occur : ∀ name ∈ names, program.procedures[name]?.isSome)
    {chosen : List (String × Procedure)}
    (chooses : program.Chooses (names.flatMap (splitText ',')) chosen) :
    program.Chooses names chosen ↔ ∀ name ∈ names, ',' ∉ name.toList := by
  constructor
  · intro intended name member
    obtain ⟨procedure, found⟩ := Option.isSome_iff_exists.mp (occur name member)
    have listed := (intended.mem_iff name procedure).mpr ⟨found, .inr member⟩
    have parts : names.flatMap (splitText ',') ≠ [] := by
      rw [← splitText_intercalate nonempty]
      exact mt List.map_eq_nil_iff.mp (List.splitOn_ne_nil _ _)
    have part := ((chooses.mem_iff name procedure).mp listed).2.resolve_left parts
    obtain ⟨_, -, split⟩ := List.mem_flatMap.mp part
    exact notMem_of_mem_splitText split
  · intro plain
    have same : names.flatMap (splitText ',') = names.flatMap fun name => [name] :=
      List.flatMap_congr fun name member => splitText_of_notMem (plain name member)
    rwa [same, List.flatMap_singleton'] at chooses

namespace Plan

/-- What is printed when procedures are asked for by names are those whose names are parts of the
names between commas. -/
theorem ofSubcommand_print_of_heldAt {program : Program} {find : Lookup} {path : String}
    (held : program.HeldAt find path) (names : List String) :
    ∃ chosen, program.Chooses names chosen ∧
      ofSubcommand find (.print names [path]) =
        { messages := if chosen = [] then [.warn ("no matching procedure in " ++ path)] else []
          outputs := [⟨"-", String.join (chosen.map fun entry => entry.2.text ++ "\n")⟩]
          failure := none
          timing := none } := by
  obtain ⟨chosen, chooses, selected⟩ := program.select_saved names
  refine ⟨chosen, chooses, ?_⟩
  rw [ofSubcommand, print, printFiles_of_heldAt held selected]

end Plan

/-- A procedure of a program stands under the name of one of its methods. -/
theorem Build.name_of_procedure {assemblies : List Assembly} {limits : Limits} {name : String}
    (occurs : (ofAssemblies assemblies limits).program.procedures[name]?.isSome) :
    ∃ candidate ∈ assemblies.flatMap Candidate.ofAssembly, candidate.name = name := by
  obtain ⟨procedure, found⟩ := Option.isSome_iff_exists.mp occurs
  have concatenates := continueWith_concatenates (.start limits) .empty assemblies
  exact List.mem_map.mp (Candidate.name_mem_of_kept (concatenates.names found))

/-- For names of procedures of a program that was saved (`Program.HeldAt`), what `Plan.ofSubcommand`
prints are the procedures whose names are parts of these between commas. These are the ones that
were asked for (`AsksFor`) if and only if there is no comma in the names. Each is the name of a
`Candidate`, so there is one if the method has two parameters, or if there is one in its name or in
the name of a type. -/
theorem Plan.print_by_names (assemblies : List Assembly) (limits : Limits) {find : Lookup}
    {path : String} (held : (Build.ofAssemblies assemblies limits).program.HeldAt find path)
    {names : List String} (nonempty : names ≠ [])
    (occur : ∀ name ∈ names,
      (Build.ofAssemblies assemblies limits).program.procedures[name]?.isSome)
    {arguments : List String} (asks : AsksFor names path arguments) :
    let program := (Build.ofAssemblies assemblies limits).program
    ∃ invocation chosen, Invocation.read arguments = .ok invocation ∧
      ofSubcommand find invocation.subcommand =
        { messages := if chosen = [] then [.warn ("no matching procedure in " ++ path)] else []
          outputs := [⟨"-", String.join (chosen.map fun entry => entry.2.text ++ "\n")⟩]
          failure := none
          timing := none } ∧
      program.Chooses (names.flatMap (splitText ',')) chosen ∧
      (program.Chooses names chosen ↔ ∀ name ∈ names, ',' ∉ name.toList) ∧
      ∀ name ∈ names, ∃ candidate ∈ assemblies.flatMap Candidate.ofAssembly,
        candidate.name = name ∧
        (',' ∈ name.toList ↔ 2 ≤ candidate.method.parameters.length ∨
          ∃ part ∈ candidate.method.returnType :: candidate.declaring.name ::
            candidate.method.name :: candidate.method.parameters.map Parameter.typeName,
            ',' ∈ part.toList) := by
  intro program
  obtain ⟨chosen, chooses, prints⟩ :=
    ofSubcommand_print_of_heldAt held (splitText ',' (",".intercalate names))
  rw [splitText_intercalate nonempty] at chooses
  refine ⟨_, chosen, asks.read, prints, chooses, chooses.of_parts_iff nonempty occur, ?_⟩
  intro name member
  obtain ⟨candidate, listed, rfl⟩ := Build.name_of_procedure (occur name member)
  exact ⟨candidate, listed, rfl,
    candidate.method.comma_mem_fullName candidate.declaring.name⟩

/-- A static method with the given parameters that does nothing. -/
def idleMethod (name : String) (parameters : List Parameter) : MethodDef where
  name
  parameters
  returnType := "System.Void"
  isStatic := true
  isAbstract := false
  sourceFile := some "J.cs"
  body := some ⟨[], [⟨0, "ret", .none, some 7⟩], []⟩

/-- One method with two parameters and one with a single parameter. -/
def jobAssembly : Assembly :=
  ⟨"App", [⟨"App.Job", none, [], [],
    [idleMethod "Run" [⟨"a", "System.Int32"⟩, ⟨"b", "System.Int32"⟩],
      idleMethod "Stop" [⟨"a", "System.Int32"⟩]]⟩]⟩

/-- The program that is built from `jobAssembly`. -/
def jobProgram : Program := (Build.ofAssemblies [jobAssembly] .standard).program

/-- Every path leads to the file that `jobProgram` is saved in. -/
def findJobs : Lookup := fun _ => some (.file (.text (jobProgram.toJson.pretty ++ "\n")))

theorem jobProgram_heldAt : jobProgram.HeldAt findJobs "cfg.json" :=
  ⟨_, rfl, Program.parse?_pretty (by decide +kernel)⟩

/-- The method with one parameter is printed by its name. -/
theorem Plan.print_by_names_stop :
    jobProgram.HeldAt findJobs "cfg.json" ∧
      ∃ invocation chosen,
        Invocation.read ["print", "--procs", "System.Void App.Job::Stop(System.Int32)",
          "cfg.json"] = .ok invocation ∧
        (ofSubcommand findJobs invocation.subcommand).outputs =
          [⟨"-", String.join (chosen.map fun entry => entry.2.text ++ "\n")⟩] ∧
        jobProgram.Chooses ["System.Void App.Job::Stop(System.Int32)"] chosen := by
  have occur : ∀ name ∈ ["System.Void App.Job::Stop(System.Int32)"],
      jobProgram.procedures[name]?.isSome := List.forall_mem_singleton.mpr (by decide +kernel)
  have asks : AsksFor ["System.Void App.Job::Stop(System.Int32)"] "cfg.json"
      ["print", "--procs", "System.Void App.Job::Stop(System.Int32)", "cfg.json"] :=
    .apart (by decide) (by decide +kernel) (by decide +kernel)
  obtain ⟨invocation, chosen, reads, prints, -, intended, -⟩ :=
    print_by_names [jobAssembly] .standard jobProgram_heldAt (by decide) occur asks
  refine ⟨jobProgram_heldAt, invocation, chosen, reads, congrArg Plan.outputs prints, ?_⟩
  exact intended.mpr (List.forall_mem_singleton.mpr (by decide +kernel))

/-- The method with two parameters is in the program, but nothing is printed by its name. -/
theorem Plan.print_nothing_run :
    jobProgram.procedures["System.Void App.Job::Run(System.Int32,System.Int32)"]?.isSome ∧
      jobProgram.HeldAt findJobs "cfg.json" ∧
      ∃ invocation,
        Invocation.read ["print", "--procs", "System.Void App.Job::Run(System.Int32,System.Int32)",
          "cfg.json"] = .ok invocation ∧
        (ofSubcommand findJobs invocation.subcommand).outputs = [⟨"-", ""⟩] ∧
        (ofSubcommand findJobs invocation.subcommand).messages =
          [.warn "no matching procedure in cfg.json"] := by
  have asks : AsksFor ["System.Void App.Job::Run(System.Int32,System.Int32)"] "cfg.json"
      ["print", "--procs", "System.Void App.Job::Run(System.Int32,System.Int32)", "cfg.json"] :=
    .apart (by decide) (by decide +kernel) (by decide +kernel)
  have parts : splitText ',' (",".intercalate
      ["System.Void App.Job::Run(System.Int32,System.Int32)"]) =
        ["System.Void App.Job::Run(System.Int32", "System.Int32)"] := by decide +kernel
  obtain ⟨chosen, chooses, prints⟩ := ofSubcommand_print_of_heldAt jobProgram_heldAt
    (splitText ',' (",".intercalate ["System.Void App.Job::Run(System.Int32,System.Int32)"]))
  have absent : ∀ name ∈ ["System.Void App.Job::Run(System.Int32", "System.Int32)"],
      jobProgram.procedures[name]?.isNone :=
    List.forall_mem_cons.mpr
      ⟨by decide +kernel, List.forall_mem_singleton.mpr (by decide +kernel)⟩
  have none : chosen = [] := by
    refine List.eq_nil_iff_forall_not_mem.mpr fun entry listed => ?_
    obtain ⟨found, asked⟩ := (chooses.mem_iff entry.1 entry.2).mp listed
    rw [parts] at asked
    have missing := absent entry.1 (asked.resolve_left (List.cons_ne_nil _ _))
    rw [found] at missing
    exact Bool.false_ne_true missing
  rw [none] at prints
  exact ⟨by decide +kernel, jobProgram_heldAt, _, asks.read, congrArg Plan.outputs prints,
    congrArg Plan.messages prints⟩

end BytecodeFlow

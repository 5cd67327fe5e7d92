/-
This file proves that the program of several assemblies is the concatenation of
its methods, each lowered by itself (`Program.Concatenates`). A method is
lowered to the same graph whatever the program holds already; only the numbers
on it differ (`renumber`). So the procedures of the methods that are `kept`
follow one another, their nodes are numbered without a gap, and methods that
are given up or skipped leave no trace.
-/

import Mathlib.Algebra.GroupWithZero.Nat
import Mathlib.Data.List.Nodup
import Mathlib.Data.List.Perm.Basic
import BytecodeFlow.Lowering.Build
import BytecodeFlow.Proofs.Lowering.Seeding
import BytecodeFlow.Proofs.Walk.Relabeling

namespace BytecodeFlow

namespace Procedure

/-- A procedure with another id, and the ids of its nodes moved up. -/
def renumber (procedure : Procedure) (id offset : Nat) : Procedure :=
  { procedure with id, firstNodeId := procedure.firstNodeId + offset }

theorem nodeId_renumber (procedure : Procedure) (id offset : Nat) (index : NodeIndex) :
    (procedure.renumber id offset).nodeId index = procedure.nodeId index + offset :=
  Nat.add_right_comm ..

/-- The ids of all nodes. -/
def allNodeIds (procedure : Procedure) : List Nat :=
  (List.range procedure.nodes.size).map procedure.nodeId

end Procedure

namespace Lowered

/-! ### One method in different programs -/

/-- The `Heading` that the next procedure of a program gets. -/
def headingIn (program : Program) (signature : Signature) : Heading :=
  ⟨program.nextProcedureId, signature, program.nextNodeId⟩

theorem seeded_retitle (program other : Program) (declaring : TypeDef) (method : MethodDef)
    (body : MethodBody) :
    seeded program declaring method body =
      (seeded other declaring method body).retitle
        (headingIn program (signatureOf declaring method body)) := by
  unfold seeded prepared constructorPrologue Walk.seed
  dsimp only
  split <;> split <;> rfl

/-- What `Lowered` keeps of a run over a method. -/
def ofRun (method : MethodDef) (ran : Walk × Outcome) : Lowered :=
  let isKept := ran.2 == .complete || method.isDispose
  { outcome := ran.2
    procedure := if isKept then ran.1.procedure.finish else ran.1.procedure
    isKept }

theorem ofMethod_eq_ofRun (program : Program) (declaring : TypeDef) (method : MethodDef)
    (body : MethodBody) (limits : Limits) :
    ofMethod program declaring method body limits =
      ofRun method (Walk.run (Routine.ofBody declaring.name method body) limits limits.iterations
        (seeded program declaring method body)) := rfl

theorem ofRun_retitle (method : MethodDef) (walk : Walk) (outcome : Outcome) (heading : Heading) :
    ofRun method (walk.retitle heading, outcome) =
      { ofRun method (walk, outcome) with
        procedure := (ofRun method (walk, outcome)).procedure.retitle heading } := by
  have finished := Procedure.finish_retitle walk.procedure heading
  unfold ofRun
  dsimp only
  split
  · exact congrArg (Lowered.mk _ · _) finished
  · rfl

/-- A method is lowered to the same graph under any `Heading`, so in every program. -/
theorem ofMethod_retitle (program other : Program) (declaring : TypeDef) (method : MethodDef)
    (body : MethodBody) (limits : Limits) :
    ofMethod program declaring method body limits =
      { ofMethod other declaring method body limits with
        procedure := (ofMethod other declaring method body limits).procedure.retitle
          (headingIn program (signatureOf declaring method body)) } := by
  rw [ofMethod_eq_ofRun, seeded_retitle program other, Walk.run_retitle, ofRun_retitle]
  rfl

/-- A lowered method has the heading that the program gave it. -/
theorem heading_ofMethod (program : Program) (declaring : TypeDef) (method : MethodDef)
    (body : MethodBody) (limits : Limits) :
    (ofMethod program declaring method body limits).procedure.heading =
      headingIn program (signatureOf declaring method body) := by
  rw [ofMethod_retitle program program]
  rfl

end Lowered

/-! ### The methods that are kept -/

namespace Candidate

/-- A method lowered by itself. -/
def alone (candidate : Candidate) (limits : Limits) : Lowered :=
  .ofMethod .empty candidate.declaring candidate.method candidate.body limits

/-- The first method of each name. -/
def firsts : List Candidate → List Candidate
  | [] => []
  | candidate :: rest => candidate :: (firsts rest).filter (·.name != candidate.name)

/-- Whether a procedure is kept of a method: it needs line information, and to be lowered
completely unless it disposes of a resource. -/
def isKept (limits : Limits) (candidate : Candidate) : Bool :=
  candidate.method.firstLine.isSome && (candidate.alone limits).isKept

/-- Of the `firsts`, the methods of which a procedure `isKept`. -/
def kept (limits : Limits) (candidates : List Candidate) : List Candidate :=
  (firsts candidates).filter (isKept limits)

/-- How many nodes methods have together. -/
def nodesOf (limits : Limits) (candidates : List Candidate) : Nat :=
  (candidates.map fun candidate => (candidate.alone limits).procedure.nodes.size).sum

theorem firsts_append (candidates : List Candidate) (last : Candidate) :
    firsts (candidates ++ [last]) =
      firsts candidates ++ if last.name ∈ candidates.map name then [] else [last] := by
  induction candidates with
  | nil => rfl
  | cons first rest inductionHypothesis =>
    rw [List.cons_append, firsts, inductionHypothesis, List.filter_append, firsts,
      List.cons_append]
    have listed : last.name ∈ (first :: rest).map name ↔
      last.name = first.name ∨ last.name ∈ rest.map name := List.mem_cons
    simp only [listed]
    by_cases same : last.name = first.name <;> by_cases again : last.name ∈ rest.map name <;>
      simp only [same, again, or_self, or_true, true_or, if_true, if_false] <;> simp [same]

theorem kept_append (limits : Limits) (candidates : List Candidate) (last : Candidate) :
    kept limits (candidates ++ [last]) =
      kept limits candidates ++
        if last.name ∉ candidates.map name ∧ last.isKept limits then [last] else [] := by
  unfold kept
  rw [firsts_append, List.filter_append]
  by_cases again : last.name ∈ candidates.map name <;>
    by_cases keeps : last.isKept limits <;> simp [again, keeps]

theorem mem_firsts {candidates : List Candidate} {candidate : Candidate}
    (member : candidate ∈ firsts candidates) : candidate ∈ candidates := by
  induction candidates with
  | nil => cases member
  | cons first rest inductionHypothesis =>
    rcases List.mem_cons.mp member with rfl | later
    · exact List.mem_cons_self
    · exact List.mem_cons_of_mem _ (inductionHypothesis (List.mem_filter.mp later).1)

theorem nodup_firsts (candidates : List Candidate) : ((firsts candidates).map name).Nodup := by
  induction candidates with
  | nil => exact List.nodup_nil
  | cons first rest inductionHypothesis =>
    refine List.nodup_cons.mpr ⟨?_, inductionHypothesis.sublist (List.filter_sublist.map name)⟩
    intro again
    obtain ⟨other, member, same⟩ := List.mem_map.mp again
    simpa [same] using (List.mem_filter.mp member).2

theorem nodup_kept (limits : Limits) (candidates : List Candidate) :
    ((kept limits candidates).map name).Nodup :=
  (nodup_firsts candidates).sublist (List.filter_sublist.map name)

theorem name_mem_of_kept {limits : Limits} {candidates : List Candidate} {key : String}
    (member : key ∈ (kept limits candidates).map name) : key ∈ candidates.map name := by
  obtain ⟨candidate, listed, rfl⟩ := List.mem_map.mp member
  exact List.mem_map_of_mem (mem_firsts (List.mem_filter.mp listed).1)

/-- The procedures of methods lowered `alone` under their names, one after the other, and
`renumber`ed from given numbers on. -/
def placed (limits : Limits) : (id offset : Nat) → List Candidate → List (String × Procedure)
  | _, _, [] => []
  | id, offset, candidate :: rest =>
    (candidate.name, (candidate.alone limits).procedure.renumber id offset) ::
      placed limits (id + 1) (offset + (candidate.alone limits).procedure.nodes.size) rest

theorem placed_append (limits : Limits) (id offset : Nat) (methods : List Candidate)
    (last : Candidate) :
    placed limits id offset (methods ++ [last]) =
      placed limits id offset methods ++
        [(last.name, (last.alone limits).procedure.renumber (id + methods.length)
          (offset + nodesOf limits methods))] := by
  induction methods generalizing id offset with
  | nil => rfl
  | cons first rest inductionHypothesis =>
    rw [List.cons_append, placed, placed, inductionHypothesis, List.cons_append]
    congr 5
    · rw [List.length_cons]
      omega
    · exact Nat.add_assoc ..

theorem placed_getElem? (limits : Limits) (id offset : Nat) (methods : List Candidate)
    (position : Nat) :
    (placed limits id offset methods)[position]? =
      methods[position]?.map fun candidate =>
        (candidate.name, (candidate.alone limits).procedure.renumber (id + position)
          (offset + nodesOf limits (methods.take position))) := by
  induction methods generalizing id offset position with
  | nil => rfl
  | cons first rest inductionHypothesis =>
    cases position with
    | zero => rfl
    | succ position =>
      rw [placed, List.getElem?_cons_succ, inductionHypothesis, List.getElem?_cons_succ]
      refine congrArg (Option.map · _) (funext fun candidate => ?_)
      congr 2
      · omega
      · exact Nat.add_assoc ..

theorem map_fst_placed (limits : Limits) (id offset : Nat) (methods : List Candidate) :
    (placed limits id offset methods).map Prod.fst = methods.map name := by
  induction methods generalizing id offset with
  | nil => rfl
  | cons first rest inductionHypothesis =>
    rw [placed, List.map_cons, List.map_cons, inductionHypothesis]

theorem sum_placed (limits : Limits) (id offset : Nat) (methods : List Candidate) :
    ((placed limits id offset methods).map fun entry => entry.2.nodes.size).sum =
      nodesOf limits methods := by
  induction methods generalizing id offset with
  | nil => rfl
  | cons first rest inductionHypothesis =>
    rw [placed, List.map_cons, List.sum_cons, inductionHypothesis]
    rfl

theorem heading_alone (candidate : Candidate) (limits : Limits) :
    (candidate.alone limits).procedure.heading =
      ⟨0, Lowered.signatureOf candidate.declaring candidate.method candidate.body, 0⟩ :=
  Lowered.heading_ofMethod ..

theorem firstNodeId_alone (candidate : Candidate) (limits : Limits) :
    (candidate.alone limits).procedure.firstNodeId = 0 :=
  congrArg Heading.firstNodeId (heading_alone candidate limits)

/-- In a program a method gets the procedure that it has when lowered `alone`, with the next free
numbers. -/
theorem procedure_ofMethod (candidate : Candidate) (program : Program) (limits : Limits) :
    (Lowered.ofMethod program candidate.declaring candidate.method candidate.body
        limits).procedure =
      (candidate.alone limits).procedure.renumber program.nextProcedureId program.nextNodeId := by
  have signature : (candidate.alone limits).procedure.signature =
    Lowered.signatureOf candidate.declaring candidate.method candidate.body :=
    congrArg Heading.signature (candidate.heading_alone limits)
  rw [Lowered.ofMethod_retitle program .empty, Procedure.renumber, candidate.firstNodeId_alone,
    Nat.zero_add]
  exact congrArg (fun signature => (candidate.alone limits).procedure.retitle
    ⟨program.nextProcedureId, signature, program.nextNodeId⟩) signature.symm

theorem name_of_placed {limits : Limits} {id offset : Nat} {methods : List Candidate}
    {key : String} {procedure : Procedure}
    (listed : (key, procedure) ∈ placed limits id offset methods) : procedure.name = key := by
  induction methods generalizing id offset with
  | nil => cases listed
  | cons first rest inductionHypothesis =>
    rcases List.mem_cons.mp listed with same | later
    · obtain ⟨rfl, rfl⟩ := Prod.mk.inj same
      exact congrArg (fun heading => heading.signature.name) (heading_alone first limits)
    · exact inductionHypothesis later

/-- The ids of all nodes, in order, are the numbers from the first one on. -/
theorem allNodeIds_placed (limits : Limits) (id offset : Nat) (methods : List Candidate) :
    (placed limits id offset methods).flatMap (fun entry => entry.2.allNodeIds) =
      List.range' offset (nodesOf limits methods) := by
  induction methods generalizing id offset with
  | nil => rfl
  | cons first rest inductionHypothesis =>
    have own : ((first.alone limits).procedure.renumber id offset).allNodeIds =
        List.range' offset (first.alone limits).procedure.nodes.size := by
      rw [List.range'_eq_map_range, Procedure.allNodeIds]
      refine List.map_congr_left fun index _ => ?_
      rw [Procedure.nodeId_renumber, Procedure.nodeId, first.firstNodeId_alone, Nat.zero_add,
        Nat.add_comm]
    rw [placed, List.flatMap_cons, inductionHypothesis, own, List.range'_append_1]
    rfl

end Candidate

/-! ### The program after some methods -/

/-- A program that holds what `Candidate.placed` makes of methods, and goes on numbering after
them. -/
structure Program.Concatenates (limits : Limits) (methods : List Candidate) (program : Program) :
    Prop where
  holds : ∀ name procedure, program.procedures[name]? = some procedure ↔
    (name, procedure) ∈ Candidate.placed limits 0 0 methods
  nextNodeId : program.nextNodeId = Candidate.nodesOf limits methods
  nextProcedureId : program.nextProcedureId = methods.length

namespace Program.Concatenates

variable {limits : Limits} {methods : List Candidate} {program : Program} {candidate : Candidate}

theorem empty (limits : Limits) : Concatenates limits [] .empty where
  holds name procedure := by simp [Program.empty, Candidate.placed]
  nextNodeId := rfl
  nextProcedureId := rfl

theorem commit (concatenates : program.Concatenates limits methods)
    (new : candidate.name ∉ methods.map Candidate.name) :
    (program.commit (Lowered.ofMethod program candidate.declaring candidate.method candidate.body
      limits).procedure).Concatenates limits (methods ++ [candidate]) := by
  let result := (candidate.alone limits).procedure.renumber program.nextProcedureId
    program.nextNodeId
  have lowered : (Lowered.ofMethod program candidate.declaring candidate.method candidate.body
      limits).procedure = result := candidate.procedure_ofMethod program limits
  have named : result.name = candidate.name :=
    congrArg (fun heading => heading.signature.name) (candidate.heading_alone limits)
  have starts : result.firstNodeId = program.nextNodeId := by
    show (candidate.alone limits).procedure.firstNodeId + program.nextNodeId = program.nextNodeId
    rw [candidate.firstNodeId_alone, Nat.zero_add]
  have last : (candidate.alone limits).procedure.renumber (0 + methods.length)
      (0 + Candidate.nodesOf limits methods) = result := by
    rw [Nat.zero_add, Nat.zero_add, ← concatenates.nextProcedureId, ← concatenates.nextNodeId]
  rw [lowered]
  constructor
  · intro name procedure
    rw [Candidate.placed_append, last, List.mem_append, List.mem_singleton,
      ← concatenates.holds name procedure, Program.commit, Std.ExtTreeMap.getElem?_insert, named]
    simp only [Std.LawfulEqCmp.compare_eq_iff_eq]
    by_cases same : candidate.name = name
    · subst same
      have absent : program.procedures[candidate.name]? ≠ some procedure := by
        intro found
        have listed := List.mem_map_of_mem (f := Prod.fst)
          ((concatenates.holds candidate.name procedure).mp found)
        rw [Candidate.map_fst_placed] at listed
        exact new listed
      simp [absent, eq_comm]
    · simp [same, Ne.symm same]
  · rw [Candidate.nodesOf, List.map_append, List.sum_append, ← Candidate.nodesOf,
      ← concatenates.nextNodeId, ← starts]
    rfl
  · rw [List.length_append, ← concatenates.nextProcedureId]
    rfl

theorem names (concatenates : program.Concatenates limits methods) {name : String}
    {procedure : Procedure} (found : program.procedures[name]? = some procedure) :
    name ∈ methods.map Candidate.name := by
  rw [← Candidate.map_fst_placed limits 0 0]
  exact List.mem_map_of_mem (f := Prod.fst) ((concatenates.holds name procedure).mp found)

/-- The procedures of the methods, in their order. -/
theorem filterMap_procedures (concatenates : program.Concatenates limits methods) :
    (methods.filterMap fun method => program.procedures[method.name]?) =
      (Candidate.placed limits 0 0 methods).map Prod.snd :=
  calc (methods.filterMap fun method => program.procedures[method.name]?)
      = (methods.map Candidate.name).filterMap (program.procedures[·]?) := by
        rw [List.filterMap_map]
        rfl
    _ = (Candidate.placed limits 0 0 methods).filterMap
          (fun entry => program.procedures[entry.1]?) := by
        rw [← Candidate.map_fst_placed limits 0 0, List.filterMap_map]
        rfl
    _ = (Candidate.placed limits 0 0 methods).filterMap fun entry => some entry.2 :=
        List.filterMap_congr fun entry listed => (concatenates.holds _ _).mpr listed
    _ = (Candidate.placed limits 0 0 methods).map Prod.snd :=
        congrFun List.filterMap_eq_map _

/-- What a program lists, ordered by names, are the procedures in another order. -/
theorem toList_perm (concatenates : program.Concatenates limits methods)
    (distinct : (methods.map Candidate.name).Nodup) :
    program.toList.Perm (Candidate.placed limits 0 0 methods) := by
  refine (List.perm_ext_iff_of_nodup ?_ ?_).mpr fun entry => ?_
  · refine List.Pairwise.imp ?_ Std.ExtTreeMap.distinct_keys_toList
    rintro first second differ rfl
    exact differ Std.ReflCmp.compare_self
  · rw [← Candidate.map_fst_placed limits 0 0] at distinct
    exact distinct.of_map
  · obtain ⟨name, procedure⟩ := entry
    rw [← concatenates.holds]
    exact Std.ExtTreeMap.mem_toList_iff_getElem?_eq_some

theorem nodeCount (concatenates : program.Concatenates limits methods)
    (distinct : (methods.map Candidate.name).Nodup) :
    program.nodeCount = Candidate.nodesOf limits methods := by
  rw [← Candidate.sum_placed limits 0 0, Program.nodeCount, List.length_flatMap]
  exact ((concatenates.toList_perm distinct).map _).sum_nat

end Program.Concatenates

/-- The names that were met are those of all methods so far, and the program `Concatenates` those of
them that are `kept`. -/
structure Progress.Follows (limits : Limits) (done : List Candidate) (progress : Progress) :
    Prop where
  met : ∀ name, progress.met.contains name = true ↔ name ∈ done.map Candidate.name
  program : progress.program.Concatenates limits (Candidate.kept limits done)

namespace Progress.Follows

variable {limits : Limits} {done : List Candidate} {progress : Progress}

theorem start (limits : Limits) : Follows limits [] .start where
  met name := by simp [Progress.start]
  program := .empty limits

/-- A procedure is kept of the first method of a name, unless it cannot be lowered `alone`. -/
theorem procedure?_treat (follows : Follows limits done progress) (candidate : Candidate) :
    (progress.treat limits candidate).procedure? =
      if candidate.name ∉ done.map Candidate.name ∧ candidate.isKept limits then
        some (Lowered.ofMethod progress.program candidate.declaring candidate.method
          candidate.body limits).procedure
      else none := by
  have keeps : (Lowered.ofMethod progress.program candidate.declaring candidate.method
      candidate.body limits).isKept = (candidate.alone limits).isKept := by
    rw [Lowered.ofMethod_retitle progress.program .empty]
    rfl
  by_cases again : candidate.name ∈ done.map Candidate.name
  · rw [treat, if_pos ((follows.met _).mpr again), if_neg fun both => both.1 again]
    rfl
  · rw [treat, if_neg fun met => again ((follows.met _).mp met)]
    cases lines : candidate.method.firstLine with
    | none =>
      have dropped : candidate.isKept limits = false := by
        rw [Candidate.isKept, lines]
        rfl
      simp [dropped, Treatment.procedure?]
    | some line =>
      have kept : candidate.isKept limits = (candidate.alone limits).isKept := by
        rw [Candidate.isKept, lines]
        rfl
      simp only [Option.isNone_some, Bool.false_eq_true, if_false, Treatment.procedure?, keeps,
        kept, again, not_false_eq_true, true_and]

/-- `Progress.Follows` one more method. -/
theorem advance (follows : Follows limits done progress) (candidate : Candidate) :
    Follows limits (done ++ [candidate])
      (progress.advance candidate (progress.treat limits candidate)) where
  met name := by
    have inserted : (progress.advance candidate (progress.treat limits candidate)).met =
      progress.met.insert candidate.name := rfl
    have last : name ∈ [candidate].map Candidate.name ↔ name = candidate.name := List.mem_singleton
    rw [inserted, Std.ExtTreeSet.contains_insert, Bool.or_eq_true, beq_iff_eq,
      Std.LawfulEqCmp.compare_eq_iff_eq, follows.met, List.map_append, List.mem_append, last,
      or_comm, @eq_comm _ name]
  program := by
    rw [Progress.advance, follows.procedure?_treat, Candidate.kept_append]
    split
    next both =>
      exact follows.program.commit fun listed => both.1 (Candidate.name_mem_of_kept listed)
    · rw [List.append_nil]
      exact follows.program

theorem treatAll (follows : Follows limits done progress) (candidates : List Candidate) :
    Follows limits (done ++ candidates) (progress.treatAll limits candidates).2 := by
  induction candidates generalizing done progress with
  | nil =>
    rw [List.append_nil]
    exact follows
  | cons candidate rest inductionHypothesis =>
    rw [List.append_cons]
    exact inductionHypothesis (follows.advance candidate)

end Progress.Follows

theorem Build.continueWith_concatenates {limits : Limits} {done : List Candidate}
    {progress : Progress} (follows : progress.Follows limits done) (ledger : Ledger)
    (assemblies : List Assembly) :
    (continueWith limits progress ledger assemblies).program.Concatenates limits
      (Candidate.kept limits (done ++ assemblies.flatMap Candidate.ofAssembly)) := by
  induction assemblies generalizing done progress ledger with
  | nil =>
    rw [List.flatMap_nil, List.append_nil]
    exact follows.program
  | cons assembly rest inductionHypothesis =>
    rw [List.flatMap_cons, ← List.append_assoc]
    exact inductionHypothesis (follows.treatAll _) _

/-- The program of some assemblies is the concatenation of its methods. The procedure of the method
that is kept at a position (`Candidate.kept`) is the one it has by itself (`Candidate.alone`), with
the position for its id and its node ids moved up by the number of nodes before it
(`Candidate.nodesOf`). Nothing else is in the program, each procedure is under its own name, and the
nodes are numbered from zero on without a gap. -/
theorem Build.ofAssemblies_concatenates (assemblies : List Assembly) (limits : Limits) :
    let methods := Candidate.kept limits (assemblies.flatMap Candidate.ofAssembly)
    let program := (ofAssemblies assemblies limits).program
    (∀ (position : Nat) (method : Candidate), methods[position]? = some method →
      program.procedures[method.name]? = some ((method.alone limits).procedure.renumber position
        (Candidate.nodesOf limits (methods.take position)))) ∧
    (∀ (name : String) (procedure : Procedure), program.procedures[name]? = some procedure →
      procedure.name = name ∧ name ∈ methods.map Candidate.name) ∧
    (methods.map Candidate.name).Nodup ∧
    program.nextNodeId = program.nodeCount ∧
    (methods.filterMap fun method => program.procedures[method.name]?).flatMap
      Procedure.allNodeIds = List.range program.nodeCount := by
  intro methods program
  have concatenates : program.Concatenates limits methods :=
    continueWith_concatenates (.start limits) .empty assemblies
  have distinct : (methods.map Candidate.name).Nodup := Candidate.nodup_kept limits _
  have count := concatenates.nodeCount distinct
  refine ⟨?_, ?_, distinct, concatenates.nextNodeId.trans count.symm, ?_⟩
  · intro position method found
    refine (concatenates.holds _ _).mpr (List.mem_of_getElem? (i := position) ?_)
    rw [Candidate.placed_getElem?, found, Nat.zero_add, Nat.zero_add]
    rfl
  · intro name procedure found
    exact ⟨Candidate.name_of_placed ((concatenates.holds name procedure).mp found),
      concatenates.names found⟩
  · rw [concatenates.filterMap_procedures, List.flatMap_map, Candidate.allNodeIds_placed, count,
      List.range_eq_range']

end BytecodeFlow

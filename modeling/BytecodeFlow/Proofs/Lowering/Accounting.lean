/-
This file balances the books of a `Build`. Every method with a body is entered
once: it was completed, it was given up with some of its instructions left, or
it was skipped. Dealing with one method keeps the books in balance
(`Ledger.Reflects`), and merging the books of several assemblies is the same as
keeping one set of books.
-/

import BytecodeFlow.Proofs.Journal.Merging
import BytecodeFlow.Proofs.Lowering.Concatenation

namespace BytecodeFlow

/-! ### What is left of a method that is given up -/

/-- Of so many instructions, at least one is left of a method that is given up. -/
def Outcome.Leaves (count : Nat) : Outcome → Prop
  | .complete => True
  | .abandoned _ remaining => 1 ≤ remaining ∧ remaining ≤ count

/-- The instruction at the position that `positionsOf` gives an offset has this offset. -/
theorem getElem?_of_positionsOf {instructions : List Instruction} {offset : Offset}
    {position : Nat} (found : (positionsOf instructions)[offset]? = some position) :
    ∃ instruction, instructions[position]? = some instruction ∧ instruction.offset = offset := by
  have general : ∀ (entries : List (Instruction × Nat)) (positions : Std.ExtTreeMap Offset Nat),
      (entries.foldl (fun positions entry => positions.insert entry.1.offset entry.2)
        positions)[offset]? = some position →
      positions[offset]? = some position ∨
        ∃ instruction, (instruction, position) ∈ entries ∧ instruction.offset = offset := by
    intro entries
    induction entries with
    | nil => exact fun positions found => .inl found
    | cons entry rest inductionHypothesis =>
      intro positions found
      rcases inductionHypothesis _ found with inserted | ⟨instruction, later, same⟩
      · rw [Std.ExtTreeMap.getElem?_insert] at inserted
        split at inserted
        · rename_i same
          cases inserted
          exact .inr ⟨entry.1, List.mem_cons_self, Std.LawfulEqCmp.compare_eq_iff_eq.mp same⟩
        · exact .inl inserted
      · exact .inr ⟨instruction, List.mem_cons_of_mem _ later, same⟩
  rcases general _ _ found with impossible | ⟨instruction, listed, same⟩
  · simp at impossible
  · exact ⟨instruction, List.mk_mem_zipIdx_iff_getElem?.mp listed, same⟩

theorem lt_length_of_positionsOf {instructions : List Instruction} {offset : Offset}
    {position : Nat} (found : (positionsOf instructions)[offset]? = some position) :
    position < instructions.length := by
  obtain ⟨instruction, held, -⟩ := getElem?_of_positionsOf found
  exact (List.getElem?_eq_some_iff.mp held).1

namespace Routine

/-- From every offset on there is at least one instruction, as `Routine.remaining` counts. -/
def NeverEmpty (routine : Routine) : Prop :=
  ∀ offset, 1 ≤ routine.remaining offset ∧ routine.remaining offset ≤ routine.instructions.size

theorem neverEmpty_ofBody (declaringType : String) (method : MethodDef) {body : MethodBody}
    (filled : body.instructions ≠ []) : (ofBody declaringType method body).NeverEmpty := by
  intro offset
  have size : (ofBody declaringType method body).instructions.size = body.instructions.length :=
    List.size_toArray ..
  have some := List.length_pos_iff.mpr filled
  unfold remaining
  rw [size]
  split
  next position found =>
    have inside : position < body.instructions.length := lt_length_of_positionsOf found
    omega
  · exact ⟨some, Nat.le_refl _⟩

end Routine

namespace Walk

variable {routine : Routine} {limits : Limits}

theorem stepAt_leaves (neverEmpty : routine.NeverEmpty) (walk : Walk) (offset : Offset) :
    ∀ outcome ∈ (walk.stepAt routine offset).2, outcome.Leaves routine.instructions.size := by
  have all : 1 ≤ routine.instructions.size ∧
    routine.instructions.size ≤ routine.instructions.size :=
    ⟨Nat.le_trans (neverEmpty offset).1 (neverEmpty offset).2, Nat.le_refl _⟩
  unfold stepAt
  split
  · rintro outcome ⟨⟩
    exact all
  · split
    · rintro outcome ⟨⟩
    · rintro outcome ⟨⟩
      exact neverEmpty offset
    · rintro outcome ⟨⟩
      exact all

theorem turn_leaves (neverEmpty : routine.NeverEmpty) (limits : Limits) (walk : Walk)
    (overdue : Bool) (pending : Pending) :
    ∀ outcome ∈ (walk.turn routine limits overdue pending).2,
      outcome.Leaves routine.instructions.size := by
  unfold turn
  dsimp only
  split
  · rintro outcome ⟨⟩
  · split
    · rintro outcome ⟨⟩
      exact neverEmpty pending.offset
    · exact stepAt_leaves neverEmpty _ _

theorem drain_leaves (neverEmpty : routine.NeverEmpty) (waiting : List Pending) (walk : Walk) :
    (drain routine limits waiting walk).2.Leaves routine.instructions.size := by
  induction waiting generalizing walk with
  | nil => trivial
  | cons pending rest inductionHypothesis =>
    have turned := turn_leaves neverEmpty limits { walk with worklist := rest } true pending
    unfold drain
    split
    · exact inductionHypothesis _
    next ended => exact turned _ (congrArg Prod.snd ended)

theorem run_leaves (neverEmpty : routine.NeverEmpty) (budget : Nat) (walk : Walk) :
    (run routine limits budget walk).2.Leaves routine.instructions.size := by
  induction budget generalizing walk with
  | zero => exact drain_leaves neverEmpty _ walk
  | succ budget inductionHypothesis =>
    unfold run
    split
    · trivial
    next pending rest waiting =>
      have turned := turn_leaves neverEmpty limits { walk with worklist := rest } false pending
      split
      · exact inductionHypothesis _
      next ended => exact turned _ (congrArg Prod.snd ended)

end Walk

namespace Candidate

/-- Whether an instruction of a method has a line. -/
def hasLines (candidate : Candidate) : Prop :=
  ∃ instruction ∈ candidate.body.instructions, instruction.line.isSome

/-- Methods come with the body that they have in their type. -/
theorem body_of_mem_ofAssembly {assembly : Assembly} {candidate : Candidate}
    (listed : candidate ∈ ofAssembly assembly) : candidate.method.body = some candidate.body := by
  obtain ⟨declaring, -, member⟩ := List.mem_flatMap.mp listed
  obtain ⟨method, -, made⟩ := List.mem_filterMap.mp member
  split at made
  · cases made
  · obtain ⟨body, found, rfl⟩ := Option.map_eq_some_iff.mp made
    exact found

/-- The methods of assemblies are those of their types. -/
theorem flatMap_ofAssembly (assemblies : List Assembly) :
    assemblies.flatMap ofAssembly = (assemblies.flatMap Assembly.types).flatMap ofType :=
  List.flatMap_assoc.symm

/-- The methods that can be lowered are those with a body that are not abstract. -/
theorem length_flatMap_ofAssembly (assemblies : List Assembly) :
    (assemblies.flatMap ofAssembly).length =
      ((assemblies.flatMap Assembly.types).flatMap TypeDef.methods).countP
        fun method => !method.isAbstract && method.body.isSome := by
  have ofOne : ∀ declaring, (ofType declaring).length =
      declaring.methods.countP fun method => !method.isAbstract && method.body.isSome := by
    intro declaring
    rw [ofType, List.length_filterMap_eq_countP]
    refine List.countP_congr fun method _ => ?_
    cases method.isAbstract <;> simp
  rw [flatMap_ofAssembly, List.length_flatMap, List.countP_flatMap]
  exact congrArg List.sum (List.map_congr_left fun declaring _ => ofOne declaring)

theorem isSome_firstLine {candidate : Candidate}
    (own : candidate.method.body = some candidate.body) :
    candidate.method.firstLine.isSome ↔ candidate.hasLines := by
  have first : candidate.method.firstLine =
      candidate.body.instructions.findSome? Instruction.line := by
    rw [MethodDef.firstLine, own]
    rfl
  rw [first, List.findSome?_isSome_iff]
  rfl

/-- A method with line information that is lowered `alone` and given up `Leaves` some of its
instructions. -/
theorem alone_leaves {candidate : Candidate} (limits : Limits) (lines : candidate.hasLines) :
    (candidate.alone limits).outcome.Leaves candidate.instructionCount := by
  obtain ⟨instruction, member, -⟩ := lines
  have filled : candidate.body.instructions ≠ [] := List.ne_nil_of_mem member
  exact Walk.run_leaves (Routine.neverEmpty_ofBody _ _ filled) _ _

end Candidate

/-! ### What becomes of the methods -/

/-- What becomes of a method after others: it is a duplicate, it has no lines, or it is lowered as
if `alone`. -/
inductive Treats (limits : Limits) (done : List Candidate) (candidate : Candidate) :
    Treatment → Prop
  | duplicate (again : candidate.name ∈ done.map Candidate.name) :
    Treats limits done candidate .duplicate
  | withoutLines (new : candidate.name ∉ done.map Candidate.name)
    (lines : candidate.method.firstLine = none) : Treats limits done candidate .withoutLines
  | lowered (result : Lowered) (new : candidate.name ∉ done.map Candidate.name)
    (lines : candidate.method.firstLine.isSome)
    (outcome : result.outcome = (candidate.alone limits).outcome) :
    Treats limits done candidate (.lowered result)

/-- `Treats` has a method lowered just if it is the first one of its name and has line
information. -/
theorem Treats.lowered_iff {limits : Limits} {done : List Candidate} {candidate : Candidate}
    {treatment : Treatment} (treats : Treats limits done candidate treatment)
    (own : candidate.method.body = some candidate.body) :
    (∃ result, treatment = .lowered result) ↔
      candidate.name ∉ done.map Candidate.name ∧ candidate.hasLines := by
  rw [← Candidate.isSome_firstLine own]
  cases treats with
  | duplicate again =>
    exact iff_of_false (fun ⟨_, impossible⟩ => nomatch impossible) fun both => both.1 again
  | withoutLines new lines =>
    refine iff_of_false (fun ⟨_, impossible⟩ => nomatch impossible) fun both => ?_
    rw [lines] at both
    cases both.2
  | lowered result new lines outcome => exact iff_of_true ⟨result, rfl⟩ ⟨new, lines⟩

/-- What becomes of methods in turn: each is one that `Treats` describes, after those before it. -/
inductive TreatsAll (limits : Limits) : List Candidate → List (Candidate × Treatment) → Prop
  | nil (done : List Candidate) : TreatsAll limits done []
  | cons {done : List Candidate} {candidate : Candidate} {treatment : Treatment}
    {rest : List (Candidate × Treatment)} (first : Treats limits done candidate treatment)
    (others : TreatsAll limits (done ++ [candidate]) rest) :
    TreatsAll limits done ((candidate, treatment) :: rest)

namespace Progress

variable {limits : Limits} {done : List Candidate} {progress : Progress}

theorem Follows.treats (follows : Follows limits done progress) (candidate : Candidate) :
    Treats limits done candidate (progress.treat limits candidate) := by
  unfold treat
  split
  next again => exact .duplicate ((follows.met _).mp again)
  next unmet =>
    have new : candidate.name ∉ done.map Candidate.name := fun again =>
      unmet ((follows.met _).mpr again)
    split
    next lines => exact .withoutLines new (Option.isNone_iff_eq_none.mp lines)
    next lines =>
      refine .lowered _ new (by simpa [Option.isSome_iff_ne_none] using lines) ?_
      rw [Lowered.ofMethod_retitle progress.program .empty]
      rfl

theorem Follows.treatsAll (follows : Follows limits done progress) (candidates : List Candidate) :
    TreatsAll limits done (progress.treatAll limits candidates).1 := by
  induction candidates generalizing done progress with
  | nil => exact .nil done
  | cons candidate rest inductionHypothesis =>
    exact .cons (follows.treats candidate) (inductionHypothesis (follows.advance candidate))

theorem map_fst_treatAll (limits : Limits) (progress : Progress) (candidates : List Candidate) :
    (progress.treatAll limits candidates).1.map Prod.fst = candidates := by
  induction candidates generalizing progress with
  | nil => rfl
  | cons candidate rest inductionHypothesis =>
    exact congrArg (candidate :: ·) (inductionHypothesis _)

theorem treatAll_append (limits : Limits) (progress : Progress) (first second : List Candidate) :
    progress.treatAll limits (first ++ second) =
      let (treated, after) := progress.treatAll limits first
      let (others, final) := after.treatAll limits second
      (treated ++ others, final) := by
  induction first generalizing progress with
  | nil => rfl
  | cons candidate rest inductionHypothesis =>
    rw [List.cons_append, treatAll, inductionHypothesis]
    rfl

end Progress

namespace TreatsAll

variable {limits : Limits} {done : List Candidate} {treated : List (Candidate × Treatment)}

/-- What becomes of a method, after those before it, is what `Treats` says. -/
theorem treats (all : TreatsAll limits done treated) {position : Nat} {candidate : Candidate}
    {treatment : Treatment} (found : treated[position]? = some (candidate, treatment)) :
    Treats limits (done ++ (treated.map Prod.fst).take position) candidate treatment := by
  induction all generalizing position with
  | nil done => cases found
  | cons first others inductionHypothesis =>
    cases position with
    | zero =>
      cases found
      rw [List.take_zero, List.append_nil]
      exact first
    | succ position =>
      have later := inductionHypothesis found
      rw [List.append_assoc] at later
      exact later

end TreatsAll

/-! ### The methods that were lowered -/

theorem MethodDef.isDispose_iff {method : MethodDef} :
    method.isDispose ↔ method.returnType = "System.Void" ∧
      (method.name = "Dispose" ∨ method.name = "System.IDisposable.Dispose") := by
  simp [isDispose, voidName, and_comm]

/-- A method that was lowered, with what came out. -/
def Treatment.attempt (candidate : Candidate) : Treatment → List (Candidate × Outcome)
  | .duplicate | .withoutLines => []
  | .lowered result => [(candidate, result.outcome)]

/-- The methods that were lowered, with what came out, from each `Treatment.attempt`. -/
def Build.attempts (treated : List (Candidate × Treatment)) : List (Candidate × Outcome) :=
  treated.flatMap fun entry => entry.2.attempt entry.1

/-- Whether a procedure is kept of a method that was lowered. -/
def Build.keeps (attempt : Candidate × Outcome) : Bool :=
  attempt.2 == .complete || attempt.1.method.isDispose

theorem Build.attempts_cons (candidate : Candidate) (treatment : Treatment)
    (rest : List (Candidate × Treatment)) :
    attempts ((candidate, treatment) :: rest) = treatment.attempt candidate ++ attempts rest :=
  rfl

section Kept

variable {limits : Limits} {done : List Candidate} {candidate : Candidate} {treatment : Treatment}

theorem Treats.kept_append (treats : Treats limits done candidate treatment) :
    Candidate.kept limits (done ++ [candidate]) =
      Candidate.kept limits done ++
        ((treatment.attempt candidate).filter Build.keeps).map Prod.fst := by
  rw [Candidate.kept_append]
  refine congrArg (Candidate.kept limits done ++ ·) ?_
  cases treats with
  | duplicate again =>
    rw [if_neg fun both => both.1 again]
    rfl
  | withoutLines new lines =>
    have dropped : candidate.isKept limits = false := by simp [Candidate.isKept, lines]
    rw [dropped, if_neg fun both => Bool.noConfusion both.2]
    rfl
  | lowered result new lines outcome =>
    have keeps : candidate.isKept limits = Build.keeps (candidate, result.outcome) := by
      rw [Candidate.isKept, lines, Bool.true_and, Build.keeps, outcome]
      rfl
    rw [Treatment.attempt, keeps, List.filter_singleton]
    by_cases isKept : Build.keeps (candidate, result.outcome) <;> simp [isKept, new]

/-- Of the methods that were lowered, those are kept that were completed or dispose of a
resource. -/
theorem TreatsAll.kept_append {treated : List (Candidate × Treatment)}
    (all : TreatsAll limits done treated) :
    Candidate.kept limits (done ++ treated.map Prod.fst) =
      Candidate.kept limits done ++
        ((Build.attempts treated).filter Build.keeps).map Prod.fst := by
  induction all with
  | nil done => simp [Build.attempts]
  | cons first others inductionHypothesis =>
    rw [List.map_cons, List.append_cons, inductionHypothesis, first.kept_append,
      Build.attempts_cons, List.filter_append, List.map_append, List.append_assoc]

end Kept

/-- A method that was lowered is kept if it was completed, or else if it disposes of a resource. -/
theorem Build.countP_keeps (attempts : List (Candidate × Outcome)) :
    attempts.countP keeps =
      (attempts.countP fun attempt => attempt.2 = .complete) +
        attempts.countP fun attempt => attempt.2 ≠ .complete ∧ attempt.1.method.isDispose := by
  induction attempts with
  | nil => rfl
  | cons attempt rest inductionHypothesis =>
    simp only [List.countP_cons, inductionHypothesis, keeps]
    by_cases completed : attempt.2 = .complete <;>
      by_cases disposes : attempt.1.method.isDispose <;> simp [completed, disposes] <;> omega

theorem Program.Concatenates.procedureCount {limits : Limits} {methods : List Candidate}
    {program : Program} (concatenates : program.Concatenates limits methods)
    (distinct : (methods.map Candidate.name).Nodup) :
    program.procedureCount = methods.length :=
  calc program.procedureCount
      = program.toList.length := Std.ExtTreeMap.length_toList.symm
    _ = (Candidate.placed limits 0 0 methods).length :=
        (concatenates.toList_perm distinct).length_eq
    _ = ((Candidate.placed limits 0 0 methods).map Prod.fst).length := (List.length_map _).symm
    _ = methods.length := by rw [Candidate.map_fst_placed, List.length_map]

/-! ### The books -/

namespace Ledger

/-- What is in a ledger after some methods, given the `attempts` among them. -/
structure Reflects (methods : Nat) (attempts : List (Candidate × Outcome)) (ledger : Ledger) :
    Prop where
  methods : methods = ledger.completeMethods + ledger.unfinished.size +
    ledger.skippedDuplicates + ledger.skippedWithoutLines
  completeMethods : ledger.completeMethods = attempts.countP fun attempt => attempt.2 = .complete
  unfinished : ∀ name remaining, ledger.unfinished[name]? = some remaining ↔
    ∃ candidate reason, (candidate, .abandoned reason remaining) ∈ attempts ∧ candidate.name = name
  left : ∀ attempt ∈ attempts, attempt.2.Leaves attempt.1.instructionCount
  totalInstructions : ledger.totalInstructions =
    (attempts.map fun attempt => attempt.1.instructionCount).sum
  skipped : Tally.sum ledger.unfinished ≤ ledger.totalInstructions
  troubles : ledger.timedOut + ledger.unknownInstructions.sum ≤ ledger.unfinished.size

theorem reflects_empty : empty.Reflects 0 [] where
  methods := rfl
  completeMethods := rfl
  unfinished name remaining := by simp [empty]
  left := fun _ listed => nomatch listed
  totalInstructions := rfl
  skipped := Nat.le_refl 0
  troubles := Nat.le_refl 0

/-- A reason for giving up is counted at most once, and nothing else is. -/
theorem foldl_eventsOfReason (ledger : Ledger) (reason : Abandonment) :
    ∃ timedOut unknownInstructions,
      (Treatment.eventsOfReason reason).foldl record ledger =
        { ledger with timedOut, unknownInstructions } ∧
      timedOut + Tally.sum unknownInstructions ≤
        ledger.timedOut + ledger.unknownInstructions.sum + 1 := by
  cases reason with
  | timeout => exact ⟨_, _, rfl, by omega⟩
  | unknownInstruction mnemonic => exact ⟨_, _, rfl, by rw [Tally.sum_add]; omega⟩
  | unhandledRegions => exact ⟨_, _, rfl, by rw [Tally.sum_add]; omega⟩
  | unsupportedRegions => exact ⟨_, _, rfl, by omega⟩
  | internal fault => exact ⟨_, _, rfl, by omega⟩

namespace Reflects

variable {methods remaining : Nat} {attempts : List (Candidate × Outcome)} {ledger : Ledger}
  {candidate : Candidate} {reason : Abandonment}

theorem complete (reflects : ledger.Reflects methods attempts) (candidate : Candidate) :
    (ledger.record (.complete candidate.instructionCount)).Reflects (methods + 1)
      (attempts ++ [(candidate, .complete)]) where
  methods := by
    have before := reflects.methods
    simp only [record]
    omega
  completeMethods := by simp [record, reflects.completeMethods, List.countP_append]
  unfinished name remaining := by simp [record, reflects.unfinished]
  left := List.forall_mem_append.mpr ⟨reflects.left, List.forall_mem_singleton.mpr trivial⟩
  totalInstructions := by simp [record, reflects.totalInstructions]
  skipped := Nat.le_add_right_of_le reflects.skipped
  troubles := reflects.troubles

theorem unfinished_of_new (reflects : ledger.Reflects methods attempts)
    (new : candidate.name ∉ attempts.map fun attempt => attempt.1.name) :
    ledger.unfinished[candidate.name]? = none := by
  refine Option.eq_none_iff_forall_ne_some.mpr fun remaining found => new ?_
  obtain ⟨earlier, _, listed, same⟩ := (reflects.unfinished _ _).mp found
  exact List.mem_map.mpr ⟨_, listed, same⟩

/-- No entry for a method that was given up is ever replaced. -/
theorem unfinished_insert (reflects : ledger.Reflects methods attempts)
    (new : candidate.name ∉ attempts.map fun attempt => attempt.1.name) (name : String)
    (other : Nat) :
    (ledger.unfinished.insert candidate.name remaining)[name]? = some other ↔
      ∃ unfinished why, (unfinished, .abandoned why other) ∈
        attempts ++ [(candidate, .abandoned reason remaining)] ∧ unfinished.name = name := by
  simp only [Std.ExtTreeMap.getElem?_insert, Std.LawfulEqCmp.compare_eq_iff_eq]
  by_cases same : candidate.name = name
  · subst same
    simp only [if_true, Option.some.injEq]
    constructor
    · rintro rfl
      exact ⟨candidate, reason, List.mem_append_right _ List.mem_cons_self, rfl⟩
    · rintro ⟨earlier, _, listed, sameName⟩
      rcases List.mem_append.mp listed with before | last
      · exact absurd (List.mem_map.mpr ⟨_, before, sameName⟩) new
      · cases List.mem_singleton.mp last
        rfl
  · rw [if_neg same, reflects.unfinished]
    constructor
    · rintro ⟨earlier, why, listed, sameName⟩
      exact ⟨earlier, why, List.mem_append_left _ listed, sameName⟩
    · rintro ⟨earlier, why, listed, sameName⟩
      rcases List.mem_append.mp listed with before | last
      · exact ⟨earlier, why, before, sameName⟩
      · cases List.mem_singleton.mp last
        exact absurd sameName same

theorem abandoned (reflects : ledger.Reflects methods attempts)
    (new : candidate.name ∉ attempts.map fun attempt => attempt.1.name)
    (left : 1 ≤ remaining ∧ remaining ≤ candidate.instructionCount) :
    ((Treatment.eventsOfReason reason).foldl record (ledger.record
      (.unfinished candidate.name candidate.instructionCount remaining))).Reflects (methods + 1)
      (attempts ++ [(candidate, .abandoned reason remaining)]) := by
  -- The name is new, so that inserting it adds one entry and takes nothing away.
  have absent := reflects.unfinished_of_new new
  have size : (ledger.unfinished.insert candidate.name remaining).size =
      ledger.unfinished.size + 1 := by
    rw [Std.ExtTreeMap.size_insert, if_neg]
    simp [Std.ExtTreeMap.contains_eq_isSome_getElem?, absent]
  have sum : Tally.sum (ledger.unfinished.insert candidate.name remaining) =
      Tally.sum ledger.unfinished + remaining := by
    have inserted := Tally.sum_insert ledger.unfinished candidate.name remaining
    rwa [Std.ExtTreeMap.getD_eq_getD_getElem?, absent, Option.getD_none, Nat.add_zero] at inserted
  obtain ⟨timedOut, unknownInstructions, same, few⟩ := foldl_eventsOfReason
    (ledger.record (.unfinished candidate.name candidate.instructionCount remaining)) reason
  rw [same]
  exact {
    methods := by
      have before := reflects.methods
      simp only [record]
      omega
    completeMethods := by simp [record, reflects.completeMethods, List.countP_append]
    unfinished := reflects.unfinished_insert new
    left := List.forall_mem_append.mpr ⟨reflects.left, List.forall_mem_singleton.mpr left⟩
    totalInstructions := by simp [record, reflects.totalInstructions]
    skipped := by
      have before := reflects.skipped
      simp only [record]
      omega
    troubles := by
      have before := reflects.troubles
      simp only [record] at few ⊢
      omega }

/-- With one more method the ledger `Reflects` them, if it is entered as lowered under a new name
only and with at most all of its instructions left. -/
theorem enter (reflects : ledger.Reflects methods attempts) {treatment : Treatment}
    (new : ∀ result, treatment = .lowered result →
      candidate.name ∉ attempts.map fun attempt => attempt.1.name)
    (left : ∀ result, treatment = .lowered result →
      result.outcome.Leaves candidate.instructionCount) :
    ((treatment.events candidate).foldl record ledger).Reflects (methods + 1)
      (attempts ++ treatment.attempt candidate) := by
  have before := reflects.methods
  cases treatment with
  | duplicate =>
    rw [Treatment.attempt, List.append_nil]
    exact { reflects with methods := by simp only [Treatment.events, List.foldl, record]; omega }
  | withoutLines =>
    rw [Treatment.attempt, List.append_nil]
    exact { reflects with methods := by simp only [Treatment.events, List.foldl, record]; omega }
  | lowered result =>
    rw [Treatment.attempt, Treatment.events]
    cases outcome : result.outcome with
    | complete => exact reflects.complete candidate
    | abandoned reason remaining =>
      have some := left result rfl
      rw [outcome] at some
      exact reflects.abandoned (new result rfl) some

end Reflects

end Ledger

/-- After dealing with all methods the ledger `Reflects` them. -/
theorem TreatsAll.reflects {limits : Limits} {done : List Candidate}
    {treated : List (Candidate × Treatment)} {methods : Nat}
    {attempts : List (Candidate × Outcome)} {ledger : Ledger}
    (all : TreatsAll limits done treated)
    (own : ∀ entry ∈ treated, entry.1.method.body = some entry.1.body)
    (reflects : ledger.Reflects methods attempts)
    (met : ∀ attempt ∈ attempts, attempt.1.name ∈ done.map Candidate.name) :
    ((treated.flatMap fun entry => entry.2.events entry.1).foldl Ledger.record ledger).Reflects
      (methods + treated.length) (attempts ++ Build.attempts treated) := by
  induction all generalizing methods attempts ledger with
  | nil done =>
    rw [Build.attempts, List.flatMap_nil, List.append_nil]
    exact reflects
  | @cons done candidate treatment rest first others inductionHypothesis =>
    have ownBody := own _ List.mem_cons_self
    have entered : ((treatment.events candidate).foldl Ledger.record ledger).Reflects (methods + 1)
        (attempts ++ treatment.attempt candidate) := by
      refine reflects.enter ?_ ?_
      -- A method that is lowered has a new name, while those lowered before it were all met.
      · rintro result rfl listed
        obtain ⟨attempt, earlier, same⟩ := List.mem_map.mp listed
        cases first with
        | lowered _ new _ _ => exact new (same ▸ met attempt earlier)
      · rintro result rfl
        cases first with
        | lowered _ _ lines outcome =>
          rw [outcome]
          exact candidate.alone_leaves limits ((Candidate.isSome_firstLine ownBody).mp lines)
    have metAfter : ∀ attempt ∈ attempts ++ treatment.attempt candidate,
        attempt.1.name ∈ (done ++ [candidate]).map Candidate.name := by
      intro attempt listed
      rw [List.map_append, List.mem_append]
      rcases List.mem_append.mp listed with earlier | last
      · exact .inl (met attempt earlier)
      · cases treatment with
        | lowered result =>
          cases List.mem_singleton.mp last
          exact .inr List.mem_cons_self
        | _ => cases last
    have after := inductionHypothesis (fun entry later => own entry (List.mem_cons_of_mem _ later))
      entered metAfter
    rw [List.append_assoc, Nat.add_assoc, Nat.add_comm 1] at after
    rw [List.flatMap_cons, List.foldl_append]
    exact after

/-! ### The books of several assemblies -/

namespace Build

/-- It does not matter where one assembly ends and the next one begins. -/
theorem continueWith_eq (limits : Limits) (progress : Progress) (ledger : Ledger)
    (assemblies : List Assembly) :
    let build := continueWith limits progress ledger assemblies
    let (treated, after) := progress.treatAll limits (assemblies.flatMap Candidate.ofAssembly)
    build.program = after.program ∧
      build.ledger =
        (treated.flatMap fun entry => entry.2.events entry.1).foldl .record ledger := by
  induction assemblies generalizing progress ledger with
  | nil => exact ⟨rfl, rfl⟩
  | cons assembly rest inductionHypothesis =>
    obtain ⟨program, books⟩ := inductionHypothesis
      (progress.treatAll limits (Candidate.ofAssembly assembly)).2
      (ledger.merge (ledgerOf (progress.treatAll limits (Candidate.ofAssembly assembly)).1))
    rw [List.flatMap_cons, Progress.treatAll_append]
    refine ⟨program, books.trans ?_⟩
    rw [ledgerOf, Ledger.merge_ofEvents, ← List.foldl_append, ← List.flatMap_append]

/-- Assemblies with the same types, however these are spread over them, give the same `Build`: the
same program and the same books. -/
theorem ofAssemblies_regroup {assemblies others : List Assembly}
    (types : assemblies.flatMap Assembly.types = others.flatMap Assembly.types)
    (limits : Limits) :
    (ofAssemblies assemblies limits).program = (ofAssemblies others limits).program ∧
      (ofAssemblies assemblies limits).ledger = (ofAssemblies others limits).ledger := by
  have methods : assemblies.flatMap Candidate.ofAssembly = others.flatMap Candidate.ofAssembly := by
    rw [Candidate.flatMap_ofAssembly, types, Candidate.flatMap_ofAssembly]
  obtain ⟨program, books⟩ := continueWith_eq limits .start .empty assemblies
  obtain ⟨otherProgram, otherBooks⟩ := continueWith_eq limits .start .empty others
  rw [methods] at program books
  exact ⟨program.trans otherProgram.symm, books.trans otherBooks.symm⟩

/-- A type with a method of a single instruction at a line. -/
def singleMethodType (name mnemonic : String) : TypeDef :=
  { Lowered.plainType with
    methods := [{ Lowered.plainMethod with
      name, body := some ⟨[], [⟨0, mnemonic, .none, some 1⟩], []⟩ }] }

/-- A duplicate and a method that is given up are entered in the same way whether they stand in the
assembly of the methods before them or in the next one. -/
theorem ofAssemblies_regroup_duplicate :
    let first := [singleMethodType "Run" "ret", singleMethodType "Halt" "jmp"]
    let second := [singleMethodType "Run" "ret", singleMethodType "Go" "ret"]
    let parts := ofAssemblies [⟨"Left", first⟩, ⟨"Right", second⟩] .standard
    let whole := ofAssemblies [⟨"Empty", []⟩, ⟨"Whole", first ++ second⟩] .standard
    (parts.ledger.skippedDuplicates = 1 ∧ parts.ledger.unfinished.size = 1 ∧
      parts.program.procedureCount = 2) ∧
    parts.program = whole.program ∧ parts.ledger = whole.ledger := by
  intro first second parts whole
  refine ⟨by decide +kernel, ofAssemblies_regroup ?_ .standard⟩
  rfl

/-- The books of a `Build` balance. They are those of all methods taken in turn
(`Progress.treatAll`), and each method that is not abstract and has a body is entered once. It is
lowered just if no method before it has its name and one of its instructions has a line. The methods
that were given up are those under `Ledger.unfinished`, each with at least one and at most all of
its instructions left, so nothing is cut off where `Ledger.coverage` works out the instructions that
were covered. Each of them accounts for at most one timeout or unknown instruction. A procedure is
kept of the complete methods, and of those given up that dispose of a resource. -/
theorem ofAssemblies_balances (assemblies : List Assembly) (limits : Limits) :
    let methods := assemblies.flatMap Candidate.ofAssembly
    let treated := (Progress.start.treatAll limits methods).1
    let lowered := attempts treated
    let build := ofAssemblies assemblies limits
    let ledger := build.ledger
    let coverage := ledger.coverage
    (treated.map Prod.fst = methods ∧ ledger = ledgerOf treated ∧
      build.program = (Progress.start.treatAll limits methods).2.program) ∧
    ((assemblies.flatMap Assembly.types).flatMap TypeDef.methods).countP
        (fun method => !method.isAbstract && method.body.isSome) =
      ledger.completeMethods + ledger.unfinished.size + ledger.skippedDuplicates +
        ledger.skippedWithoutLines ∧
    (∀ (position : Nat) (candidate : Candidate) (treatment : Treatment),
      treated[position]? = some (candidate, treatment) →
      ((∃ result, treatment = .lowered result) ↔
        candidate.name ∉ (methods.take position).map Candidate.name ∧
          ∃ instruction ∈ candidate.body.instructions, instruction.line.isSome)) ∧
    ledger.completeMethods = lowered.countP (fun attempt => attempt.2 = .complete) ∧
    (∀ (name : String) (remaining : Nat), ledger.unfinished[name]? = some remaining ↔
      ∃ candidate reason, (candidate, .abandoned reason remaining) ∈ lowered ∧
        candidate.name = name ∧ 1 ≤ remaining ∧
        remaining ≤ candidate.body.instructions.length) ∧
    ledger.totalInstructions =
      (lowered.map fun attempt => attempt.1.body.instructions.length).sum ∧
    coverage.skippedInstructions ≤ coverage.totalInstructions ∧
    coverage.coveredInstructions + coverage.skippedInstructions = coverage.totalInstructions ∧
    ledger.timedOut + (ledger.unknownInstructions.toList.map Prod.snd).sum ≤
      ledger.unfinished.size ∧
    build.program.procedureCount = ledger.completeMethods + lowered.countP fun attempt =>
      attempt.2 ≠ .complete ∧ attempt.1.method.returnType = "System.Void" ∧
        (attempt.1.method.name = "Dispose" ∨
          attempt.1.method.name = "System.IDisposable.Dispose") := by
  intro methods treated lowered build ledger coverage
  have listed : treated.map Prod.fst = methods := Progress.map_fst_treatAll ..
  have all : TreatsAll limits [] treated := (Progress.Follows.start limits).treatsAll methods
  have own : ∀ entry ∈ treated, entry.1.method.body = some entry.1.body := by
    intro entry member
    have among : entry.1 ∈ methods := listed ▸ List.mem_map_of_mem member
    obtain ⟨assembly, -, declared⟩ := List.mem_flatMap.mp among
    exact Candidate.body_of_mem_ofAssembly declared
  obtain ⟨program, books⟩ := continueWith_eq limits .start .empty assemblies
  have reflects : ledger.Reflects methods.length lowered := by
    have reflects := all.reflects own Ledger.reflects_empty fun _ none => nomatch none
    rw [← books, Nat.zero_add, List.nil_append, ← List.length_map Prod.fst, listed] at reflects
    exact reflects
  refine ⟨⟨listed, books, program⟩, ?_, ?_, reflects.completeMethods, ?_,
    reflects.totalInstructions, reflects.skipped, Nat.sub_add_cancel reflects.skipped,
    (Tally.sum_eq _) ▸ reflects.troubles, ?_⟩
  · rw [← Candidate.length_flatMap_ofAssembly]
    exact reflects.methods
  · intro position candidate treatment found
    have treats := all.treats found
    rw [List.nil_append, listed] at treats
    exact treats.lowered_iff (own _ (List.mem_of_getElem? found))
  · intro name remaining
    rw [reflects.unfinished]
    refine exists_congr fun candidate => exists_congr fun reason => ?_
    exact and_congr_right fun member => (and_iff_left (reflects.left _ member)).symm
  · have concatenates : build.program.Concatenates limits (Candidate.kept limits methods) :=
      continueWith_concatenates (.start limits) .empty assemblies
    have kept : Candidate.kept limits methods = (lowered.filter keeps).map Prod.fst :=
      listed ▸ all.kept_append
    rw [concatenates.procedureCount (Candidate.nodup_kept limits methods), kept, List.length_map,
      ← List.countP_eq_length_filter, countP_keeps, reflects.completeMethods]
    simp only [MethodDef.isDispose_iff]

end Build

end BytecodeFlow

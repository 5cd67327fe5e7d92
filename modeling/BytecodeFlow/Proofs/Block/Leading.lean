/-
This file says which offsets are block leaders (`blockLeaders`): the boundaries
of protected regions, and the offsets that are listed twice among the
`arrivals`. The list leaves out no `StaticEdge`, that is no edge that can be
read off the code, so to an offset that is not a leader at most one of them
leads.
-/

import Mathlib.Data.List.NodupEquivFin
import Mathlib.Tactic.Tauto
import BytecodeFlow.Block.Leader

namespace BytecodeFlow

/-! ### Sets of leaders -/

/-- What `OffsetSet.contains` says of an offset, as a number. -/
def OffsetSet.countOf (offsets : OffsetSet) (offset : Offset) : Nat :=
  if offsets.contains offset then 1 else 0

/-- The sets after some offsets: what is repeated was so before, or comes twice if what was seen
before is counted in. -/
theorem contains_foldl_repeated {step : OffsetSet × OffsetSet → Offset → OffsetSet × OffsetSet}
    (steps : ∀ seen repeated offset, step (seen, repeated) offset =
      if seen.contains offset then (seen, repeated.insert offset)
      else (seen.insert offset, repeated))
    (offsets : List Offset) (seen repeated : OffsetSet) (offset : Offset) :
    (offsets.foldl step (seen, repeated)).2.contains offset = true ↔
      repeated.contains offset = true ∨ 2 ≤ seen.countOf offset + offsets.count offset := by
  induction offsets generalizing seen repeated with
  | nil =>
    refine ⟨.inl, fun held => held.resolve_right ?_⟩
    unfold OffsetSet.countOf
    split <;> simp
  | cons first rest inductionHypothesis =>
    rw [List.foldl_cons, steps, List.count_cons]
    by_cases known : seen.contains first = true
    · rw [if_pos known, inductionHypothesis]
      by_cases same : first = offset
      · subst same
        rw [OffsetSet.countOf, if_pos known, beq_self_eq_true, if_pos rfl]
        exact iff_of_true (.inl (by simp)) (.inr (by omega))
      · simp [same]
    · rw [if_neg known, inductionHypothesis]
      unfold OffsetSet.countOf
      by_cases same : first = offset
      · subst same
        rw [if_neg known, if_pos (by simp), beq_self_eq_true, if_pos rfl, Nat.zero_add,
          Nat.add_comm]
      · simp [same]

theorem contains_repeatedOffsets {offsets : List Offset} {offset : Offset} :
    (repeatedOffsets offsets).contains offset = true ↔ 2 ≤ offsets.count offset := by
  rw [repeatedOffsets, contains_foldl_repeated (fun _ _ _ => rfl)]
  simp [OffsetSet.countOf]

theorem contains_blockLeaders {instructions : List Instruction} {boundaries : List Offset}
    {offset : Offset} :
    (blockLeaders instructions boundaries).contains offset = true ↔
      offset ∈ boundaries ∨ 2 ≤ (arrivals instructions).count offset := by
  have general : ∀ (boundaries : List Offset) (leaders : OffsetSet),
      (boundaries.foldl (fun leaders boundary => leaders.insert boundary) leaders).contains offset =
        true ↔ offset ∈ boundaries ∨ leaders.contains offset = true := by
    intro boundaries
    induction boundaries with
    | nil => simp
    | cons first rest inductionHypothesis =>
      intro leaders
      simp only [List.foldl_cons, inductionHypothesis, Std.ExtTreeSet.contains_insert,
        Bool.or_eq_true, Std.LawfulEqCmp.compare_eq_iff_eq, beq_iff_eq, List.mem_cons,
        eq_comm (a := offset)]
      tauto
  rw [blockLeaders, general, contains_repeatedOffsets]

/-! ### Edges of the code -/

/-- A way to come to an offset that can be read off the code, whether or not the code has it;
`target?` says whether it does. -/
inductive StaticEdge where
  /-- From outside to the first instruction. -/
  | entry
  /-- From the instruction at a position to the next one. -/
  | next (position : Nat)
  /-- From the instruction at a position to one of its targets. -/
  | explicit (position choice : Nat)
deriving DecidableEq, Repr

namespace StaticEdge

/-- Where a `StaticEdge` leads in some instructions, if they have it. -/
def target? (instructions : List Instruction) : StaticEdge → Option Offset
  | .entry => instructions.head?.map Instruction.offset
  | .next position => do
    let instruction ← instructions[position]?
    let following ← instructions[position + 1]?
    if instruction.fallsThrough then some following.offset else none
  | .explicit position choice => do
    let instruction ← instructions[position]?
    instruction.branchTargets[choice]?

/-- The same `StaticEdge` with one more instruction before it. -/
def later : StaticEdge → StaticEdge
  | .entry => .entry
  | .next position => .next (position + 1)
  | .explicit position choice => .explicit (position + 1) choice

variable {instruction : Instruction} {instructions rest : List Instruction} {offset : Offset}
  {edge first second : StaticEdge}

/-- A `StaticEdge` to an offset leaves the first instruction, or is one of the rest that was moved
by `later`. -/
inductive Leaves (instruction : Instruction) (rest : List Instruction) (offset : Offset) :
    StaticEdge → Prop
  | onward (following : Instruction) (next : rest.head? = some following)
    (falls : instruction.fallsThrough = true) (leads : following.offset = offset) :
    Leaves instruction rest offset (.next 0)
  | branches (choice : Nat) (leads : instruction.branchTargets[choice]? = some offset) :
    Leaves instruction rest offset (.explicit 0 choice)
  | afterwards (edge : StaticEdge) (inner : edge ≠ .entry)
    (leads : edge.target? rest = some offset) :
    Leaves instruction rest offset edge.later

theorem leaves_of_target? (inner : edge ≠ .entry)
    (leads : edge.target? (instruction :: rest) = some offset) :
    Leaves instruction rest offset edge := by
  cases edge with
  | entry => exact absurd rfl inner
  | next position =>
    cases position with
    | zero =>
      have onward : (rest[0]?.bind fun following =>
          if instruction.fallsThrough then some following.offset else none) = some offset := leads
      obtain ⟨following, isNext, leads⟩ := Option.bind_eq_some_iff.mp onward
      rw [← List.head?_eq_getElem?] at isNext
      by_cases falls : instruction.fallsThrough = true
      · rw [if_pos falls] at leads
        exact .onward following isNext falls (Option.some.inj leads)
      · rw [if_neg falls] at leads
        cases leads
    | succ position => exact .afterwards (.next position) (by simp) leads
  | explicit position choice =>
    cases position with
    | zero => exact .branches choice leads
    | succ position => exact .afterwards (.explicit position choice) (by simp) leads

theorem count_arrivalsAfter_cons (instruction : Instruction) (rest : List Instruction)
    (offset : Offset) :
    (arrivalsAfter (instruction :: rest)).count offset =
      (if instruction.fallsThrough = true ∧ rest.head?.map Instruction.offset = some offset then 1
        else 0) +
      instruction.branchTargets.count offset + (arrivalsAfter rest).count offset := by
  cases rest with
  | nil => simp [arrivalsAfter]
  | cons following rest =>
    rw [arrivalsAfter, List.count_append, List.count_append]
    by_cases falls : instruction.fallsThrough = true
    · simp [falls, List.count_singleton]
    · simp [falls]

theorem count_of_leaves (leaves : Leaves instruction rest offset edge)
    (remaining : ∀ {edge : StaticEdge}, edge ≠ .entry → edge.target? rest = some offset →
      1 ≤ (arrivalsAfter rest).count offset) :
    1 ≤ (arrivalsAfter (instruction :: rest)).count offset := by
  rw [count_arrivalsAfter_cons]
  cases leaves with
  | onward following next falls leads =>
    rw [if_pos ⟨falls, by rw [next, Option.map_some, leads]⟩]
    omega
  | branches choice leads =>
    have listed := List.count_pos_iff.mpr (List.mem_of_getElem? leads)
    omega
  | afterwards edge inner leads =>
    have counted := remaining inner leads
    omega

/-- Every `StaticEdge` is counted. -/
theorem one_le_count (inner : edge ≠ .entry) (leads : edge.target? instructions = some offset) :
    1 ≤ (arrivalsAfter instructions).count offset := by
  induction instructions generalizing edge with
  | nil =>
    cases edge with
    | entry => exact absurd rfl inner
    | next => cases leads
    | explicit => cases leads
  | cons instruction rest inductionHypothesis =>
    exact count_of_leaves (leaves_of_target? inner leads) inductionHypothesis

theorem two_le_count_of_getElem? {targets : List Offset} {one other : Nat} (different : one ≠ other)
    (atOne : targets[one]? = some offset) (atOther : targets[other]? = some offset) :
    2 ≤ targets.count offset := by
  obtain ⟨known, same⟩ := List.getElem?_eq_some_iff.mp atOne
  obtain ⟨otherKnown, otherSame⟩ := List.getElem?_eq_some_iff.mp atOther
  rw [← List.duplicate_iff_two_le_count, List.duplicate_iff_exists_distinct_get]
  rcases Nat.lt_or_gt_of_ne different with before | after
  · exact ⟨⟨one, known⟩, ⟨other, otherKnown⟩, before, same.symm, otherSame.symm⟩
  · exact ⟨⟨other, otherKnown⟩, ⟨one, known⟩, after, otherSame.symm, same.symm⟩

/-- Different `StaticEdge`s are counted one by one. -/
theorem two_le_count (different : first ≠ second) (firstInner : first ≠ .entry)
    (secondInner : second ≠ .entry) (firstLeads : first.target? instructions = some offset)
    (secondLeads : second.target? instructions = some offset) :
    2 ≤ (arrivalsAfter instructions).count offset := by
  induction instructions generalizing first second with
  | nil =>
    cases first with
    | entry => exact absurd rfl firstInner
    | next => cases firstLeads
    | explicit => cases firstLeads
  | cons instruction rest inductionHypothesis =>
    rw [count_arrivalsAfter_cons]
    cases leaves_of_target? firstInner firstLeads with
    | onward following next falls leads =>
      rw [if_pos ⟨falls, by rw [next, Option.map_some, leads]⟩]
      cases leaves_of_target? secondInner secondLeads with
      | onward => exact absurd rfl different
      | branches choice leads =>
        have listed := List.count_pos_iff.mpr (List.mem_of_getElem? leads)
        omega
      | afterwards edge inner leads =>
        have counted := one_le_count inner leads
        omega
    | branches choice leads =>
      have listed := List.count_pos_iff.mpr (List.mem_of_getElem? leads)
      cases leaves_of_target? secondInner secondLeads with
      | onward following next falls leads =>
        rw [if_pos ⟨falls, by rw [next, Option.map_some, leads]⟩]
        omega
      | branches other otherLeads =>
        have apart : choice ≠ other := fun same => different (by rw [same])
        have listedTwice := two_le_count_of_getElem? apart leads otherLeads
        omega
      | afterwards edge inner leads =>
        have counted := one_le_count inner leads
        omega
    | afterwards edge inner leads =>
      have counted := one_le_count inner leads
      cases leaves_of_target? secondInner secondLeads with
      | onward following next falls leads =>
        rw [if_pos ⟨falls, by rw [next, Option.map_some, leads]⟩]
        omega
      | branches choice leads =>
        have listed := List.count_pos_iff.mpr (List.mem_of_getElem? leads)
        omega
      | afterwards other otherInner otherLeads =>
        have apart : edge ≠ other := fun same => different (by rw [same])
        have countedTwice := inductionHypothesis apart inner otherInner leads otherLeads
        omega

theorem count_arrivals (entered : StaticEdge.entry.target? instructions = some offset) :
    (arrivals instructions).count offset = 1 + (arrivalsAfter instructions).count offset := by
  rw [arrivals, List.count_append, show instructions.head?.map Instruction.offset = some offset from
    entered]
  simp

/-- At most one `StaticEdge` leads to an offset that is not a leader. -/
theorem eq_of_not_leader {boundaries : List Offset}
    (inside : (blockLeaders instructions boundaries).contains offset = false)
    (firstLeads : first.target? instructions = some offset)
    (secondLeads : second.target? instructions = some offset) : first = second := by
  by_contra different
  have fewer : (arrivals instructions).count offset < 2 := by
    refine Nat.lt_of_not_le fun twice => ?_
    rw [contains_blockLeaders.mpr (.inr twice)] at inside
    cases inside
  by_cases firstEnters : first = .entry
  · rw [firstEnters] at firstLeads different
    have counted := one_le_count (Ne.symm different) secondLeads
    rw [count_arrivals firstLeads] at fewer
    omega
  · by_cases secondEnters : second = .entry
    · rw [secondEnters] at secondLeads
      have counted := one_le_count firstEnters firstLeads
      rw [count_arrivals secondLeads] at fewer
      omega
    · have countedTwice := two_le_count different firstEnters secondEnters firstLeads secondLeads
      rw [arrivals, List.count_append] at fewer
      omega

end StaticEdge

end BytecodeFlow

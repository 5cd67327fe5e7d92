/-
This file looks at the handlers that exceptions go to. The handler of an offset
is always one of the table (`Handles`), and in a valid table different handlers
start at different offsets, so the offset of a handler tells which one it is.
-/

import BytecodeFlow.Proofs.Region.Layout

namespace BytecodeFlow

/-- The offset at which the handler of a target starts. -/
def HandlerTarget.start? (regions : Regions) : HandlerTarget → Option Offset
  | .catch position => regions.catches[position]?.map fun clause => clause.handler.start
  | .finally position => regions.finallies[position]?.map fun clause => clause.handler.start

namespace Regions

variable {regions : Regions} {offset : Offset} {target : HandlerTarget}

theorem innermost?_mem {region : Region} (found : regions.innermost? offset = some region) :
    region ∈ regions.all ∧ region.span.contains offset = true := by
  obtain ⟨listed, holds⟩ := List.mem_filter.mp (firstLeast?_mem found)
  exact ⟨listed, holds⟩

/-- What exceptions go to is the `groupHead?` of a group, or a finally of the table. -/
inductive Handles (regions : Regions) : HandlerTarget → Prop
  | ofGroup (position : Nat) (clause : CatchClause)
    (found : regions.catches[position]? = some clause)
    (first : regions.groupHead? clause.guarded = some position) :
    Handles regions (.catch position)
  | ofFinally (position : Nat) (clause : FinallyClause)
    (found : regions.finallies[position]? = some clause) : Handles regions (.finally position)

theorem handles_of_wrapping {clause : CatchClause} {position : Nat}
    (wraps : wrappingFinally? regions.catches regions.finallies clause = some position) :
    regions.Handles (.finally position) := by
  obtain ⟨known, -⟩ := List.findIdx?_eq_some_iff_getElem.mp wraps
  exact .ofFinally position _ (List.getElem?_eq_getElem known)

theorem handles_exceptionTarget? (found : regions.exceptionTarget? offset = some target) :
    regions.Handles target := by
  unfold exceptionTarget? at found
  cases innermost : regions.innermost? offset with
  | none =>
    rw [innermost] at found
    cases found
  | some region =>
    obtain ⟨listed, -⟩ := innermost?_mem innermost
    rw [innermost] at found
    obtain ⟨kind, position, span⟩ := region
    cases kind with
    | tryCatch =>
      obtain ⟨head, isHead, rfl⟩ : ∃ head, regions.groupHead? span = some head ∧
          HandlerTarget.catch head = target := by
        simpa [Option.bind_eq_some_iff] using found
      obtain ⟨known, same, -⟩ := List.findIdx?_eq_some_iff_getElem.mp isHead
      refine .ofGroup head _ (List.getElem?_eq_getElem known) ?_
      rw [eq_of_beq same]
      exact isHead
    | tryFinally =>
      cases found
      unfold all at listed
      simp only [List.mem_append, List.mem_mapIdx] at listed
      rcases listed with ((⟨_, _, impossible⟩ | ⟨other, known, same⟩) | ⟨_, _, impossible⟩) |
        ⟨_, _, impossible⟩
      · cases impossible
      · cases same
        exact .ofFinally _ _ (List.getElem?_eq_getElem known)
      · cases impossible
      · cases impossible
    | «catch» =>
      obtain ⟨around, isAround, rfl⟩ : ∃ around, regions.finallyAround? position = some around ∧
          HandlerTarget.finally around = target := by
        simpa [Option.bind_eq_some_iff] using found
      obtain ⟨clause, -, wraps⟩ := Option.bind_eq_some_iff.mp isAround
      exact handles_of_wrapping wraps
    | «finally» => cases found

theorem Handles.start? (handles : regions.Handles target) :
    ∃ start, target.start? regions = some start := by
  cases handles with
  | ofGroup position clause found => exact ⟨_, Option.map_eq_some_iff.mpr ⟨clause, found, rfl⟩⟩
  | ofFinally position clause found => exact ⟨_, Option.map_eq_some_iff.mpr ⟨clause, found, rfl⟩⟩

/-- The handlers of a catch and of a finally start at different offsets. -/
theorem catch_start_ne_finally_start (wellFormed : regions.WellFormed)
    (disjoint : groupsAreDisjoint regions.catches regions.finallies = true)
    {clause : CatchClause} {around : FinallyClause} (listed : clause ∈ regions.catches)
    (aroundListed : around ∈ regions.finallies) :
    clause.handler.start ≠ around.handler.start := by
  intro same
  obtain ⟨position, found⟩ := List.getElem?_of_mem aroundListed
  have order := wellFormed.catches clause listed
  have reach := le_catchGroupEnd listed
  have aroundOrder := wellFormed.finallies around aroundListed
  have aroundReach := le_reach around
  rw [UInt32.toNat_inj.symm] at same
  have wraps := wraps_of_overlaps wellFormed disjoint listed found
    (Span.overlaps_iff.mpr (by
      simp only [catchSpan, FinallyClause.span]
      omega))
  omega

/-- Catch handlers that start at one offset belong to one group. -/
theorem guarded_eq_of_handler_start (wellFormed : regions.WellFormed)
    (disjoint : groupsAreDisjoint regions.catches regions.finallies = true)
    {first second : CatchClause} (firstListed : first ∈ regions.catches)
    (secondListed : second ∈ regions.catches)
    (same : first.handler.start = second.handler.start) : first.guarded = second.guarded := by
  by_contra different
  have apart := catchGroups_apart disjoint firstListed secondListed different
  rw [← Bool.not_eq_true, Span.overlaps_iff] at apart
  have firstOrder := wellFormed.catches first firstListed
  have secondOrder := wellFormed.catches second secondListed
  have firstReach := le_catchGroupEnd firstListed
  have secondReach := le_catchGroupEnd secondListed
  rw [UInt32.toNat_inj.symm] at same
  simp only [catchSpan] at apart
  omega

/-- Of the targets that `Handles` lists, the start of a handler tells which one it is. -/
theorem Handles.eq_of_start? (wellFormed : regions.WellFormed)
    (disjoint : groupsAreDisjoint regions.catches regions.finallies = true)
    {other : HandlerTarget} (handles : regions.Handles target)
    (otherHandles : regions.Handles other)
    {start : Offset} (starts : target.start? regions = some start)
    (otherStarts : other.start? regions = some start) : target = other := by
  cases handles with
  | ofGroup position clause found first =>
    obtain ⟨_, sameClause, rfl⟩ := Option.map_eq_some_iff.mp starts
    cases found.symm.trans sameClause
    cases otherHandles with
    | ofGroup otherPosition otherClause otherFound otherFirst =>
      obtain ⟨_, sameOther, same⟩ := Option.map_eq_some_iff.mp otherStarts
      cases otherFound.symm.trans sameOther
      rw [guarded_eq_of_handler_start wellFormed disjoint (List.mem_of_getElem? found)
        (List.mem_of_getElem? otherFound) same.symm] at first
      cases first.symm.trans otherFirst
      rfl
    | ofFinally otherPosition otherClause otherFound =>
      obtain ⟨_, sameOther, same⟩ := Option.map_eq_some_iff.mp otherStarts
      cases otherFound.symm.trans sameOther
      exact (catch_start_ne_finally_start wellFormed disjoint (List.mem_of_getElem? found)
        (List.mem_of_getElem? otherFound) same.symm).elim
  | ofFinally position clause found =>
    obtain ⟨_, sameClause, rfl⟩ := Option.map_eq_some_iff.mp starts
    cases found.symm.trans sameClause
    cases otherHandles with
    | ofGroup otherPosition otherClause otherFound otherFirst =>
      obtain ⟨_, sameOther, same⟩ := Option.map_eq_some_iff.mp otherStarts
      cases otherFound.symm.trans sameOther
      exact (catch_start_ne_finally_start wellFormed disjoint (List.mem_of_getElem? otherFound)
        (List.mem_of_getElem? found) same).elim
    | ofFinally otherPosition otherClause otherFound =>
      obtain ⟨_, sameOther, same⟩ := Option.map_eq_some_iff.mp otherStarts
      cases otherFound.symm.trans sameOther
      have order := wellFormed.finallies clause (List.mem_of_getElem? found)
      have otherOrder := wellFormed.finallies otherClause (List.mem_of_getElem? otherFound)
      have reach := le_reach clause
      have otherReach := le_reach otherClause
      rw [UInt32.toNat_inj.symm] at same
      have samePosition := finally_unique disjoint found otherFound (Span.overlaps_iff.mpr (by
        simp only [FinallyClause.span]
        omega))
      rw [samePosition]

end Regions

end BytecodeFlow

/-
This file says what the layout of a table comes to, without regard to the order
of its clauses (`LaidOut`): groups of catches are apart from each other,
finallies are too, and a finally that meets a group starts with it and guards
all of it. So the entries of a table may be put into any order, and it stays
valid.
-/

import Mathlib.Data.List.Pairwise
import Mathlib.Data.List.Perm.Basic
import BytecodeFlow.Proofs.Region.Layout

namespace BytecodeFlow

/-! ### The layout of clauses -/

/-- What groups of catches cover by `catchSpan` and finallies by `span` is apart, but where a
finally guards a whole group. -/
structure LaidOut (catches : List CatchClause) (finallies : List FinallyClause) : Prop where
  groupsApart : ∀ first ∈ catches, ∀ second ∈ catches, first.guarded ≠ second.guarded →
    (catchSpan catches first.guarded).overlaps (catchSpan catches second.guarded) = false
  finalliesApart : finallies.Pairwise fun left right => left.span.overlaps right.span = false
  wraps : ∀ caught ∈ catches, ∀ around ∈ finallies,
    (catchSpan catches caught.guarded).overlaps around.span = true →
      around.guarded.start = caught.guarded.start ∧
        (catchGroupEnd catches caught.guarded).toNat ≤ around.guarded.stop.toNat

section Layout

variable {catches : List CatchClause} {finallies : List FinallyClause}

theorem pairwise_eraseDups (spans : List Span) : spans.eraseDups.Pairwise (· ≠ ·) := by
  induction length : spans.length using Nat.strongRecOn generalizing spans with
  | ind count inductionHypothesis =>
    cases spans with
    | nil => exact .nil
    | cons first rest =>
      rw [List.eraseDups_cons, List.pairwise_cons]
      refine ⟨fun other member => ?_, ?_⟩
      · have kept := (List.mem_filter.mp (List.mem_eraseDups.mp member)).2
        rintro rfl
        simp at kept
      · refine inductionHypothesis _ ?_ _ rfl
        rw [← length, List.length_cons]
        exact Nat.lt_succ_of_le (List.length_filter_le ..)

theorem laidOut_of_groupsAreDisjoint
    (guards : ∀ clause ∈ catches, clause.guarded.start.toNat < clause.guarded.stop.toNat)
    (disjoint : groupsAreDisjoint catches finallies = true) : LaidOut catches finallies where
  groupsApart _ listed _ alsoListed different :=
    catchGroups_apart disjoint listed alsoListed different
  finalliesApart := by
    rw [List.pairwise_iff_getElem]
    intro first second known alsoKnown before
    exact finallies_apart disjoint (List.getElem?_eq_getElem known)
      (List.getElem?_eq_getElem alsoKnown) before
  wraps caught listed around aroundListed meet := by
    obtain ⟨position, found⟩ := List.getElem?_of_mem aroundListed
    exact guards_of_wrappingFinally?
      (wrappingFinally?_of_overlaps disjoint guards listed found meet) found

/-- Where clauses are `LaidOut`, the finally that starts with a group and guards all of it is the
one that `wrappingFinally?` finds. -/
theorem LaidOut.wrappingFinally? (laidOut : LaidOut catches finallies)
    (guards : ∀ clause ∈ finallies, clause.guarded.start.toNat < clause.guarded.stop.toNat)
    {caught : CatchClause} {position : Nat} {around : FinallyClause}
    (found : finallies[position]? = some around)
    (starts : around.guarded.start = caught.guarded.start)
    (stops : (catchGroupEnd catches caught.guarded).toNat ≤ around.guarded.stop.toNat) :
    BytecodeFlow.wrappingFinally? catches finallies caught = some position := by
  obtain ⟨known, rfl⟩ := List.getElem?_eq_some_iff.mp found
  refine List.findIdx?_eq_some_iff_getElem.mpr ⟨known, ?_, fun earlier before => ?_⟩
  · rw [Bool.and_eq_true, beq_iff_eq, decide_eq_true_eq, UInt32.le_iff_toNat_le]
    exact ⟨starts, stops⟩
  · -- An earlier clause with the same start would meet this one.
    rw [Bool.and_eq_true, beq_iff_eq, not_and]
    intro sameStart
    have apart := List.pairwise_iff_getElem.mp laidOut.finalliesApart earlier position
      (Nat.lt_trans before known) known before
    have first := guards _ (List.getElem_mem (Nat.lt_trans before known))
    have second := guards _ (List.getElem_mem known)
    have firstReach := le_reach finallies[earlier]
    have secondReach := le_reach finallies[position]
    have same := congrArg UInt32.toNat (sameStart.trans starts.symm)
    rw [← Bool.not_eq_true, Span.overlaps_iff] at apart
    simp only [FinallyClause.span] at apart
    omega

theorem LaidOut.groupsAreDisjoint (laidOut : LaidOut catches finallies)
    (guards : ∀ clause ∈ finallies, clause.guarded.start.toNat < clause.guarded.stop.toNat) :
    groupsAreDisjoint catches finallies = true := by
  have separate : ∀ {left right : Extent}, left.span.overlaps right.span = false →
      left.compatible catches finallies right = true := by
    intro left right apart
    rw [Extent.compatible, apart]
    rfl
  refine groupsAreDisjoint_iff.mpr ⟨?_, ?_, ?_⟩
  · refine List.pairwise_map.mpr ((pairwise_eraseDups _).imp_of_mem ?_)
    intro first second member alsoMember different
    obtain ⟨left, listed, rfl⟩ := List.mem_map.mp (List.mem_eraseDups.mp member)
    obtain ⟨right, alsoListed, rfl⟩ := List.mem_map.mp (List.mem_eraseDups.mp alsoMember)
    exact separate (laidOut.groupsApart left listed right alsoListed different)
  · rw [List.pairwise_iff_getElem]
    intro first second known alsoKnown before
    simp only [finallyExtents, List.length_mapIdx] at known alsoKnown
    simp only [finallyExtents, List.getElem_mapIdx]
    exact separate (List.pairwise_iff_getElem.mp laidOut.finalliesApart first second known alsoKnown
      before)
  · intro left leftMember right rightMember
    obtain ⟨guarded, member, rfl⟩ := List.mem_map.mp leftMember
    obtain ⟨caught, listed, rfl⟩ := List.mem_map.mp (List.mem_eraseDups.mp member)
    obtain ⟨position, known, rfl⟩ := List.mem_mapIdx.mp rightMember
    cases meet : (catchSpan catches caught.guarded).overlaps finallies[position].span with
    | false => exact separate meet
    | true =>
      obtain ⟨starts, stops⟩ := laidOut.wraps caught listed _ (List.getElem_mem known) meet
      have wraps := laidOut.wrappingFinally? guards (List.getElem?_eq_getElem known) starts stops
      have meets : Span.overlaps ⟨caught.guarded.start, catchGroupEnd catches caught.guarded⟩
          ⟨finallies[position].guarded.start, finallies[position].reach⟩ = true := meet
      rw [Extent.compatible, if_pos meets]
      refine List.any_eq_true.mpr ⟨caught, listed, ?_⟩
      rw [Bool.and_eq_true, beq_iff_eq, beq_iff_eq]
      exact ⟨rfl, wraps⟩

end Layout

/-! ### Another order -/

theorem catchGroupEnd_perm {catches others : List CatchClause} (perm : catches.Perm others)
    (guarded : Span) : catchGroupEnd catches guarded = catchGroupEnd others guarded := by
  have group : (catchGroup catches guarded).Perm (catchGroup others guarded) := perm.filter _
  refine group.foldl_eq' (fun first _ second _ stop => ?_) guarded.stop
  rw [← UInt32.toNat_inj]
  simp only [toNat_max]
  omega

theorem LaidOut.perm {catches otherCatches : List CatchClause}
    {finallies otherFinallies : List FinallyClause} (laidOut : LaidOut catches finallies)
    (catchesPerm : catches.Perm otherCatches) (finalliesPerm : finallies.Perm otherFinallies) :
    LaidOut otherCatches otherFinallies where
  groupsApart first listed second alsoListed different := by
    unfold catchSpan
    rw [← catchGroupEnd_perm catchesPerm, ← catchGroupEnd_perm catchesPerm]
    exact laidOut.groupsApart first (catchesPerm.mem_iff.mpr listed) second
      (catchesPerm.mem_iff.mpr alsoListed) different
  finalliesApart := by
    refine (finalliesPerm.pairwise_iff ?_).mp laidOut.finalliesApart
    intro left right apart
    rw [← Bool.not_eq_true, Span.overlaps_iff] at apart ⊢
    exact fun both => apart ⟨both.2, both.1⟩
  wraps caught listed around aroundListed meet := by
    unfold catchSpan at meet
    rw [← catchGroupEnd_perm catchesPerm] at meet ⊢
    exact laidOut.wraps caught (catchesPerm.mem_iff.mpr listed) around
      (finalliesPerm.mem_iff.mpr aroundListed) meet

namespace Regions

variable {entries others : List HandlerEntry} {instructions : List Instruction}

theorem catches_analyze_perm (perm : entries.Perm others) (instructions : List Instruction) :
    (analyze entries instructions).catches.Perm (analyze others instructions).catches :=
  ((List.mergeSort_perm _ _).trans (perm.filterMap _)).trans (List.mergeSort_perm _ _).symm

theorem finallies_analyze_perm (perm : entries.Perm others) (instructions : List Instruction) :
    (analyze entries instructions).finallies.Perm (analyze others instructions).finallies :=
  perm.filterMap _

/-- A valid table stays valid in any other order. -/
theorem valid_analyze_perm (wellFormed : ∀ entry ∈ entries, entry.WellFormed)
    (perm : entries.Perm others) (valid : (analyze entries instructions).valid = true) :
    (analyze others instructions).valid = true := by
  have ordered := wellFormed_analyze wellFormed instructions
  have otherOrdered := wellFormed_analyze
    (fun entry member => wellFormed entry (perm.mem_iff.mpr member)) instructions
  obtain ⟨disjoint, quiet⟩ := Bool.and_eq_true_iff.mp valid
  have laidOut := (laidOut_of_groupsAreDisjoint (fun clause listed => (ordered.catches clause
    listed).1) disjoint).perm (catches_analyze_perm perm instructions)
    (finallies_analyze_perm perm instructions)
  refine Bool.and_eq_true_iff.mpr ⟨laidOut.groupsAreDisjoint fun clause listed =>
    (otherOrdered.finallies clause listed).1, ?_⟩
  rw [Bool.not_eq_true', List.any_eq_false] at quiet ⊢
  exact fun clause listed => quiet clause ((perm.filterMap _).mem_iff.mpr listed)

end Regions

end BytecodeFlow

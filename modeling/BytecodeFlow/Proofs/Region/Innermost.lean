/-
This file looks at the innermost range of an offset (`innermost?`) in tables
without nested clauses (`Unnested`). Ranges that hold the same offset lie in
each other there: they are two of one group of catches, or a finally guards all
of the other clause. So the narrowest range is the innermost one, and it is
known which one it is: the handler that holds the offset, else what a catch
guards, else what a finally does.
-/

import BytecodeFlow.Proofs.Region.Nesting
import BytecodeFlow.Proofs.Region.Targets

namespace BytecodeFlow

/-! ### Least elements -/

theorem foldl_least_le {α : Type} (measure : α → Nat) (elements : List α) (best : Option α)
    {least : α}
    (found : elements.foldl (fun best element =>
      match best with
      | none => some element
      | some least => if measure element < measure least then some element else some least)
      best = some least) :
    (∀ element ∈ best, measure least ≤ measure element) ∧
      ∀ element ∈ elements, measure least ≤ measure element := by
  induction elements generalizing best with
  | nil =>
    refine ⟨fun element member => ?_, fun _ member => absurd member List.not_mem_nil⟩
    cases found.symm.trans member
    exact Nat.le_refl _
  | cons first rest inductionHypothesis =>
    obtain ⟨chosen, others⟩ := inductionHypothesis _ found
    cases best with
    | none =>
      refine ⟨fun _ member => absurd member (Option.not_mem_none _), fun element member => ?_⟩
      rcases List.mem_cons.mp member with rfl | later
      · exact chosen element rfl
      · exact others element later
    | some old =>
      by_cases smaller : measure first < measure old
      · have fromFirst : measure least ≤ measure first := chosen first (if_pos smaller)
        refine ⟨fun element member => ?_, fun element member => ?_⟩
        · cases member
          exact Nat.le_of_lt (Nat.lt_of_le_of_lt fromFirst smaller)
        · rcases List.mem_cons.mp member with rfl | later
          · exact fromFirst
          · exact others element later
      · have fromOld : measure least ≤ measure old := chosen old (if_neg smaller)
        refine ⟨fun element member => ?_, fun element member => ?_⟩
        · cases member
          exact fromOld
        · rcases List.mem_cons.mp member with rfl | later
          · exact Nat.le_trans fromOld (Nat.le_of_not_lt smaller)
          · exact others element later

theorem firstLeast?_le {α : Type} {measure : α → Nat} {elements : List α} {least : α}
    (found : firstLeast? measure elements = some least) {element : α}
    (member : element ∈ elements) :
    measure least ≤ measure element :=
  (foldl_least_le measure elements none found).2 element member

theorem firstLeast?_eq_none {α : Type} {measure : α → Nat} {elements : List α} :
    firstLeast? measure elements = none ↔ elements = [] := by
  cases elements with
  | nil => exact iff_of_true rfl rfl
  | cons first rest =>
    refine iff_of_false (fun nothing => ?_) (List.cons_ne_nil _ _)
    have some? : (firstLeast? measure (first :: rest)).isSome :=
      foldl_least_isSome measure rest first
    rw [nothing] at some?
    cases some?

/-! ### Ranges that share an offset -/

theorem Span.overlaps_of_contains {left right : Span} {offset : Offset}
    (inLeft : left.contains offset = true) (inRight : right.contains offset = true) :
    left.overlaps right = true := by
  rw [Span.contains_iff] at inLeft inRight
  rw [Span.overlaps_iff]
  omega

theorem Span.Within.contains {inner outer : Span} {offset : Offset} (within : inner.Within outer)
    (inside : inner.contains offset = true) : outer.contains offset = true := by
  rw [Span.within_iff] at within
  rw [Span.contains_iff] at inside ⊢
  omega

/-- The `width` of a range whose end does not come before its start does not wrap around. -/
theorem Span.width_of_le {span : Span} (ordered : span.start.toNat ≤ span.stop.toNat) :
    span.width = span.stop.toNat - span.start.toNat :=
  UInt32.toNat_sub_of_le _ _ (UInt32.le_iff_toNat_le.mpr ordered)

theorem Span.Within.refl (span : Span) : span.Within span :=
  Span.within_iff.mpr ⟨Nat.le_refl _, Nat.le_refl _⟩

namespace Regions

variable {regions : Regions} {left right clause : Clause} {offset : Offset}

theorem eq_of_target (inTable : left ∈ regions.clauses) (alsoInTable : right ∈ regions.clauses)
    (same : left.target = right.target) : left = right := by
  rcases mem_clauses.mp inTable with ⟨first, caught, found, rfl⟩ | ⟨first, wrapper, found, rfl⟩ <;>
    rcases mem_clauses.mp alsoInTable with ⟨second, otherCaught, otherFound, rfl⟩ |
      ⟨second, otherWrapper, otherFound, rfl⟩
  · cases same
    cases found.symm.trans otherFound
    rfl
  · cases same
  · cases same
  · cases same
    cases found.symm.trans otherFound
    rfl

namespace Unnested

variable (unnested : regions.Unnested) (inTable : left ∈ regions.clauses)
  (alsoInTable : right ∈ regions.clauses)

include unnested

theorem not_both (listed : clause ∈ regions.clauses)
    (guards : clause.guarded.contains offset = true)
    (handles : clause.handler.contains offset = true) : False := by
  have own := unnested.own clause listed
  rw [Span.overlaps_of_contains handles guards] at own
  cases own

include inTable alsoInTable

/-- An offset lies in one handler at most. -/
theorem eq_of_handlers (inLeft : left.handler.contains offset = true)
    (inRight : right.handler.contains offset = true) : left = right := by
  by_contra different
  have targets : left.target ≠ right.target :=
    fun same => different (eq_of_target inTable alsoInTable same)
  by_cases grouped : left.SharesGroup right
  · have apart := unnested.grouped left inTable right alsoInTable targets grouped
    rw [Span.overlaps_of_contains inLeft inRight] at apart
    cases apart
  · rcases unnested.others left inTable right alsoInTable targets grouped with
      apart | ⟨-, -, inside⟩ | ⟨-, -, inside⟩
    · have separate := (Clause.apart_iff.mp apart).2.2.2
      rw [Span.overlaps_of_contains inLeft inRight] at separate
      cases separate
    · exact unnested.not_both alsoInTable (inside.contains inLeft) inRight
    · exact unnested.not_both inTable (inside.contains inRight) inLeft

/-- What guards an offset in a handler is the finally that `Encloses` the clause of the handler. -/
theorem encloses_of_handler (guards : left.guarded.contains offset = true)
    (handles : right.handler.contains offset = true) : regions.Encloses left right := by
  have targets : left.target ≠ right.target := by
    intro same
    cases eq_of_target inTable alsoInTable same
    exact unnested.not_both inTable guards handles
  have grouped : ¬ left.SharesGroup right := by
    rintro ⟨-, -, same⟩
    exact unnested.not_both alsoInTable (same ▸ guards) handles
  rcases unnested.others left inTable right alsoInTable targets grouped with
    apart | ⟨-, inside, -⟩ | enclosed
  · have separate := (Clause.apart_iff.mp apart).2.1
    rw [Span.overlaps_of_contains guards handles] at separate
    cases separate
  · exact (unnested.not_both alsoInTable (inside.contains guards) handles).elim
  · exact enclosed

/-- Clauses that guard one offset are the same, or `SharesGroup` holds of them, or one `Encloses`
the other. -/
theorem guarding_cases (inLeft : left.guarded.contains offset = true)
    (inRight : right.guarded.contains offset = true) :
    left = right ∨ left.SharesGroup right ∨ regions.Encloses right left ∨
      regions.Encloses left right := by
  by_cases same : left.target = right.target
  · exact .inl (eq_of_target inTable alsoInTable same)
  · by_cases grouped : left.SharesGroup right
    · exact .inr (.inl grouped)
    · rcases unnested.others left inTable right alsoInTable same grouped with apart | enclosed
      · have separate := (Clause.apart_iff.mp apart).1
        rw [Span.overlaps_of_contains inLeft inRight] at separate
        cases separate
      · exact .inr (.inr enclosed)

end Unnested

/-- A finally that `Encloses` a catch clause is wider than either of its ranges. -/
theorem Encloses.wider (encloses : regions.Encloses left right) (filled : regions.Filled)
    (unnested : regions.Unnested) (listed : right ∈ regions.clauses) :
    right.guarded.width < left.guarded.width ∧ right.handler.width < left.guarded.width := by
  obtain ⟨-, guards, handles⟩ := encloses
  have own := unnested.own right listed
  have inhabited := filled.guarded right listed
  have alsoInhabited := filled.handler right listed
  rw [Span.within_iff] at guards handles
  rw [Span.overlaps_eq_false_iff] at own
  rw [Span.width_of_le (Nat.le_of_lt inhabited), Span.width_of_le (Nat.le_of_lt alsoInhabited),
    Span.width_of_le (by omega : left.guarded.start.toNat ≤ left.guarded.stop.toNat)]
  omega

theorem Encloses.kinds (encloses : regions.Encloses left right) :
    right.target.isCatch = true ∧ left.target.isCatch = false := by
  obtain ⟨isCatch, outer, -, same, isFinally⟩ := mem_of_recorded? encloses.1
  exact ⟨isCatch, same ▸ isFinally⟩

end Regions

/-! ### Clauses and regions -/

def Clause.guardedRegion (clause : Clause) : Region :=
  match clause.target with
  | .catch position => ⟨.tryCatch, position, clause.guarded⟩
  | .finally position => ⟨.tryFinally, position, clause.guarded⟩

def Clause.handlerRegion (clause : Clause) : Region :=
  match clause.target with
  | .catch position => ⟨.catch, position, clause.handler⟩
  | .finally position => ⟨.finally, position, clause.handler⟩

@[simp] theorem Clause.span_guardedRegion (clause : Clause) :
    clause.guardedRegion.span = clause.guarded := by
  unfold guardedRegion
  split <;> rfl

@[simp] theorem Clause.span_handlerRegion (clause : Clause) :
    clause.handlerRegion.span = clause.handler := by
  unfold handlerRegion
  split <;> rfl

namespace Regions

variable {regions : Regions} {clause : Clause} {region : Region} {offset : Offset}

theorem mem_all : region ∈ regions.all ↔
    ∃ clause ∈ regions.clauses, region = clause.guardedRegion ∨ region = clause.handlerRegion := by
  unfold all clauses
  simp only [List.mem_append, List.mem_mapIdx]
  constructor
  · rintro (((⟨position, known, rfl⟩ | ⟨position, known, rfl⟩) | ⟨position, known, rfl⟩) |
      ⟨position, known, rfl⟩)
    · exact ⟨_, .inl ⟨position, known, rfl⟩, .inl rfl⟩
    · exact ⟨_, .inr ⟨position, known, rfl⟩, .inl rfl⟩
    · exact ⟨_, .inl ⟨position, known, rfl⟩, .inr rfl⟩
    · exact ⟨_, .inr ⟨position, known, rfl⟩, .inr rfl⟩
  · rintro ⟨clause, ⟨position, known, rfl⟩ | ⟨position, known, rfl⟩, rfl | rfl⟩
    · exact .inl (.inl (.inl ⟨position, known, rfl⟩))
    · exact .inl (.inr ⟨position, known, rfl⟩)
    · exact .inl (.inl (.inr ⟨position, known, rfl⟩))
    · exact .inr ⟨position, known, rfl⟩

theorem innermost?_eq_none :
    regions.innermost? offset = none ↔
      ∀ region ∈ regions.all, region.span.contains offset = false := by
  unfold innermost?
  rw [firstLeast?_eq_none, List.filter_eq_nil_iff]
  simp only [Bool.not_eq_true]

/-- The range that `innermost?` gives is one of the narrowest. -/
theorem innermost?_le {other : Region} (found : regions.innermost? offset = some region)
    (listed : other ∈ regions.all) (holds : other.span.contains offset = true) :
    region.span.width ≤ other.span.width :=
  firstLeast?_le found (List.mem_filter.mpr ⟨listed, holds⟩)

theorem exists_innermost? (listed : region ∈ regions.all)
    (holds : region.span.contains offset = true) :
    ∃ found, regions.innermost? offset = some found ∧ found ∈ regions.all ∧
      found.span.contains offset = true ∧ found.span.width ≤ region.span.width := by
  cases found : regions.innermost? offset with
  | none =>
    rw [innermost?_eq_none.mp found region listed] at holds
    cases holds
  | some least =>
    obtain ⟨member, inside⟩ := innermost?_mem found
    exact ⟨least, rfl, member, inside, innermost?_le found listed holds⟩

section Innermost

variable (filled : regions.Filled) (unnested : regions.Unnested)
  (listed : clause ∈ regions.clauses)

include unnested listed

include filled in
theorem innermost?_of_handler (handles : clause.handler.contains offset = true) :
    regions.innermost? offset = some clause.handlerRegion := by
  obtain ⟨found, isFound, member, inside, least⟩ := exists_innermost?
    (mem_all.mpr ⟨clause, listed, .inr rfl⟩) (by rw [Clause.span_handlerRegion]; exact handles)
  rw [isFound]
  obtain ⟨other, alsoListed, rfl | rfl⟩ := mem_all.mp member
  · rw [Clause.span_guardedRegion] at inside least
    rw [Clause.span_handlerRegion] at least
    have encloses := unnested.encloses_of_handler alsoListed listed inside handles
    exact absurd (encloses.wider filled unnested listed).2 (Nat.not_lt_of_le least)
  · rw [Clause.span_handlerRegion] at inside
    rw [unnested.eq_of_handlers alsoListed listed inside handles]

include filled in
/-- What a catch guards lies in the range of its group and in no narrower one. -/
theorem innermost?_of_catch (catches : clause.target.isCatch = true)
    (guards : clause.guarded.contains offset = true) :
    ∃ position, regions.innermost? offset = some ⟨.tryCatch, position, clause.guarded⟩ := by
  obtain ⟨found, isFound, member, inside, least⟩ := exists_innermost?
    (mem_all.mpr ⟨clause, listed, .inl rfl⟩) (by rw [Clause.span_guardedRegion]; exact guards)
  rw [isFound]
  have guardedRegion : ∀ {other : Clause}, other.target.isCatch = true →
      ∃ position, other.guardedRegion = ⟨.tryCatch, position, other.guarded⟩ := by
    intro other isCatch
    unfold Clause.guardedRegion
    cases target : other.target with
    | «catch» position => exact ⟨position, rfl⟩
    | «finally» position =>
      rw [target] at isCatch
      cases isCatch
  obtain ⟨other, alsoListed, rfl | rfl⟩ := mem_all.mp member
  · rw [Clause.span_guardedRegion] at inside least
    rw [Clause.span_guardedRegion] at least
    rcases unnested.guarding_cases listed alsoListed guards inside with
      rfl | ⟨-, alsoCatches, same⟩ | encloses | encloses
    · obtain ⟨position, same⟩ := guardedRegion catches
      exact ⟨position, congrArg some same⟩
    · obtain ⟨position, form⟩ := guardedRegion alsoCatches
      rw [same]
      exact ⟨position, congrArg some form⟩
    · exact absurd (encloses.wider filled unnested listed).1 (Nat.not_lt_of_le least)
    · rw [encloses.kinds.2] at catches
      cases catches
  · rw [Clause.span_handlerRegion] at inside
    have encloses := unnested.encloses_of_handler listed alsoListed guards inside
    rw [encloses.kinds.2] at catches
    cases catches

/-- What a finally guards beyond catches lies in no narrower range. -/
theorem innermost?_of_guarding (guards : clause.guarded.contains offset = true)
    (alone : ∀ other ∈ regions.clauses, other.target.isCatch = true →
      other.guarded.contains offset = false ∧ other.handler.contains offset = false)
    (isFinally : clause.target.isCatch = false) :
    regions.innermost? offset = some clause.guardedRegion := by
  obtain ⟨found, isFound, member, inside, -⟩ := exists_innermost?
    (mem_all.mpr ⟨clause, listed, .inl rfl⟩) (by rw [Clause.span_guardedRegion]; exact guards)
  rw [isFound]
  obtain ⟨other, alsoListed, rfl | rfl⟩ := mem_all.mp member
  · rw [Clause.span_guardedRegion] at inside
    rcases unnested.guarding_cases listed alsoListed guards inside with
      rfl | ⟨catches, -, -⟩ | encloses | encloses
    · rfl
    · rw [isFinally] at catches
      cases catches
    · cases encloses.kinds.1.symm.trans isFinally
    · rw [(alone other alsoListed encloses.kinds.1).1] at inside
      cases inside
  · rw [Clause.span_handlerRegion] at inside
    have encloses := unnested.encloses_of_handler listed alsoListed guards inside
    rw [(alone other alsoListed encloses.kinds.1).2] at inside
    cases inside

end Innermost

/-- In `Unnested` regions, the range that `innermost?` gives lies in all that hold the offset. -/
theorem Unnested.innermost?_within (unnested : regions.Unnested)
    (found : regions.innermost? offset = some region) {other : Region}
    (listed : other ∈ regions.all) (holds : other.span.contains offset = true) :
    region.span.Within other.span := by
  obtain ⟨member, inside⟩ := innermost?_mem found
  have least := innermost?_le found listed holds
  -- Two ranges that hold an offset lie in each other, and the narrower one in the wider one.
  have narrower : other.span.Within region.span → region.span.Within other.span := by
    intro within
    rw [Span.within_iff] at within ⊢
    rw [Span.contains_iff] at inside holds
    rw [Span.width_of_le (by omega), Span.width_of_le (by omega)] at least
    omega
  obtain ⟨first, inTable, rfl | rfl⟩ := mem_all.mp member <;>
    obtain ⟨second, alsoInTable, rfl | rfl⟩ := mem_all.mp listed
  · simp only [Clause.span_guardedRegion] at inside holds narrower ⊢
    rcases unnested.guarding_cases inTable alsoInTable inside holds with
      rfl | ⟨-, -, same⟩ | encloses | encloses
    · exact .refl _
    · exact same ▸ .refl _
    · exact encloses.2.1
    · exact narrower encloses.2.1
  · simp only [Clause.span_guardedRegion, Clause.span_handlerRegion] at inside holds narrower ⊢
    exact narrower (unnested.encloses_of_handler inTable alsoInTable inside holds).2.2
  · simp only [Clause.span_guardedRegion, Clause.span_handlerRegion] at inside holds narrower ⊢
    exact (unnested.encloses_of_handler alsoInTable inTable holds inside).2.2
  · simp only [Clause.span_handlerRegion] at inside holds ⊢
    rw [unnested.eq_of_handlers inTable alsoInTable inside holds]
    exact .refl _

end Regions

end BytecodeFlow

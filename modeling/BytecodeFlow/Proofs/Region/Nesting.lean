/-
This file says what the validity of an exception table rules out. Validity is
decided on one `Extent` for each group, which runs from the start of what the
group guards to the last of its ends. This keeps the ranges of different groups
from being nested (`Unnested`), unless a handler begins before what it guards:
that part of it lies outside the extent, and nothing looks at it. Nor are the
ranges of one group compared with each other. What has to be asked of handlers
besides is just this (`HandlersPlaced`).
-/

import BytecodeFlow.Proofs.Region.Groups

namespace BytecodeFlow

/-! ### Clauses and their ranges -/

/-- Neither range of a table entry is empty. -/
def HandlerEntry.Filled (entry : HandlerEntry) : Prop :=
  entry.tryStart < entry.tryEnd ∧
    ∀ handler, entry.handlerSpan? = some handler → handler.start < handler.stop

instance (entry : HandlerEntry) : Decidable entry.Filled :=
  inferInstanceAs (Decidable (entry.tryStart < entry.tryEnd ∧
    ∀ handler ∈ entry.handlerSpan?, handler.start < handler.stop))

/-- A range lies in another one. -/
def Span.Within (inner outer : Span) : Prop :=
  outer.start ≤ inner.start ∧ inner.stop ≤ outer.stop

instance (inner outer : Span) : Decidable (inner.Within outer) :=
  inferInstanceAs (Decidable (_ ∧ _))

theorem Span.overlaps_eq_false_iff {left right : Span} :
    left.overlaps right = false ↔
      right.stop.toNat ≤ left.start.toNat ∨ left.stop.toNat ≤ right.start.toNat := by
  rw [← Bool.not_eq_true, Span.overlaps_iff]
  omega

theorem Span.within_iff {inner outer : Span} :
    inner.Within outer ↔
      outer.start.toNat ≤ inner.start.toNat ∧ inner.stop.toNat ≤ outer.stop.toNat := by
  rw [Span.Within, UInt32.le_iff_toNat_le, UInt32.le_iff_toNat_le]

def HandlerTarget.isCatch : HandlerTarget → Bool
  | .catch _ => true
  | .finally _ => false

/-- A clause of a table, whichever kind of `HandlerTarget` it is. -/
structure Clause where
  /-- Where the clause is listed. -/
  target : HandlerTarget
  guarded : Span
  handler : Span
deriving DecidableEq, Repr

namespace Clause

/-- Two catch clauses guard the same range. -/
def SharesGroup (left right : Clause) : Prop :=
  left.target.isCatch = true ∧ right.target.isCatch = true ∧ left.guarded = right.guarded

instance (left right : Clause) : Decidable (left.SharesGroup right) :=
  inferInstanceAs (Decidable (_ ∧ _))

/-- No range of one clause overlaps a range of the other. -/
def Apart (left right : Clause) : Prop :=
  ∀ first ∈ [left.guarded, left.handler], ∀ second ∈ [right.guarded, right.handler],
    first.overlaps second = false

instance (left right : Clause) : Decidable (left.Apart right) :=
  inferInstanceAs (Decidable (∀ _ ∈ _, _))

/-- The handler of a clause begins before what the clause guards. -/
def IsEarly (clause : Clause) : Prop := clause.handler.start < clause.guarded.start

instance (clause : Clause) : Decidable clause.IsEarly :=
  inferInstanceAs (Decidable (_ < _))

/-- The handler of a clause overlaps no range of another clause. -/
def Clears (clause other : Clause) : Prop :=
  clause.handler.overlaps other.guarded = false ∧ clause.handler.overlaps other.handler = false

instance (clause other : Clause) : Decidable (clause.Clears other) :=
  inferInstanceAs (Decidable (_ ∧ _))

/-- What the layout of a table takes a clause to cover. -/
def extent (clause : Clause) : Span :=
  ⟨clause.guarded.start, max clause.handler.stop clause.guarded.stop⟩

theorem apart_iff {left right : Clause} :
    left.Apart right ↔
      left.guarded.overlaps right.guarded = false ∧ left.guarded.overlaps right.handler = false ∧
        left.handler.overlaps right.guarded = false ∧
        left.handler.overlaps right.handler = false := by
  simp [Apart, and_assoc]

end Clause

namespace Regions

/-- The clauses of a table, catches first. -/
def clauses (regions : Regions) : List Clause :=
  regions.catches.mapIdx
      (fun position clause => ⟨.catch position, clause.guarded, clause.handler⟩) ++
    regions.finallies.mapIdx
      (fun position clause => ⟨.finally position, clause.guarded, clause.handler⟩)

/-- The finally that is recorded on a catch clause. -/
def recorded? (regions : Regions) (clause : Clause) : Option HandlerTarget :=
  match clause.target with
  | .catch position => (regions.finallyAround? position).map .finally
  | .finally _ => none

/-- A clause is the finally `recorded?` on a catch clause, both ranges of which lie `Within` what it
guards. -/
def Encloses (regions : Regions) (outer inner : Clause) : Prop :=
  regions.recorded? inner = some outer.target ∧
    inner.guarded.Within outer.guarded ∧ inner.handler.Within outer.guarded

instance (regions : Regions) (outer inner : Clause) : Decidable (regions.Encloses outer inner) :=
  inferInstanceAs (Decidable (_ ∧ _))

/-- Handlers keep clear of what their clauses guard, and of each other where one `SharesGroup` with
another. -/
structure HandlersApart (regions : Regions) : Prop where
  own : ∀ clause ∈ regions.clauses, clause.handler.overlaps clause.guarded = false
  grouped : ∀ left ∈ regions.clauses, ∀ right ∈ regions.clauses, left.target ≠ right.target →
    left.SharesGroup right → left.handler.overlaps right.handler = false

/-- Two clauses of different groups are `Apart`, but where a finally `Encloses` a whole catch
clause. -/
structure Unnested (regions : Regions) : Prop extends regions.HandlersApart where
  others : ∀ left ∈ regions.clauses, ∀ right ∈ regions.clauses, left.target ≠ right.target →
    ¬ left.SharesGroup right →
    left.Apart right ∨ regions.Encloses right left ∨ regions.Encloses left right

/-- What has to be asked of handlers besides the layout of groups. A handler that `IsEarly` belongs
to no finally, and `Clears` all other groups. -/
structure HandlersPlaced (regions : Regions) : Prop extends regions.HandlersApart where
  early : ∀ clause ∈ regions.clauses, clause.IsEarly →
    regions.recorded? clause = none ∧
      ∀ other ∈ regions.clauses, clause.target ≠ other.target → ¬ clause.SharesGroup other →
        clause.Clears other

variable {regions : Regions} {left right : Clause}

theorem mem_clauses {clause : Clause} :
    clause ∈ regions.clauses ↔
      (∃ position caught, regions.catches[position]? = some caught ∧
        clause = ⟨.catch position, caught.guarded, caught.handler⟩) ∨
      ∃ position wrapper, regions.finallies[position]? = some wrapper ∧
        clause = ⟨.finally position, wrapper.guarded, wrapper.handler⟩ := by
  unfold clauses
  simp only [List.mem_append, List.mem_mapIdx]
  constructor
  · rintro (⟨position, known, rfl⟩ | ⟨position, known, rfl⟩)
    · exact .inl ⟨position, _, List.getElem?_eq_getElem known, rfl⟩
    · exact .inr ⟨position, _, List.getElem?_eq_getElem known, rfl⟩
  · rintro (⟨position, caught, found, rfl⟩ | ⟨position, wrapper, found, rfl⟩)
    · obtain ⟨known, rfl⟩ := List.getElem?_eq_some_iff.mp found
      exact .inl ⟨position, known, rfl⟩
    · obtain ⟨known, rfl⟩ := List.getElem?_eq_some_iff.mp found
      exact .inr ⟨position, known, rfl⟩

/-! ### What the layout of groups says about clauses -/

/-- No range of a clause is empty. -/
structure Filled (regions : Regions) : Prop where
  guarded : ∀ clause ∈ regions.clauses, clause.guarded.start.toNat < clause.guarded.stop.toNat
  handler : ∀ clause ∈ regions.clauses, clause.handler.start.toNat < clause.handler.stop.toNat

theorem filled_analyze {entries : List HandlerEntry} (filled : ∀ entry ∈ entries, entry.Filled)
    (instructions : List Instruction) : (analyze entries instructions).Filled := by
  have ranges : ∀ clause ∈ (analyze entries instructions).clauses,
      clause.guarded.start < clause.guarded.stop ∧ clause.handler.start < clause.handler.stop := by
    intro clause listed
    rcases mem_clauses.mp listed with ⟨position, caught, found, rfl⟩ |
      ⟨position, wrapper, found, rfl⟩
    · obtain ⟨entry, member, read⟩ := mem_catches_analyze.mp (List.mem_of_getElem? found)
      obtain ⟨complete, guarded⟩ := HandlerEntry.of_catchClause? read
      exact ⟨guarded ▸ (filled entry member).1, (filled entry member).2 _ complete⟩
    · obtain ⟨entry, member, read⟩ := mem_finallies_analyze.mp (List.mem_of_getElem? found)
      obtain ⟨complete, guarded⟩ := HandlerEntry.of_finallyClause? read
      exact ⟨guarded ▸ (filled entry member).1, (filled entry member).2 _ complete⟩
  exact ⟨fun clause listed => UInt32.lt_iff_toNat_lt.mp (ranges clause listed).1,
    fun clause listed => UInt32.lt_iff_toNat_lt.mp (ranges clause listed).2⟩

theorem Filled.guards (filled : regions.Filled) :
    ∀ caught ∈ regions.catches, caught.guarded.start.toNat < caught.guarded.stop.toNat := by
  intro caught member
  obtain ⟨position, found⟩ := List.getElem?_of_mem member
  exact filled.guarded _ (mem_clauses.mpr (.inl ⟨position, caught, found, rfl⟩))

/-- The `extent` of a catch clause is no more than what its group covers. -/
theorem extent_stop_le_catchGroupEnd {caught : CatchClause} (listed : caught ∈ regions.catches)
    (target : HandlerTarget) :
    (Clause.extent ⟨target, caught.guarded, caught.handler⟩).stop.toNat ≤
      (catchGroupEnd regions.catches caught.guarded).toNat := by
  have reach := le_catchGroupEnd listed
  simp only [Clause.extent, toNat_max]
  omega

/-- A finally `recorded?` on a catch clause starts with it and guards all of its `extent`. -/
theorem guards_of_recorded? (inTable : left ∈ regions.clauses)
    (alsoInTable : right ∈ regions.clauses)
    (recorded : regions.recorded? left = some right.target) :
    right.guarded.start = left.guarded.start ∧
      left.extent.stop.toNat ≤ right.guarded.stop.toNat := by
  rcases mem_clauses.mp inTable with ⟨position, caught, found, rfl⟩ | ⟨_, _, _, rfl⟩
  · obtain ⟨around, wraps, same⟩ := Option.map_eq_some_iff.mp recorded
    rcases mem_clauses.mp alsoInTable with ⟨_, _, _, rfl⟩ | ⟨other, wrapper, foundWrapper, rfl⟩
    · cases same
    · cases same
      obtain ⟨_, again, wrapped⟩ := Option.bind_eq_some_iff.mp wraps
      cases found.symm.trans again
      obtain ⟨starts, stops⟩ := guards_of_wrappingFinally? wrapped foundWrapper
      exact ⟨starts, Nat.le_trans
        (extent_stop_le_catchGroupEnd (List.mem_of_getElem? found) _) stops⟩
  · cases recorded

/-- The `extent`s of a catch clause and a finally clause have nothing in common, or the finally is
`recorded?` on the catch. -/
theorem catch_finally_apart (filled : regions.Filled)
    (disjoint : groupsAreDisjoint regions.catches regions.finallies = true)
    {position around : Nat} {caught : CatchClause} {wrapper : FinallyClause}
    (found : regions.catches[position]? = some caught)
    (foundWrapper : regions.finallies[around]? = some wrapper) :
    (Clause.extent ⟨.catch position, caught.guarded, caught.handler⟩).overlaps
        (Clause.extent ⟨.finally around, wrapper.guarded, wrapper.handler⟩) = false ∨
      regions.recorded? ⟨.catch position, caught.guarded, caught.handler⟩ =
        some (.finally around) := by
  have member := List.mem_of_getElem? found
  cases meet : (catchSpan regions.catches caught.guarded).overlaps wrapper.span with
  | true =>
    have wrapped := wrappingFinally?_of_overlaps disjoint filled.guards member foundWrapper meet
    refine .inr (Option.map_eq_some_iff.mpr ⟨around, ?_, rfl⟩)
    exact Option.bind_eq_some_iff.mpr ⟨caught, found, wrapped⟩
  | false =>
    have covers := extent_stop_le_catchGroupEnd member (.catch position)
    rw [Span.overlaps_eq_false_iff] at meet
    refine .inl (Span.overlaps_eq_false_iff.mpr ?_)
    exact meet.imp id (Nat.le_trans covers)

/-- The `extent`s of clauses of different groups have nothing in common, or one is the finally
`recorded?` on the other. -/
theorem extents_apart (filled : regions.Filled)
    (disjoint : groupsAreDisjoint regions.catches regions.finallies = true)
    (inTable : left ∈ regions.clauses) (alsoInTable : right ∈ regions.clauses)
    (different : left.target ≠ right.target) (others : ¬ left.SharesGroup right) :
    left.extent.overlaps right.extent = false ∨
      regions.recorded? left = some right.target ∨ regions.recorded? right = some left.target := by
  rcases mem_clauses.mp inTable with ⟨first, caught, found, rfl⟩ | ⟨first, wrapper, found, rfl⟩ <;>
    rcases mem_clauses.mp alsoInTable with ⟨second, otherCaught, otherFound, rfl⟩ |
      ⟨second, otherWrapper, otherFound, rfl⟩
  · have member := List.mem_of_getElem? found
    have otherMember := List.mem_of_getElem? otherFound
    have apart := catchGroups_apart disjoint member otherMember fun same => others ⟨rfl, rfl, same⟩
    have covers := extent_stop_le_catchGroupEnd member (.catch first)
    have otherCovers := extent_stop_le_catchGroupEnd otherMember (.catch second)
    rw [Span.overlaps_eq_false_iff] at apart
    refine .inl (Span.overlaps_eq_false_iff.mpr ?_)
    exact apart.imp (Nat.le_trans otherCovers) (Nat.le_trans covers)
  · exact (catch_finally_apart filled disjoint found otherFound).imp id .inl
  · rcases catch_finally_apart filled disjoint otherFound found with apart | recorded
    · refine .inl (Span.overlaps_eq_false_iff.mpr ?_)
      exact (Span.overlaps_eq_false_iff.mp apart).symm
    · exact .inr (.inr recorded)
  · refine .inl (eq_false_of_ne_true fun meet => different ?_)
    exact congrArg HandlerTarget.finally (finally_unique disjoint found otherFound meet)

/-! ### Nesting -/

/-- Clauses whose `extent`s have nothing in common are `Apart`, if each `Clears` the other where it
`IsEarly`. -/
theorem apart_of_extents (apart : left.extent.overlaps right.extent = false)
    (leftClears : left.IsEarly → left.Clears right)
    (rightClears : right.IsEarly → right.Clears left) : left.Apart right := by
  simp only [Clause.IsEarly, Clause.Clears, UInt32.lt_iff_toNat_lt, Span.overlaps_eq_false_iff]
    at leftClears rightClears
  rw [Span.overlaps_eq_false_iff] at apart
  simp only [Clause.extent, toNat_max] at apart
  simp only [Clause.apart_iff, Span.overlaps_eq_false_iff]
  omega

/-- The finally `recorded?` on a catch clause `Encloses` it, unless the handler begins early. -/
theorem encloses_of_recorded? (inTable : left ∈ regions.clauses)
    (alsoInTable : right ∈ regions.clauses) (recorded : regions.recorded? left = some right.target)
    (late : ¬ left.IsEarly) : regions.Encloses right left := by
  obtain ⟨starts, stops⟩ := guards_of_recorded? inTable alsoInTable recorded
  rw [Clause.IsEarly, UInt32.lt_iff_toNat_lt] at late
  simp only [Clause.extent, toNat_max] at stops
  refine ⟨recorded, Span.within_iff.mpr ?_, Span.within_iff.mpr ?_⟩
  · rw [starts]
    omega
  · rw [starts]
    omega

/-- Only on catch clauses something is `recorded?`, and it is a finally of the table. -/
theorem mem_of_recorded? {target : HandlerTarget}
    (recorded : regions.recorded? left = some target) :
    left.target.isCatch = true ∧
      ∃ outer ∈ regions.clauses, outer.target = target ∧ outer.target.isCatch = false := by
  unfold recorded? at recorded
  split at recorded
  next position isCatch =>
    rw [isCatch]
    obtain ⟨around, wraps, rfl⟩ := Option.map_eq_some_iff.mp recorded
    obtain ⟨caught, -, wrapped⟩ := Option.bind_eq_some_iff.mp wraps
    obtain ⟨known, -⟩ := List.findIdx?_eq_some_iff_getElem.mp wrapped
    exact ⟨rfl, _, mem_clauses.mpr (.inr ⟨around, _, List.getElem?_eq_getElem known, rfl⟩), rfl,
      rfl⟩
  · cases recorded

theorem Unnested.of_placed (filled : regions.Filled)
    (disjoint : groupsAreDisjoint regions.catches regions.finallies = true)
    (placed : regions.HandlersPlaced) : regions.Unnested where
  toHandlersApart := placed.toHandlersApart
  others left inTable right alsoInTable different others := by
    have late : ∀ {clause : Clause} {target : HandlerTarget}, clause ∈ regions.clauses →
        regions.recorded? clause = some target → ¬ clause.IsEarly := by
      intro clause target listed recorded early
      rw [(placed.early clause listed early).1] at recorded
      cases recorded
    rcases extents_apart filled disjoint inTable alsoInTable different others with
      apart | recorded | recorded
    · refine .inl (apart_of_extents apart (fun early => ?_) (fun early => ?_))
      · exact (placed.early left inTable early).2 right alsoInTable different others
      · refine (placed.early right alsoInTable early).2 left inTable different.symm ?_
        rintro ⟨rightCatches, leftCatches, same⟩
        exact others ⟨leftCatches, rightCatches, same.symm⟩
    · exact .inr (.inl (encloses_of_recorded? inTable alsoInTable recorded (late inTable recorded)))
    · exact .inr (.inr
        (encloses_of_recorded? alsoInTable inTable recorded (late alsoInTable recorded)))

/-- In `Unnested` regions, no finally is `recorded?` on a clause whose handler begins early: it
would guard what the clause guards, but not the handler. -/
theorem Unnested.recorded?_of_isEarly (filled : regions.Filled) (unnested : regions.Unnested)
    (inTable : left ∈ regions.clauses) (early : left.IsEarly) :
    regions.recorded? left = none := by
  cases recorded : regions.recorded? left with
  | none => rfl
  | some target =>
    obtain ⟨isCatch, outer, alsoInTable, rfl, isFinally⟩ := mem_of_recorded? recorded
    have different : left.target ≠ outer.target := by
      intro same
      rw [same, isFinally] at isCatch
      cases isCatch
    have others : ¬ left.SharesGroup outer := by
      rintro ⟨-, outerCatches, -⟩
      rw [isFinally] at outerCatches
      cases outerCatches
    obtain ⟨starts, stops⟩ := guards_of_recorded? inTable alsoInTable recorded
    rw [Clause.IsEarly, UInt32.lt_iff_toNat_lt] at early
    rcases unnested.others left inTable outer alsoInTable different others with
      apart | ⟨-, -, inside⟩ | ⟨again, -⟩
    · have meet := (Clause.apart_iff.mp apart).1
      have guards := filled.guarded left inTable
      have wraps := filled.guarded outer alsoInTable
      rw [Span.overlaps_eq_false_iff, starts] at meet
      rw [starts] at wraps
      omega
    · have within := (Span.within_iff.mp inside).1
      rw [starts] at within
      omega
    · rw [(mem_of_recorded? again).1] at isFinally
      cases isFinally

theorem Unnested.placed (filled : regions.Filled) (unnested : regions.Unnested) :
    regions.HandlersPlaced where
  toHandlersApart := unnested.toHandlersApart
  early clause inTable early := by
    have unwrapped := unnested.recorded?_of_isEarly filled inTable early
    refine ⟨unwrapped, fun other alsoInTable different others => ?_⟩
    rcases unnested.others clause inTable other alsoInTable different others with
      apart | ⟨recorded, -⟩ | ⟨-, guards, handles⟩
    · exact (Clause.apart_iff.mp apart).2.2
    · rw [unwrapped] at recorded
      cases recorded
    · have own := unnested.own clause inTable
      rw [Span.overlaps_eq_false_iff] at own
      rw [Span.within_iff] at guards handles
      constructor <;> rw [Span.overlaps_eq_false_iff] <;> omega

/-- In a valid table whose ranges are not empty no range is nested in another one (`Unnested`) if
and only if its handlers are placed well (`HandlersPlaced`). -/
theorem unnested_iff_handlersPlaced {entries : List HandlerEntry}
    {instructions : List Instruction} (filled : ∀ entry ∈ entries, entry.Filled)
    (valid : (analyze entries instructions).valid = true) :
    (analyze entries instructions).Unnested ↔ (analyze entries instructions).HandlersPlaced :=
  have inhabited := filled_analyze filled instructions
  ⟨Unnested.placed inhabited,
    Unnested.of_placed inhabited (groupsAreDisjoint_of_valid valid)⟩

/-- A range with two catch clauses, and a finally that guards all three. -/
def guardedEntries : List HandlerEntry :=
  [⟨.finally, 0, 6, some 6, some 8, none⟩, ⟨.catch, 0, 2, some 4, some 6, none⟩,
    ⟨.catch, 0, 2, some 2, some 4, some "System.IO.IOException"⟩]

/-- The table that is read from `guardedEntries`, in which the catch clauses are sorted. -/
def guardedRegions : Regions where
  catches :=
    [⟨⟨0, 2⟩, ⟨2, 4⟩, "System.IO.IOException"⟩, ⟨⟨0, 2⟩, ⟨4, 6⟩, defaultCatchType⟩]
  finallies := [⟨⟨0, 6⟩, ⟨6, 8⟩⟩]
  boundaries := [0, 6, 6, 8, 0, 2, 4, 6, 0, 2, 2, 4]
  unhandled := false
  valid := true

theorem analyze_guardedEntries : analyze guardedEntries [] = guardedRegions := by
  have sorted : (guardedEntries.filterMap HandlerEntry.catchClause?).mergeSort
      CatchClause.notAfter = guardedRegions.catches :=
    mergeSort_notAfter (.swap ..) (by decide) (by decide)
  unfold analyze
  rw [sorted]
  decide +kernel

theorem unnested_guardedEntries :
    (∀ entry ∈ guardedEntries, entry.Filled) ∧ (analyze guardedEntries []).valid = true ∧
      (analyze guardedEntries []).Unnested := by
  have filled : ∀ entry ∈ guardedEntries, entry.Filled := by decide
  have valid : (analyze guardedEntries []).valid = true := by
    rw [analyze_guardedEntries]
    rfl
  refine ⟨filled, valid, (unnested_iff_handlersPlaced filled valid).mpr ?_⟩
  rw [analyze_guardedEntries]
  have late : ∀ clause ∈ guardedRegions.clauses, ¬ clause.IsEarly := by decide
  exact ⟨⟨by decide, by decide⟩, fun clause listed early => absurd early (late clause listed)⟩

/-- A catch clause whose handler comes before what it guards, and another one in this handler. -/
def nestedEntries : List HandlerEntry :=
  [⟨.catch, 6, 7, some 1, some 6, some "System.Exception"⟩,
    ⟨.catch, 2, 3, some 3, some 5, some "System.Exception"⟩]

def nestedInstructions : List Instruction :=
  [⟨0, "br", .target 6, none⟩, ⟨1, "pop", .none, none⟩, ⟨2, "leave", .target 5, none⟩,
    ⟨3, "pop", .none, none⟩, ⟨4, "leave", .target 5, none⟩, ⟨5, "leave", .target 7, none⟩,
    ⟨6, "leave", .target 7, none⟩, ⟨7, "ret", .none, none⟩]

/-- The table that is read from `nestedEntries`, in which the catch clauses are sorted. -/
def nestedRegions : Regions where
  catches := [⟨⟨2, 3⟩, ⟨3, 5⟩, "System.Exception"⟩, ⟨⟨6, 7⟩, ⟨1, 6⟩, "System.Exception"⟩]
  finallies := []
  boundaries := [6, 7, 1, 6, 2, 3, 3, 5]
  unhandled := false
  valid := true

theorem analyze_nestedEntries : analyze nestedEntries nestedInstructions = nestedRegions := by
  have sorted : (nestedEntries.filterMap HandlerEntry.catchClause?).mergeSort
      CatchClause.notAfter = nestedRegions.catches :=
    mergeSort_notAfter (.swap ..) (by decide) (by decide)
  unfold analyze
  rw [sorted]
  decide +kernel

/-- Validity alone does not make a table `Unnested`: the second clause lies in the handler of the
first. -/
theorem valid_nestedEntries :
    (∀ entry ∈ nestedEntries, entry.Filled) ∧
      (analyze nestedEntries nestedInstructions).valid = true ∧
      ¬ (analyze nestedEntries nestedInstructions).Unnested := by
  rw [analyze_nestedEntries]
  refine ⟨by decide, rfl, fun unnested => ?_⟩
  have inner : ⟨.catch 0, ⟨2, 3⟩, ⟨3, 5⟩⟩ ∈ nestedRegions.clauses := List.mem_cons_self
  have outer : ⟨.catch 1, ⟨6, 7⟩, ⟨1, 6⟩⟩ ∈ nestedRegions.clauses :=
    List.mem_cons_of_mem _ List.mem_cons_self
  -- The inner clause is neither apart from the outer one nor in the care of a finally.
  rcases unnested.others _ inner _ outer (by decide) (by decide) with apart | enclosed | enclosed
  · exact absurd apart (by decide)
  · exact absurd enclosed.2.1 (by decide)
  · exact absurd enclosed.2.2 (by decide)

end Regions

end BytecodeFlow

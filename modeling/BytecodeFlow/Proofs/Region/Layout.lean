/-
This file draws the layout of a valid exception table. What a group of catches
covers (`catchSpan`), and what a finally covers (`FinallyClause.span`), never
overlap but where the finally guards the whole group. So the handler of a
finally lies in no other range of the table, and different handlers start at
different offsets.
-/

import Mathlib.Data.List.Pairwise
import BytecodeFlow.Region.Lookup

namespace BytecodeFlow

/-! ### Ranges -/

theorem Span.contains_iff {span : Span} {offset : Offset} :
    span.contains offset = true ↔
      span.start.toNat ≤ offset.toNat ∧ offset.toNat < span.stop.toNat := by
  simp [Span.contains, UInt32.le_iff_toNat_le, UInt32.lt_iff_toNat_lt]

theorem Span.overlaps_iff {left right : Span} :
    left.overlaps right = true ↔
      left.start.toNat < right.stop.toNat ∧ right.start.toNat < left.stop.toNat := by
  simp [Span.overlaps, UInt32.lt_iff_toNat_lt]

/-! ### Tables -/

/-- A table entry whose guarded range is not empty and is followed by its handler, if `handlerSpan?`
gives it one. -/
def HandlerEntry.WellFormed (entry : HandlerEntry) : Prop :=
  ∀ handler, entry.handlerSpan? = some handler →
    entry.tryStart < entry.tryEnd ∧ entry.tryEnd ≤ handler.start ∧ handler.start < handler.stop

instance (entry : HandlerEntry) : Decidable entry.WellFormed :=
  inferInstanceAs (Decidable (∀ handler ∈ entry.handlerSpan?,
    entry.tryStart < entry.tryEnd ∧ entry.tryEnd ≤ handler.start ∧ handler.start < handler.stop))

/-- The ranges of each clause are not empty, and the handler comes after what is guarded, as in
`HandlerEntry.WellFormed`. -/
structure Regions.WellFormed (regions : Regions) : Prop where
  catches : ∀ clause ∈ regions.catches,
    clause.guarded.start.toNat < clause.guarded.stop.toNat ∧
      clause.guarded.stop.toNat ≤ clause.handler.start.toNat ∧
      clause.handler.start.toNat < clause.handler.stop.toNat
  finallies : ∀ clause ∈ regions.finallies,
    clause.guarded.start.toNat < clause.guarded.stop.toNat ∧
      clause.guarded.stop.toNat ≤ clause.handler.start.toNat ∧
      clause.handler.start.toNat < clause.handler.stop.toNat

theorem HandlerEntry.WellFormed.ordered {entry : HandlerEntry} (wellFormed : entry.WellFormed)
    {handler : Span} (complete : entry.handlerSpan? = some handler) :
    entry.guarded.start.toNat < entry.guarded.stop.toNat ∧
      entry.guarded.stop.toNat ≤ handler.start.toNat ∧
      handler.start.toNat < handler.stop.toNat := by
  obtain ⟨guards, follows, holds⟩ := wellFormed handler complete
  exact ⟨UInt32.lt_iff_toNat_lt.mp guards, UInt32.le_iff_toNat_le.mp follows,
    UInt32.lt_iff_toNat_lt.mp holds⟩

theorem HandlerEntry.of_catchClause? {entry : HandlerEntry} {clause : CatchClause}
    (read : entry.catchClause? = some clause) :
    entry.handlerSpan? = some clause.handler ∧ entry.guarded = clause.guarded := by
  unfold HandlerEntry.catchClause? at read
  cases complete : entry.handlerSpan? with
  | none =>
    rw [complete] at read
    cases read
  | some handler =>
    rw [complete] at read
    simp only [Option.bind_eq_bind, Option.bind_some] at read
    split at read
    · cases read
      exact ⟨rfl, rfl⟩
    · cases read

theorem HandlerEntry.of_finallyClause? {entry : HandlerEntry} {clause : FinallyClause}
    (read : entry.finallyClause? = some clause) :
    entry.handlerSpan? = some clause.handler ∧ entry.guarded = clause.guarded := by
  unfold HandlerEntry.finallyClause? at read
  cases complete : entry.handlerSpan? with
  | none =>
    rw [complete] at read
    cases read
  | some handler =>
    rw [complete] at read
    simp only [Option.bind_eq_bind, Option.bind_some] at read
    split at read
    · cases read
      exact ⟨rfl, rfl⟩
    · cases read

/-- The catch clauses that `analyze` finds are those of the table. -/
theorem Regions.mem_catches_analyze {entries : List HandlerEntry}
    {instructions : List Instruction} {clause : CatchClause} :
    clause ∈ (Regions.analyze entries instructions).catches ↔
      ∃ entry ∈ entries, entry.catchClause? = some clause :=
  List.mem_mergeSort.trans List.mem_filterMap

theorem Regions.mem_finallies_analyze {entries : List HandlerEntry}
    {instructions : List Instruction} {clause : FinallyClause} :
    clause ∈ (Regions.analyze entries instructions).finallies ↔
      ∃ entry ∈ entries, entry.finallyClause? = some clause :=
  List.mem_filterMap

/-- Entries that are `WellFormed` are read as `Regions.WellFormed`. -/
theorem Regions.wellFormed_analyze {entries : List HandlerEntry}
    (wellFormed : ∀ entry ∈ entries, entry.WellFormed) (instructions : List Instruction) :
    (Regions.analyze entries instructions).WellFormed := by
  constructor
  · intro clause listed
    obtain ⟨entry, member, read⟩ := Regions.mem_catches_analyze.mp listed
    obtain ⟨complete, guarded⟩ := HandlerEntry.of_catchClause? read
    rw [← guarded]
    exact (wellFormed entry member).ordered complete
  · intro clause listed
    obtain ⟨entry, member, read⟩ := Regions.mem_finallies_analyze.mp listed
    obtain ⟨complete, guarded⟩ := HandlerEntry.of_finallyClause? read
    rw [← guarded]
    exact (wellFormed entry member).ordered complete

/-! ### What groups cover -/

theorem allCompatible_iff {catches : List CatchClause} {finallies : List FinallyClause}
    {extents : List Extent} :
    allCompatible catches finallies extents = true ↔
      extents.Pairwise fun left right => left.compatible catches finallies right = true := by
  induction extents with
  | nil => simp [allCompatible]
  | cons extent rest inductionHypothesis =>
    rw [allCompatible, Bool.and_eq_true, List.all_eq_true, inductionHypothesis, List.pairwise_cons]

theorem toNat_max (left right : Offset) :
    (max left right).toNat = max left.toNat right.toNat := by
  show (if left ≤ right then right else left).toNat = _
  split <;> rename_i order <;> rw [UInt32.le_iff_toNat_le] at order <;> omega

theorem foldl_max_le (clauses : List CatchClause) (stop : Offset) :
    stop.toNat ≤ (clauses.foldl (fun stop clause => max stop clause.reach) stop).toNat ∧
      ∀ clause ∈ clauses, clause.reach.toNat ≤
        (clauses.foldl (fun stop clause => max stop clause.reach) stop).toNat := by
  induction clauses generalizing stop with
  | nil => exact ⟨Nat.le_refl _, fun _ member => by cases member⟩
  | cons first rest inductionHypothesis =>
    obtain ⟨start, others⟩ := inductionHypothesis (max stop first.reach)
    rw [toNat_max] at start
    refine ⟨Nat.le_trans (Nat.le_max_left ..) start, fun clause member => ?_⟩
    rcases List.mem_cons.mp member with rfl | later
    · exact Nat.le_trans (Nat.le_max_right ..) start
    · exact others clause later

/-- A group reaches at least as far as each of its ranges. -/
theorem le_catchGroupEnd {catches : List CatchClause} {clause : CatchClause}
    (listed : clause ∈ catches) :
    clause.guarded.stop.toNat ≤ (catchGroupEnd catches clause.guarded).toNat ∧
      clause.handler.stop.toNat ≤ (catchGroupEnd catches clause.guarded).toNat := by
  have grouped : clause ∈ catchGroup catches clause.guarded :=
    List.mem_filter.mpr ⟨listed, decide_eq_true rfl⟩
  obtain ⟨guarded, members⟩ := foldl_max_le (catchGroup catches clause.guarded) clause.guarded.stop
  refine ⟨guarded, Nat.le_trans ?_ (members clause grouped)⟩
  unfold CatchClause.reach
  rw [toNat_max]
  exact Nat.le_max_left ..

theorem le_reach (clause : FinallyClause) :
    clause.guarded.stop.toNat ≤ clause.reach.toNat ∧
      clause.handler.stop.toNat ≤ clause.reach.toNat := by
  unfold FinallyClause.reach
  rw [toNat_max]
  exact ⟨Nat.le_max_right .., Nat.le_max_left ..⟩

section Apart

variable {catches : List CatchClause} {finallies : List FinallyClause}

/-- What a group of catch clauses covers, up to its `catchGroupEnd`. -/
def catchSpan (catches : List CatchClause) (guarded : Span) : Span :=
  ⟨guarded.start, catchGroupEnd catches guarded⟩

/-- What a finally clause covers, up to its `reach`. -/
def FinallyClause.span (clause : FinallyClause) : Span := ⟨clause.guarded.start, clause.reach⟩

theorem groupsAreDisjoint_iff :
    groupsAreDisjoint catches finallies = true ↔
      (catchExtents catches).Pairwise (fun left right =>
        left.compatible catches finallies right = true) ∧
      (finallyExtents finallies).Pairwise (fun left right =>
        left.compatible catches finallies right = true) ∧
      ∀ left ∈ catchExtents catches, ∀ right ∈ finallyExtents finallies,
        left.compatible catches finallies right = true := by
  unfold groupsAreDisjoint
  rw [allCompatible_iff, List.pairwise_append]

/-- The `catchSpan`s of different groups are apart. -/
theorem catchGroups_apart (disjoint : groupsAreDisjoint catches finallies = true)
    {first second : CatchClause} (firstListed : first ∈ catches) (secondListed : second ∈ catches)
    (different : first.guarded ≠ second.guarded) :
    (catchSpan catches first.guarded).overlaps (catchSpan catches second.guarded) = false := by
  let apart (left right : Span) : Prop :=
    (catchSpan catches left).overlaps (catchSpan catches right) = false
  have symmetric : Std.Symm apart := ⟨fun left right separate => by
    simp only [apart, ← Bool.not_eq_true, Span.overlaps_iff] at separate ⊢
    exact fun both => separate ⟨both.2, both.1⟩⟩
  have pairwise : ((catches.map CatchClause.guarded).eraseDups).Pairwise apart := by
    refine (List.pairwise_map.mp (groupsAreDisjoint_iff.mp disjoint).1).imp ?_
    intro left right compatible
    unfold Extent.compatible at compatible
    split at compatible
    · cases compatible
    · rename_i separate
      exact eq_false_of_ne_true separate
  exact pairwise.forall (List.mem_eraseDups.mpr (List.mem_map_of_mem firstListed))
    (List.mem_eraseDups.mpr (List.mem_map_of_mem secondListed)) different

/-- The `span`s of different finally clauses are apart. -/
theorem finallies_apart (disjoint : groupsAreDisjoint catches finallies = true)
    {first second : Nat} {left right : FinallyClause} (atFirst : finallies[first]? = some left)
    (atSecond : finallies[second]? = some right) (before : first < second) :
    left.span.overlaps right.span = false := by
  obtain ⟨firstKnown, rfl⟩ := List.getElem?_eq_some_iff.mp atFirst
  obtain ⟨secondKnown, rfl⟩ := List.getElem?_eq_some_iff.mp atSecond
  have pairwise := List.pairwise_iff_getElem.mp (groupsAreDisjoint_iff.mp disjoint).2.1
  have compatible := pairwise first second (by simpa [finallyExtents] using firstKnown)
    (by simpa [finallyExtents] using secondKnown) before
  simp only [finallyExtents, List.getElem_mapIdx] at compatible
  unfold Extent.compatible at compatible
  split at compatible
  · cases compatible
  · rename_i separate
    exact eq_false_of_ne_true separate

/-- A finally clause is apart from a group of catch clauses, or wraps a group that starts where
this one does. -/
theorem catchGroup_finally (disjoint : groupsAreDisjoint catches finallies = true)
    {caught : CatchClause} (listed : caught ∈ catches) {position : Nat} {clause : FinallyClause}
    (found : finallies[position]? = some clause) :
    (catchSpan catches caught.guarded).overlaps clause.span = false ∨
      ∃ other ∈ catches, other.guarded.start = caught.guarded.start ∧
        wrappingFinally? catches finallies other = some position := by
  obtain ⟨known, rfl⟩ := List.getElem?_eq_some_iff.mp found
  have left : (⟨catchSpan catches caught.guarded, none⟩ : Extent) ∈ catchExtents catches :=
    List.mem_map.mpr
      ⟨caught.guarded, List.mem_eraseDups.mpr (List.mem_map_of_mem listed), rfl⟩
  have right : (⟨finallies[position].span, some position⟩ : Extent) ∈ finallyExtents finallies :=
    List.mem_mapIdx.mpr ⟨position, known, rfl⟩
  have compatible := (groupsAreDisjoint_iff.mp disjoint).2.2 _ left _ right
  unfold Extent.compatible at compatible
  split at compatible
  · obtain ⟨other, member, wraps⟩ := List.any_eq_true.mp compatible
    obtain ⟨sameStart, wrapped⟩ := Bool.and_eq_true_iff.mp wraps
    exact .inr ⟨other, member, eq_of_beq sameStart, eq_of_beq wrapped⟩
  · rename_i separate
    exact .inl (eq_false_of_ne_true separate)

/-- Two groups that start at one offset are one group, unless they guard nothing. -/
theorem guarded_eq_of_start (disjoint : groupsAreDisjoint catches finallies = true)
    (guards : ∀ clause ∈ catches, clause.guarded.start.toNat < clause.guarded.stop.toNat)
    {first second : CatchClause} (firstListed : first ∈ catches) (secondListed : second ∈ catches)
    (sameStart : first.guarded.start = second.guarded.start) : first.guarded = second.guarded := by
  by_contra different
  have apart := catchGroups_apart disjoint firstListed secondListed different
  rw [← Bool.not_eq_true, Span.overlaps_iff] at apart
  have firstReach := le_catchGroupEnd firstListed
  have secondReach := le_catchGroupEnd secondListed
  have firstGuards := guards first firstListed
  have secondGuards := guards second secondListed
  have starts := congrArg UInt32.toNat sameStart
  simp only [catchSpan] at apart
  omega

/-- A finally clause that meets a group of catch clauses is the one that `wrappingFinally?`
finds. -/
theorem wrappingFinally?_of_overlaps (disjoint : groupsAreDisjoint catches finallies = true)
    (guards : ∀ clause ∈ catches, clause.guarded.start.toNat < clause.guarded.stop.toNat)
    {caught : CatchClause} (listed : caught ∈ catches) {position : Nat} {clause : FinallyClause}
    (found : finallies[position]? = some clause)
    (meet : (catchSpan catches caught.guarded).overlaps clause.span = true) :
    wrappingFinally? catches finallies caught = some position := by
  rcases catchGroup_finally disjoint listed found with apart | ⟨other, member, sameStart, wrapped⟩
  · rw [apart] at meet
    cases meet
  · unfold wrappingFinally? at wrapped ⊢
    rwa [guarded_eq_of_start disjoint guards member listed sameStart] at wrapped

/-- The finally clause that `wrappingFinally?` finds guards all of the group. -/
theorem guards_of_wrappingFinally? {caught : CatchClause} {position : Nat}
    {clause : FinallyClause} (wrapped : wrappingFinally? catches finallies caught = some position)
    (found : finallies[position]? = some clause) :
    clause.guarded.start = caught.guarded.start ∧
      (catchGroupEnd catches caught.guarded).toNat ≤ clause.guarded.stop.toNat := by
  obtain ⟨known, wraps, -⟩ := List.findIdx?_eq_some_iff_getElem.mp wrapped
  obtain ⟨_, rfl⟩ := List.getElem?_eq_some_iff.mp found
  obtain ⟨starts, guards⟩ := Bool.and_eq_true_iff.mp wraps
  exact ⟨eq_of_beq starts, UInt32.le_iff_toNat_le.mp (of_decide_eq_true guards)⟩

end Apart

/-! ### The innermost range -/

theorem foldl_least_mem {α : Type} (measure : α → Nat) (elements : List α) (best : Option α)
    {least : α}
    (found : elements.foldl (fun best element =>
      match best with
      | none => some element
      | some least => if measure element < measure least then some element else some least)
      best = some least) : best = some least ∨ least ∈ elements := by
  induction elements generalizing best with
  | nil => exact .inl found
  | cons element rest inductionHypothesis =>
    rcases inductionHypothesis _ found with kept | later
    · cases best with
      | none =>
        cases kept
        exact .inr List.mem_cons_self
      | some old =>
        dsimp only at kept
        split at kept
        · cases kept
          exact .inr List.mem_cons_self
        · exact .inl kept
    · exact .inr (List.mem_cons_of_mem _ later)

theorem firstLeast?_mem {α : Type} {measure : α → Nat} {elements : List α} {least : α}
    (found : firstLeast? measure elements = some least) : least ∈ elements := by
  rcases foldl_least_mem measure elements none found with impossible | member
  · cases impossible
  · exact member

theorem foldl_least_isSome {α : Type} (measure : α → Nat) (elements : List α) (best : α) :
    (elements.foldl (fun best element =>
      match best with
      | none => some element
      | some least => if measure element < measure least then some element else some least)
      (some best)).isSome := by
  induction elements generalizing best with
  | nil => rfl
  | cons element rest inductionHypothesis =>
    rw [List.foldl_cons]
    dsimp only
    split
    · exact inductionHypothesis element
    · exact inductionHypothesis best

/-- If there is only one candidate, it is the one that `firstLeast?` finds. -/
theorem firstLeast?_of_forall_eq {α : Type} (measure : α → Nat) {elements : List α} {only : α}
    (member : only ∈ elements) (same : ∀ element ∈ elements, element = only) :
    firstLeast? measure elements = some only := by
  cases found : firstLeast? measure elements with
  | some least => rw [same least (firstLeast?_mem found)]
  | none =>
    cases elements with
    | nil => cases member
    | cons first rest =>
      have some? : (firstLeast? measure (first :: rest)).isSome :=
        foldl_least_isSome measure rest first
      rw [found] at some?
      cases some?

namespace Regions

variable {regions : Regions}

theorem groupsAreDisjoint_of_valid {entries : List HandlerEntry} {instructions : List Instruction}
    (valid : (analyze entries instructions).valid = true) :
    groupsAreDisjoint (analyze entries instructions).catches
      (analyze entries instructions).finallies = true :=
  (Bool.and_eq_true_iff.mp valid).1

/-- A finally clause that meets a group of catch clauses guards all of it. -/
theorem wraps_of_overlaps (wellFormed : regions.WellFormed)
    (disjoint : groupsAreDisjoint regions.catches regions.finallies = true)
    {caught : CatchClause} (listed : caught ∈ regions.catches) {position : Nat}
    {clause : FinallyClause} (found : regions.finallies[position]? = some clause)
    (meet : (catchSpan regions.catches caught.guarded).overlaps clause.span = true) :
    clause.guarded.start = caught.guarded.start ∧
      (catchGroupEnd regions.catches caught.guarded).toNat ≤ clause.guarded.stop.toNat :=
  have guards : ∀ caught ∈ regions.catches,
      caught.guarded.start.toNat < caught.guarded.stop.toNat :=
    fun caught member => (wellFormed.catches caught member).1
  guards_of_wrappingFinally? (wrappingFinally?_of_overlaps disjoint guards listed found meet) found

/-- Offsets that two finally clauses cover belong to one clause. -/
theorem finally_unique (disjoint : groupsAreDisjoint regions.catches regions.finallies = true)
    {first second : Nat} {left right : FinallyClause}
    (atFirst : regions.finallies[first]? = some left)
    (atSecond : regions.finallies[second]? = some right)
    (meet : left.span.overlaps right.span = true) : first = second := by
  rcases Nat.lt_trichotomy first second with before | same | after
  · rw [finallies_apart disjoint atFirst atSecond before] at meet
    cases meet
  · exact same
  · have apart := finallies_apart disjoint atSecond atFirst after
    rw [← Bool.not_eq_true, Span.overlaps_iff] at apart
    rw [Span.overlaps_iff] at meet
    exact absurd ⟨meet.2, meet.1⟩ apart

/-- The handler of a finally lies in no other range. -/
theorem region_of_finally (wellFormed : regions.WellFormed)
    (disjoint : groupsAreDisjoint regions.catches regions.finallies = true)
    {position : Nat} {clause : FinallyClause} (found : regions.finallies[position]? = some clause)
    {offset : Offset} (inside : clause.handler.contains offset = true) {region : Region}
    (listed : region ∈ regions.all) (holds : region.span.contains offset = true) :
    region = ⟨.finally, position, clause.handler⟩ := by
  have order := wellFormed.finallies clause (List.mem_of_getElem? found)
  have reach := le_reach clause
  rw [Span.contains_iff] at inside
  have notCaught : ∀ caught ∈ regions.catches,
      caught.guarded.start.toNat ≤ offset.toNat →
      offset.toNat < (catchGroupEnd regions.catches caught.guarded).toNat → False := by
    intro caught member starts stops
    have wraps := wraps_of_overlaps wellFormed disjoint member found (Span.overlaps_iff.mpr (by
      simp only [catchSpan, FinallyClause.span]
      omega))
    omega
  unfold all at listed
  simp only [List.mem_append, List.mem_mapIdx] at listed
  rcases listed with ((⟨other, known, rfl⟩ | ⟨other, known, rfl⟩) | ⟨other, known, rfl⟩) |
    ⟨other, known, rfl⟩
  · have member := List.getElem_mem known
    rw [Span.contains_iff] at holds
    dsimp only at holds
    exact (notCaught _ member holds.1
      (Nat.lt_of_lt_of_le holds.2 (le_catchGroupEnd member).1)).elim
  · have otherOrder := wellFormed.finallies _ (List.getElem_mem known)
    have otherReach := le_reach regions.finallies[other]
    rw [Span.contains_iff] at holds
    dsimp only at holds
    have same := finally_unique disjoint found (List.getElem?_eq_getElem known)
      (Span.overlaps_iff.mpr (by
        simp only [FinallyClause.span]
        omega))
    subst same
    obtain ⟨_, rfl⟩ := List.getElem?_eq_some_iff.mp found
    omega
  · have member := List.getElem_mem known
    have caughtOrder := wellFormed.catches _ member
    rw [Span.contains_iff] at holds
    dsimp only at holds
    exact (notCaught _ member (by omega)
      (Nat.lt_of_lt_of_le holds.2 (le_catchGroupEnd member).2)).elim
  · have otherOrder := wellFormed.finallies _ (List.getElem_mem known)
    have otherReach := le_reach regions.finallies[other]
    rw [Span.contains_iff] at holds
    dsimp only at holds
    have same := finally_unique disjoint found (List.getElem?_eq_getElem known)
      (Span.overlaps_iff.mpr (by
        simp only [FinallyClause.span]
        omega))
    subst same
    obtain ⟨_, rfl⟩ := List.getElem?_eq_some_iff.mp found
    rfl

theorem innermost?_of_finally (wellFormed : regions.WellFormed)
    (disjoint : groupsAreDisjoint regions.catches regions.finallies = true)
    {position : Nat} {clause : FinallyClause} (found : regions.finallies[position]? = some clause)
    {offset : Offset} (inside : clause.handler.contains offset = true) :
    regions.innermost? offset = some ⟨.finally, position, clause.handler⟩ := by
  refine firstLeast?_of_forall_eq _ (List.mem_filter.mpr ⟨?_, inside⟩) fun region candidate => ?_
  · obtain ⟨known, rfl⟩ := List.getElem?_eq_some_iff.mp found
    unfold all
    exact List.mem_append_right _ (List.mem_mapIdx.mpr ⟨position, known, rfl⟩)
  · obtain ⟨listed, holds⟩ := List.mem_filter.mp candidate
    exact region_of_finally wellFormed disjoint found inside listed holds

/-- An offset lies in the handler of at most one finally. -/
theorem finally_of_contains (wellFormed : regions.WellFormed)
    (disjoint : groupsAreDisjoint regions.catches regions.finallies = true)
    {first second : Nat} {left right : FinallyClause}
    (atFirst : regions.finallies[first]? = some left)
    (atSecond : regions.finallies[second]? = some right) {offset : Offset}
    (inLeft : left.handler.contains offset = true)
    (inRight : right.handler.contains offset = true) : first = second := by
  have innermost := innermost?_of_finally wellFormed disjoint atFirst inLeft
  rw [innermost?_of_finally wellFormed disjoint atSecond inRight] at innermost
  exact (congrArg Region.position (Option.some.inj innermost)).symm

/-- An exception raised in a finally leaves the method. -/
theorem exceptionTarget?_of_finally (wellFormed : regions.WellFormed)
    (disjoint : groupsAreDisjoint regions.catches regions.finallies = true)
    {position : Nat} {clause : FinallyClause} (found : regions.finallies[position]? = some clause)
    {offset : Offset} (inside : clause.handler.contains offset = true) :
    regions.exceptionTarget? offset = none := by
  unfold exceptionTarget?
  rw [innermost?_of_finally wellFormed disjoint found inside]
  rfl

theorem isHandlerOffset_of_finally (wellFormed : regions.WellFormed)
    (disjoint : groupsAreDisjoint regions.catches regions.finallies = true)
    {position : Nat} {clause : FinallyClause} (found : regions.finallies[position]? = some clause)
    {offset : Offset} (inside : clause.handler.contains offset = true) :
    regions.isHandlerOffset offset = true := by
  unfold isHandlerOffset kindAt?
  rw [innermost?_of_finally wellFormed disjoint found inside]
  rfl

end Regions

end BytecodeFlow

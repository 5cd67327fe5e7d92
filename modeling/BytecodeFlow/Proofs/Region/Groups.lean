/-
This file looks at the groups of catch clauses in the order in which they are
tried. The clauses of a group stand next to each other in the table, by the
starts of their handlers (`CatchClause.notAfter`), so the clause that follows
one in its group is the one that follows it in the table, if that is of the
group at all (`CatchClause.next?`). If handlers of a group do not overlap
(`HandlerEntry.ClearOf`), no two handlers of a table start at one offset.
-/

import BytecodeFlow.Proofs.Region.Targets

namespace BytecodeFlow

/-! ### Handlers of one group -/

/-- If two table entries are catches that guard the same range, their handlers are disjoint. -/
def HandlerEntry.ClearOf (first second : HandlerEntry) : Prop :=
  ∀ left ∈ first.catchClause?, ∀ right ∈ second.catchClause?, left.guarded = right.guarded →
    left.handler.overlaps right.handler = false

instance (first second : HandlerEntry) : Decidable (first.ClearOf second) :=
  inferInstanceAs (Decidable (∀ left ∈ first.catchClause?, ∀ right ∈ second.catchClause?, _ → _))

namespace Regions

/-- No handler of a catch starts where another handler of the `Regions` does. -/
structure StartsApart (regions : Regions) : Prop where
  catches : regions.catches.Pairwise fun first second => first.handler.start ≠ second.handler.start
  finallies : ∀ clause ∈ regions.catches, ∀ around ∈ regions.finallies,
    clause.handler.start ≠ around.handler.start

variable {entries : List HandlerEntry} {instructions : List Instruction}

theorem startsApart_analyze (wellFormed : ∀ entry ∈ entries, entry.WellFormed)
    (clear : entries.Pairwise HandlerEntry.ClearOf)
    (valid : (analyze entries instructions).valid = true) :
    (analyze entries instructions).StartsApart := by
  have ordered := wellFormed_analyze wellFormed instructions
  have disjoint := groupsAreDisjoint_of_valid valid
  refine ⟨?_, fun clause listed around aroundListed =>
    catch_start_ne_finally_start ordered disjoint listed aroundListed⟩
  have read : (entries.filterMap HandlerEntry.catchClause?).Pairwise
      fun first second => first.handler.start ≠ second.handler.start := by
    refine List.pairwise_filterMap.mpr (clear.imp_of_mem ?_)
    intro first second firstMember secondMember apart left leftRead right rightRead same
    have leftListed : left ∈ (analyze entries instructions).catches :=
      mem_catches_analyze.mpr ⟨first, firstMember, leftRead⟩
    have rightListed : right ∈ (analyze entries instructions).catches :=
      mem_catches_analyze.mpr ⟨second, secondMember, rightRead⟩
    have separate := apart left leftRead right rightRead
      (guarded_eq_of_handler_start ordered disjoint leftListed rightListed same)
    rw [← Bool.not_eq_true, Span.overlaps_iff] at separate
    have leftOrder := ordered.catches left leftListed
    have rightOrder := ordered.catches right rightListed
    rw [UInt32.toNat_inj.symm] at same
    omega
  have symmetric : ∀ {first second : CatchClause}, first.handler.start ≠ second.handler.start →
      second.handler.start ≠ first.handler.start := Ne.symm
  exact ((List.mergeSort_perm _ CatchClause.notAfter).pairwise_iff symmetric).mpr read

/-- Where `StartsApart` holds, the start of the handler of a catch tells where the clause stands. -/
theorem StartsApart.suffix_unique {regions : Regions} (apart : regions.StartsApart)
    {first second : CatchClause} {firstRest secondRest : List CatchClause}
    (firstSuffix : first :: firstRest <:+ regions.catches)
    (secondSuffix : second :: secondRest <:+ regions.catches)
    (same : first.handler.start = second.handler.start) :
    first = second ∧ firstRest = secondRest := by
  have inside : ∀ {clause other : CatchClause} {rest tail : List CatchClause},
      clause :: rest <:+ regions.catches → other :: tail <:+ rest →
      clause.handler.start ≠ other.handler.start := by
    intro clause other rest tail suffix further
    have distinct := apart.catches.sublist suffix.sublist
    exact (List.pairwise_cons.mp distinct).1 other (further.subset List.mem_cons_self)
  rcases List.suffix_or_suffix_of_suffix firstSuffix secondSuffix with shorter | shorter
  · rcases List.suffix_cons_iff.mp shorter with equal | within
    · exact List.cons.inj equal
    · exact absurd same.symm (inside secondSuffix within)
  · rcases List.suffix_cons_iff.mp shorter with equal | within
    · obtain ⟨sameClause, sameRest⟩ := List.cons.inj equal
      exact ⟨sameClause.symm, sameRest.symm⟩
    · exact absurd same (inside firstSuffix within)

end Regions

/-! ### The order of the clauses -/

theorem CatchClause.notAfter_iff {left right : CatchClause} :
    left.notAfter right = true ↔
      left.guarded.start.toNat < right.guarded.start.toNat ∨
        left.guarded.start.toNat = right.guarded.start.toNat ∧
          (left.guarded.stop.toNat < right.guarded.stop.toNat ∨
            left.guarded.stop.toNat = right.guarded.stop.toNat ∧
              left.handler.start.toNat ≤ right.handler.start.toNat) := by
  unfold CatchClause.notAfter
  split
  · rename_i sameStart
    rw [sameStart]
    split
    · rename_i sameStop
      rw [sameStop]
      simp [UInt32.le_iff_toNat_le]
    · rename_i otherStop
      rw [← UInt32.toNat_inj] at otherStop
      simp [UInt32.lt_iff_toNat_lt, otherStop]
  · rename_i otherStart
    rw [← UInt32.toNat_inj] at otherStart
    simp [UInt32.lt_iff_toNat_lt, otherStart]

theorem Span.eq_iff {left right : Span} :
    left = right ↔
      left.start.toNat = right.start.toNat ∧ left.stop.toNat = right.stop.toNat := by
  obtain ⟨leftStart, leftStop⟩ := left
  obtain ⟨rightStart, rightStop⟩ := right
  rw [Span.mk.injEq, UInt32.toNat_inj, UInt32.toNat_inj]

theorem Regions.pairwise_mergeSort_notAfter (read : List CatchClause) :
    (read.mergeSort CatchClause.notAfter).Pairwise
      fun first second => first.notAfter second = true := by
  refine List.pairwise_mergeSort ?_ ?_ _
  · intro first second third former latter
    rw [CatchClause.notAfter_iff] at former latter ⊢
    omega
  · intro first second
    rw [Bool.or_eq_true, CatchClause.notAfter_iff, CatchClause.notAfter_iff]
    omega

theorem Regions.sorted_analyze (entries : List HandlerEntry) (instructions : List Instruction) :
    (Regions.analyze entries instructions).catches.Pairwise
      fun first second => first.notAfter second = true :=
  pairwise_mergeSort_notAfter _

/-- The catch clauses of a table are those of its entries in the one order in which they are
sorted, if no two of them are tied. -/
theorem Regions.mergeSort_notAfter {read sorted : List CatchClause} (perm : read.Perm sorted)
    (ordered : sorted.Pairwise fun first second => first.notAfter second = true)
    (untied : ∀ first ∈ sorted, ∀ second ∈ sorted, first.notAfter second = true →
      second.notAfter first = true → first = second) :
    read.mergeSort CatchClause.notAfter = sorted := by
  have same : (read.mergeSort CatchClause.notAfter).Perm sorted :=
    (List.mergeSort_perm ..).trans perm
  refine same.eq_of_pairwise (fun first second listed => ?_) (pairwise_mergeSort_notAfter read)
    ordered
  exact untied first (same.mem_iff.mp listed) second

/-- The clause that is tried after the first of a list, if it is of the same group. -/
def CatchClause.next? (clause : CatchClause) (rest : List CatchClause) : Option CatchClause :=
  rest.head?.filter fun next => next.guarded == clause.guarded

section Sorted

variable {catches : List CatchClause}

/-- Between two clauses of a `catchGroup` there are only clauses of the group. -/
theorem next?_eq_head?_filter {clause : CatchClause} {rest : List CatchClause}
    (sorted : (clause :: rest).Pairwise fun first second => first.notAfter second = true) :
    clause.next? rest = (rest.filter fun other => other.guarded = clause.guarded).head? := by
  cases rest with
  | nil => rfl
  | cons next rest =>
    obtain ⟨before, later⟩ := List.pairwise_cons.mp sorted
    by_cases grouped : next.guarded = clause.guarded
    · simp [CatchClause.next?, grouped]
    · have none : ∀ other ∈ rest, other.guarded ≠ clause.guarded := by
        intro other member same
        have first := before next List.mem_cons_self
        have second := (List.pairwise_cons.mp later).1 other member
        rw [CatchClause.notAfter_iff] at first second
        rw [Span.eq_iff] at grouped same
        omega
      have nothing : (rest.filter fun other => other.guarded = clause.guarded) = [] :=
        List.filter_eq_nil_iff.mpr fun other member => by simpa using none other member
      simp [CatchClause.next?, grouped, nothing]

/-- A clause of a group stands in the table, and the one that follows it there is the next one of
the group if it is of the group. -/
theorem suffix_of_catchGroup
    (sorted : catches.Pairwise fun first second => first.notAfter second = true)
    {guarded : Span} {position : Nat} {clause : CatchClause}
    (found : (catchGroup catches guarded)[position]? = some clause) :
    ∃ rest, clause :: rest <:+ catches ∧ clause.guarded = guarded ∧
      (catchGroup catches guarded)[position + 1]? = clause.next? rest := by
  induction catches generalizing position with
  | nil => cases found
  | cons first later inductionHypothesis =>
    have laterSorted := (List.pairwise_cons.mp sorted).2
    unfold catchGroup at found ⊢ inductionHypothesis
    by_cases grouped : first.guarded = guarded
    · rw [List.filter_cons_of_pos (by simpa using grouped)] at found ⊢
      cases position with
      | zero =>
        cases found
        subst grouped
        refine ⟨later, List.suffix_refl _, rfl, ?_⟩
        rw [next?_eq_head?_filter sorted, List.getElem?_cons_succ, List.head?_eq_getElem?]
      | succ position =>
        obtain ⟨rest, suffix, same, next⟩ := inductionHypothesis laterSorted found
        exact ⟨rest, suffix.trans (List.suffix_cons ..), same, next⟩
    · rw [List.filter_cons_of_neg (by simpa using grouped)] at found ⊢
      obtain ⟨rest, suffix, same, next⟩ := inductionHypothesis laterSorted found
      exact ⟨rest, suffix.trans (List.suffix_cons ..), same, next⟩

end Sorted

/-- The handlers of a group are tried in the order in which they start. -/
theorem Regions.StartsApart.catchGroup_increasing {regions : Regions} (apart : regions.StartsApart)
    (sorted : regions.catches.Pairwise fun first second => first.notAfter second = true)
    (guarded : Span) :
    (catchGroup regions.catches guarded).Pairwise
      fun first second => first.handler.start < second.handler.start := by
  have both := List.Pairwise.and sorted apart.catches
  refine (both.sublist List.filter_sublist).imp_of_mem ?_
  intro first second firstMember secondMember ⟨order, different⟩
  have firstGuarded : first.guarded = guarded := by
    simpa using (List.mem_filter.mp firstMember).2
  have secondGuarded : second.guarded = guarded := by
    simpa using (List.mem_filter.mp secondMember).2
  rw [CatchClause.notAfter_iff, firstGuarded, secondGuarded] at order
  rw [ne_eq, ← UInt32.toNat_inj] at different
  rw [UInt32.lt_iff_toNat_lt]
  omega

end BytecodeFlow

/-
This file proves that books may be kept in parts: merging the `Ledger` of some
events into another one gives what recording these events there would have
given. It also says what one more entry does to the `sum` of a `Tally`.
-/

import Mathlib.Algebra.GroupWithZero.Nat
import Mathlib.Data.List.Nodup
import BytecodeFlow.Journal.Ledger

namespace BytecodeFlow

namespace Tally

theorem getElem?_add (tally : Tally) (name other : String) (count : Nat) :
    (tally.add name count)[other]? =
      if name = other then Option.merge (· + ·) tally[other]? (some count) else tally[other]? := by
  rw [add, Std.ExtTreeMap.getElem?_insert, Std.ExtTreeMap.getD_eq_getD_getElem?]
  simp only [Std.LawfulEqCmp.compare_eq_iff_eq]
  by_cases same : name = other
  · subst same
    cases tally[name]? <;> simp
  · simp only [same, if_false]

/-- Adding entries with different names adds to each name what is there for it. -/
theorem getElem?_foldl_add {entries : List (String × Nat)} {name : String} {count? : Option Nat}
    (distinct : (entries.map Prod.fst).Nodup)
    (there : ∀ count, (name, count) ∈ entries ↔ count? = some count) (tally : Tally) :
    (entries.foldl (fun tally entry => tally.add entry.1 entry.2) tally)[name]? =
      Option.merge (· + ·) tally[name]? count? := by
  induction entries generalizing tally count? with
  | nil =>
    have absent : count? = none :=
      Option.eq_none_iff_forall_ne_some.mpr fun count found => nomatch (there count).mpr found
    rw [absent, Option.merge_none_right]
    rfl
  | cons entry rest inductionHypothesis =>
    obtain ⟨first, firstCount⟩ := entry
    obtain ⟨new, distinctRest⟩ := List.nodup_cons.mp distinct
    rw [List.foldl_cons]
    by_cases same : first = name
    · subst same
      have absent : ∀ count, (first, count) ∈ rest ↔ none = some count := by
        intro count
        refine iff_of_false (fun listed => new ?_) (Option.some_ne_none count).symm
        exact List.mem_map.mpr ⟨_, listed, rfl⟩
      have found : count? = some firstCount := (there firstCount).mp List.mem_cons_self
      rw [inductionHypothesis distinctRest absent, Option.merge_none_right, getElem?_add,
        if_pos rfl, found]
    · have later : ∀ count, (name, count) ∈ rest ↔ count? = some count := by
        intro count
        rw [← there count, List.mem_cons, Prod.mk.injEq]
        exact ⟨.inr, fun either => either.resolve_left fun both => same both.1.symm⟩
      rw [inductionHypothesis distinctRest later, getElem?_add, if_neg same]

theorem nodup_names (tally : Tally) : (tally.toList.map Prod.fst).Nodup := by
  rw [Std.ExtTreeMap.map_fst_toList_eq_keys]
  exact Std.ExtTreeMap.nodup_keys

/-- In a tally that is made by `Tally.merge` the counts of both sides are added up, name by name. -/
theorem getElem?_merge (left right : Tally) (name : String) :
    (left.merge right)[name]? = Option.merge (· + ·) left[name]? right[name]? := by
  refine getElem?_foldl_add right.nodup_names (fun count => ?_) left
  exact Std.ExtTreeMap.mem_toList_iff_getElem?_eq_some

theorem merge_add (left right : Tally) (name : String) (count : Nat) :
    left.merge (right.add name count) = (left.merge right).add name count := by
  refine Std.ExtTreeMap.ext_getElem? fun other => ?_
  rw [getElem?_merge, getElem?_add, getElem?_add, getElem?_merge]
  split
  · exact (Std.Associative.assoc ..).symm
  · rfl

theorem merge_empty (tally : Tally) : tally.merge ∅ = tally := rfl

/-! ### Sums -/

theorem sum_eq (tally : Tally) : tally.sum = (tally.toList.map Prod.snd).sum := by
  rw [sum, Std.ExtTreeMap.foldl_eq_foldl_toList, List.sum_eq_foldl_nat, List.foldl_map]

/-- An entry contributes its count, and the others do not depend on it. -/
theorem sum_eq_add_erase {tally : Tally} {name : String} {count : Nat}
    (found : tally[name]? = some count) : tally.sum = count + sum (tally.erase name) := by
  have perm : tally.toList.Perm ((name, count) :: (tally.erase name).toList) := by
    refine (List.perm_ext_iff_of_nodup (tally.nodup_names.of_map _) ?_).mpr fun entry => ?_
    · refine List.nodup_cons.mpr ⟨fun listed => ?_, (nodup_names _).of_map _⟩
      rw [Std.ExtTreeMap.mem_toList_iff_getElem?_eq_some, Std.ExtTreeMap.getElem?_erase_self]
        at listed
      cases listed
    · obtain ⟨other, otherCount⟩ := entry
      rw [List.mem_cons, Std.ExtTreeMap.mem_toList_iff_getElem?_eq_some,
        Std.ExtTreeMap.mem_toList_iff_getElem?_eq_some, Std.ExtTreeMap.getElem?_erase]
      simp only [Std.LawfulEqCmp.compare_eq_iff_eq, Prod.mk.injEq]
      by_cases same : name = other
      · subst same
        simp [found, eq_comm]
      · simp [same, Ne.symm same]
  rw [sum_eq, sum_eq, (perm.map Prod.snd).sum_nat, List.map_cons, List.sum_cons]

theorem sum_insert (tally : Tally) (name : String) (count : Nat) :
    sum (tally.insert name count) + tally.getD name 0 = tally.sum + count := by
  have others : (tally.insert name count).erase name = tally.erase name := by
    refine Std.ExtTreeMap.ext_getElem? fun other => ?_
    rw [Std.ExtTreeMap.getElem?_erase, Std.ExtTreeMap.getElem?_erase,
      Std.ExtTreeMap.getElem?_insert]
    split <;> rfl
  have after : sum (tally.insert name count) = count + sum (tally.erase name) := by
    rw [sum_eq_add_erase Std.ExtTreeMap.getElem?_insert_self, others]
  rw [after, Std.ExtTreeMap.getD_eq_getD_getElem?]
  cases found : tally[name]? with
  | none =>
    have absent : tally.erase name = tally := by
      refine Std.ExtTreeMap.ext_getElem? fun other => ?_
      rw [Std.ExtTreeMap.getElem?_erase]
      split
      next same => rw [← Std.LawfulEqCmp.compare_eq_iff_eq.mp same, found]
      · rfl
    rw [absent, Option.getD_none]
    omega
  | some former =>
    rw [sum_eq_add_erase found, Option.getD_some]
    omega

theorem sum_add (tally : Tally) (name : String) (count : Nat) :
    sum (tally.add name count) = tally.sum + count := by
  have inserted := tally.sum_insert name (tally.getD name 0 + count)
  unfold add
  omega

end Tally

namespace Ledger

/-- Something that is recorded in the later ledger could as well be recorded after merging. -/
theorem merge_record (earlier later : Ledger) (event : Event) :
    earlier.merge (later.record event) = (earlier.merge later).record event := by
  cases event with
  | complete instructions => simp only [merge, record, Nat.add_assoc]
  | unfinished method instructions remaining =>
    have inserted : earlier.unfinished ∪ later.unfinished.insert method remaining =
        (earlier.unfinished ∪ later.unfinished).insert method remaining :=
      @Std.ExtTreeMap.union_insert_right_eq_insert_union _ _ _ _ _ _ ⟨method, remaining⟩
    simp only [merge, record, Nat.add_assoc, inserted]
  | unknownInstruction mnemonic => simp only [merge, record, Tally.merge_add]
  | timedOut count => simp only [merge, record, Nat.add_assoc]
  | skippedDuplicates count => simp only [merge, record, Nat.add_assoc]
  | skippedWithoutLines count => simp only [merge, record, Nat.add_assoc]

theorem merge_empty (ledger : Ledger) : ledger.merge empty = ledger := by
  have unfinished : ledger.unfinished ∪ ∅ = ledger.unfinished := by
    refine Std.ExtTreeMap.ext_getElem? fun name => ?_
    rw [Std.ExtTreeMap.getElem?_union, Std.ExtTreeMap.getElem?_empty, Option.none_or]
  simp only [merge, empty, unfinished, Tally.merge_empty, Nat.add_zero]

/-- `Ledger.merge` with the ledger of some events is the same as recording them. -/
theorem merge_ofEvents (ledger : Ledger) (events : List Event) :
    ledger.merge (ofEvents events) = events.foldl record ledger := by
  have general : ∀ later : Ledger,
      ledger.merge (events.foldl record later) = events.foldl record (ledger.merge later) := by
    induction events with
    | nil => exact fun later => rfl
    | cons event rest inductionHypothesis =>
      intro later
      rw [List.foldl_cons, inductionHypothesis, merge_record, List.foldl_cons]
  rw [ofEvents, general, merge_empty]

end Ledger

end BytecodeFlow

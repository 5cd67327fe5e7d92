/-
This file proves that merging ledgers is the same as keeping one. A `Ledger`
may be put together from events and from other ledgers, which are put together
in the same way, to any depth (`ofEntries`). All that counts are the events, in
the order in which they stand there; it does not matter how they are spread
over ledgers.
-/

import BytecodeFlow.Proofs.Journal.Merging

namespace BytecodeFlow

/-- What is done to a ledger: an event is recorded, or a ledger that was put together by itself is
merged in. -/
inductive Entry where
  | record (event : Event)
  | merge (entries : List Entry)

namespace Entry

mutual

/-- The events of an entry, in the order in which they stand there. -/
def events : Entry → List Event
  | .record event => [event]
  | .merge entries => eventsOf entries

/-- The `events` of a sequence of entries, with all nesting dropped. -/
def eventsOf : List Entry → List Event
  | [] => []
  | entry :: rest => entry.events ++ eventsOf rest

end

theorem eventsOf_append (first second : List Entry) :
    eventsOf (first ++ second) = eventsOf first ++ eventsOf second := by
  induction first with
  | nil => rfl
  | cons entry rest inductionHypothesis =>
    rw [List.cons_append, eventsOf, inductionHypothesis, eventsOf, List.append_assoc]

end Entry

namespace Tally

theorem merge_assoc (first second third : Tally) :
    (first.merge second).merge third = first.merge (second.merge third) := by
  refine Std.ExtTreeMap.ext_getElem? fun name => ?_
  rw [getElem?_merge, getElem?_merge, getElem?_merge, getElem?_merge]
  exact Std.Associative.assoc ..

theorem empty_merge (tally : Tally) : (∅ : Tally).merge tally = tally := by
  refine Std.ExtTreeMap.ext_getElem? fun name => ?_
  rw [getElem?_merge, Std.ExtTreeMap.getElem?_empty, Option.merge_none_left]

end Tally

namespace Ledger

mutual

/-- Do one `Entry` to a ledger. -/
def enter (ledger : Ledger) : Entry → Ledger
  | .record event => ledger.record event
  | .merge entries => ledger.merge (empty.enterAll entries)

/-- `enter` a sequence of entries into a ledger, one after the other. -/
def enterAll (ledger : Ledger) : List Entry → Ledger
  | [] => ledger
  | entry :: rest => (ledger.enter entry).enterAll rest

end

/-- The ledger that `enterAll` makes of the empty one. -/
def ofEntries (entries : List Entry) : Ledger := empty.enterAll entries

/-! ### Nesting -/

mutual

/-- An `Entry` does what its `events` do. -/
theorem enter_eq_foldl (ledger : Ledger) : ∀ entry : Entry,
    ledger.enter entry = entry.events.foldl record ledger
  | .record event => rfl
  | .merge entries => by
    rw [enter, enterAll_eq_foldl empty entries, Entry.events]
    exact merge_ofEvents ledger (Entry.eventsOf entries)

theorem enterAll_eq_foldl (ledger : Ledger) : ∀ entries : List Entry,
    ledger.enterAll entries = (Entry.eventsOf entries).foldl record ledger
  | [] => rfl
  | entry :: rest => by
    rw [enterAll, enter_eq_foldl ledger entry, enterAll_eq_foldl _ rest, Entry.eventsOf,
      List.foldl_append]

end

theorem ofEntries_eq_ofEvents (entries : List Entry) :
    ofEntries entries = ofEvents (Entry.eventsOf entries) :=
  enterAll_eq_foldl empty entries

theorem ofEntries_append (first second : List Entry) :
    ofEntries (first ++ second) = (ofEntries first).merge (ofEntries second) := by
  rw [ofEntries_eq_ofEvents second, merge_ofEvents, ofEntries_eq_ofEvents, Entry.eventsOf_append,
    ofEvents, List.foldl_append, ofEntries_eq_ofEvents, ofEvents]

/-! ### Laws of merging -/

/-- Of two ledgers in which a method is unfinished, the later one is right. -/
theorem getElem?_unfinished_merge (earlier later : Ledger) (method : String) :
    (earlier.merge later).unfinished[method]? =
      later.unfinished[method]?.or earlier.unfinished[method]? :=
  Std.ExtTreeMap.getElem?_union

/-- The counts of an instruction that both ledgers have are added up. -/
theorem getElem?_unknownInstructions_merge (earlier later : Ledger) (mnemonic : String) :
    (earlier.merge later).unknownInstructions[mnemonic]? =
      Option.merge (· + ·) earlier.unknownInstructions[mnemonic]?
        later.unknownInstructions[mnemonic]? :=
  Tally.getElem?_merge ..

theorem merge_assoc (first second third : Ledger) :
    (first.merge second).merge third = first.merge (second.merge third) := by
  have unfinished : (first.unfinished ∪ second.unfinished) ∪ third.unfinished =
      first.unfinished ∪ (second.unfinished ∪ third.unfinished) := by
    refine Std.ExtTreeMap.ext_getElem? fun method => ?_
    simp only [Std.ExtTreeMap.getElem?_union, Option.or_assoc]
  simp only [merge, unfinished, Tally.merge_assoc, Nat.add_assoc]

theorem empty_merge (ledger : Ledger) : empty.merge ledger = ledger := by
  have unfinished : ∅ ∪ ledger.unfinished = ledger.unfinished := by
    refine Std.ExtTreeMap.ext_getElem? fun method => ?_
    rw [Std.ExtTreeMap.getElem?_union, Std.ExtTreeMap.getElem?_empty, Option.or_none]
  simp only [merge, empty, unfinished, Tally.empty_merge, Nat.zero_add]

/-- The `Ledger` of two sequences of entries, one after the other, is the ledger of the first with
that of the second merged in, and methods and mnemonics that both have are no exception.
`Ledger.merge` is associative, and the empty ledger is neutral. Nesting is of no account: the ledger
that `ofEntries` gives, and with it the `coverage`, is that of the events in it
(`Entry.eventsOf`). -/
theorem merging_replays :
    (∀ first second : List Entry,
      ofEntries (first ++ second) = (ofEntries first).merge (ofEntries second) ∧
        (∀ method : String, (ofEntries (first ++ second)).unfinished[method]? =
          (ofEntries second).unfinished[method]?.or (ofEntries first).unfinished[method]?) ∧
        ∀ mnemonic : String, (ofEntries (first ++ second)).unknownInstructions[mnemonic]? =
          Option.merge (· + ·) (ofEntries first).unknownInstructions[mnemonic]?
            (ofEntries second).unknownInstructions[mnemonic]?) ∧
      (∀ first second third : Ledger,
        (first.merge second).merge third = first.merge (second.merge third)) ∧
      (∀ ledger : Ledger, empty.merge ledger = ledger ∧ ledger.merge empty = ledger) ∧
      ∀ entries : List Entry,
        ofEntries ((Entry.eventsOf entries).map .record) = ofEntries entries ∧
          (ofEntries ((Entry.eventsOf entries).map .record)).coverage =
            (ofEntries entries).coverage := by
  have flat : ∀ events : List Event, Entry.eventsOf (events.map .record) = events := by
    intro events
    induction events with
    | nil => rfl
    | cons event rest inductionHypothesis =>
      exact congrArg (event :: ·) inductionHypothesis
  have flattened : ∀ entries : List Entry,
      ofEntries ((Entry.eventsOf entries).map .record) = ofEntries entries := by
    intro entries
    rw [ofEntries_eq_ofEvents, flat, ofEntries_eq_ofEvents]
  refine ⟨fun first second => ?_, merge_assoc,
    fun ledger => ⟨empty_merge ledger, merge_empty ledger⟩,
    fun entries => ⟨flattened entries, congrArg coverage (flattened entries)⟩⟩
  rw [ofEntries_append]
  exact ⟨rfl, getElem?_unfinished_merge _ _, getElem?_unknownInstructions_merge _ _⟩

end Ledger

end BytecodeFlow

/-
This file says what building the entries of handlers does to a walk
(`Equipped`). Nodes that are there stay as they are; what is added are the
entries themselves, the two ways out of a catch entry, and a waiting path into
each handler for which an entry was built (`HandlerStart`). All else in the
walk is left alone.
-/

import BytecodeFlow.Proofs.Graph.Growth
import BytecodeFlow.Proofs.Region.Targets
import BytecodeFlow.Walk.Handler

namespace BytecodeFlow

/-- A node that belongs to the entry of a handler: the entry itself, or a way out of a catch
entry. -/
def Procedure.HandlerMade (procedure : Procedure) (index : NodeIndex) : Prop :=
  procedure.kind? index = some .handler ∨
    ∃ branch kind entry, procedure.kind? index = some (.prune branch kind) ∧
      procedure.kind? entry = some .handler ∧ index ∈ procedure.successorsOf entry

theorem Procedure.HandlerMade.mono {first second : Procedure} {index : NodeIndex}
    (made : first.HandlerMade index) (extended : first.Extends second) :
    second.HandlerMade index := by
  rcases made with handler | ⟨branch, kind, entry, prune, handler, edge⟩
  · exact .inl ((extended.kind? (lt_size_of_kind? handler)).trans handler)
  · exact .inr ⟨branch, kind, entry, (extended.kind? (lt_size_of_kind? prune)).trans prune,
      (extended.kind? (lt_size_of_kind? handler)).trans handler,
      (extended.successorsOf entry).subset edge⟩

namespace Walk

/-! ### The parts of a catch entry -/

/-- Where the exceptions go that a clause does not catch: to the next clause of the group, to the
finally around it, or out of the method. -/
def passOn (walk : Walk) (routine : Routine) (clause : CatchClause) (rest : List CatchClause) :
    Walk × NodeIndex :=
  if rest.head?.any fun next => next.guarded == clause.guarded then catchEntry routine rest walk
  else
    match wrappingFinally? routine.regions.catches routine.regions.finallies clause with
    | some position => walk.finallyEntry routine position
    | none => (walk, Procedure.sink)

/-- Let the finally that `wrappingFinally?` finds around a clause, if there is one, handle the
exceptions of its entry. -/
def guardCatch (walk : Walk) (routine : Routine) (clause : CatchClause) (entry : NodeIndex) :
    Walk :=
  match wrappingFinally? routine.regions.catches routine.regions.finallies clause with
  | some position =>
    (walk.finallyEntry routine position).1.guardCatchNodes entry
      (walk.finallyEntry routine position).2
  | none => walk

/-- The path into the handler of a catch clause. -/
def catchStart (clause : CatchClause) (entry : NodeIndex) (unwrapped : Ident) (nextStamp : Nat) :
    Pending :=
  { offset := clause.handler.start
    previous := entry + 1
    stack := [⟨.var unwrapped, .ofName clause.catchType⟩]
    nextStamp
    continuation := .newBlock
    finallyExit := none }

theorem catchEntry_known {routine : Routine} {walk : Walk} {clause : CatchClause}
    {entry : NodeIndex} (rest : List CatchClause)
    (known : walk.entries[clause.handler.start]? = some entry) :
    catchEntry routine (clause :: rest) walk = (walk, entry) := by
  rw [catchEntry, known]

/-- An entry that is not there yet is built from `passOn` and `guardCatch`. -/
theorem catchEntry_fresh {routine : Routine} {walk : Walk} {clause : CatchClause}
    (rest : List CatchClause) (fresh : walk.entries[clause.handler.start]? = none) :
    catchEntry routine (clause :: rest) walk =
      let entry := walk.procedure.nextIndex
      let (passed, onward) := (walk.addCatchNodes routine clause).passOn routine clause rest
      let guarded := guardCatch { passed with
        procedure := passed.procedure.link (entry + 2) onward } routine clause entry
      (guarded.queue (catchStart clause entry ⟨walk.nextStamp + 1⟩ guarded.nextStamp), entry) := by
  rw [catchEntry, fresh]
  unfold passOn guardCatch
  cases wrappingFinally? routine.regions.catches routine.regions.finallies clause <;>
    cases rest.head?.any fun next => next.guarded == clause.guarded <;> rfl

/-! ### What waits -/

/-- The entry of a finally clause begins with `takeException`, which takes an exception out of the
return slot. -/
def FinallyEntered (walk : Walk) (clause : FinallyClause) (entry : NodeIndex)
    (exception : Ident) : Prop :=
  walk.entries[clause.handler.start]? = some entry ∧
    walk.procedure.kind? entry = some .handler ∧
    ∃ location, takeException exception location <+: walk.procedure.commandsOf entry

/-- A waiting path that leads from the entry of a handler into it: the `catchStart` of a clause, or
a path after the entry of a finally. -/
inductive HandlerStart (routine : Routine) (walk : Walk) : Pending → Prop
  | intoCatch (clause : CatchClause) (entry : NodeIndex) (unwrapped : Ident) (nextStamp : Nat)
    (listed : clause ∈ routine.regions.catches)
    (entered : walk.entries[clause.handler.start]? = some entry) :
    HandlerStart routine walk (catchStart clause entry unwrapped nextStamp)
  | intoFinally (clause : FinallyClause) (entry : NodeIndex) (exception : Ident) (nextStamp : Nat)
    (listed : clause ∈ routine.regions.finallies)
    (entered : walk.FinallyEntered clause entry exception) :
    HandlerStart routine walk {
      offset := clause.handler.start
      previous := entry
      stack := []
      nextStamp
      continuation := .newBlock
      finallyExit := some (.rethrow exception) }

/-- A walk keeps the entries of another, and the nodes of its graph by `Procedure.Extends`. -/
structure Outgrows (later earlier : Walk) : Prop where
  extended : earlier.procedure.Extends later.procedure
  entriesKept : ∀ (offset : Offset) (entry : NodeIndex), earlier.entries[offset]? = some entry →
    later.entries[offset]? = some entry

theorem FinallyEntered.mono {earlier later : Walk} {clause : FinallyClause} {entry : NodeIndex}
    {exception : Ident} (entered : earlier.FinallyEntered clause entry exception)
    (outgrows : later.Outgrows earlier) : later.FinallyEntered clause entry exception := by
  obtain ⟨known, handler, location, taken⟩ := entered
  refine ⟨outgrows.entriesKept _ _ known, ?_, location, ?_⟩
  · exact (outgrows.extended.kind? (Procedure.lt_size_of_kind? handler)).trans handler
  · exact taken.trans (outgrows.extended.commandsOf entry)

theorem HandlerStart.mono {routine : Routine} {earlier later : Walk} {pending : Pending}
    (start : HandlerStart routine earlier pending) (outgrows : later.Outgrows earlier) :
    HandlerStart routine later pending := by
  cases start with
  | intoCatch clause entry unwrapped nextStamp listed entered =>
    exact .intoCatch clause entry unwrapped nextStamp listed (outgrows.entriesKept _ _ entered)
  | intoFinally clause entry exception nextStamp listed entered =>
    exact .intoFinally clause entry exception nextStamp listed (entered.mono outgrows)

/-! ### What building entries does -/

/-- Different handlers have different entries. -/
structure EntriesApart (walk : Walk) : Prop where
  kinds : ∀ (offset : Offset) (entry : NodeIndex), walk.entries[offset]? = some entry →
    walk.procedure.kind? entry = some .handler
  apart : ∀ (first second : Offset) (entry : NodeIndex), walk.entries[first]? = some entry →
    walk.entries[second]? = some entry → first = second

/-- A walk stems from another by building entries of handlers: all nodes that are new are
`HandlerMade`. -/
structure Equipped (routine : Routine) (base walk : Walk) : Prop where
  rest : ∃ procedure worklist entries nextStamp fault,
    walk = { base with procedure, worklist, entries, nextStamp, fault }
  outgrows : walk.Outgrows base
  kept : ∀ index < base.procedure.size,
    walk.procedure.node? index = base.procedure.node? index
  made : ∀ index, base.procedure.size ≤ index → index < walk.procedure.size →
    walk.procedure.HandlerMade index
  apart : base.EntriesApart → walk.EntriesApart
  queued : ∃ pushed, walk.worklist = pushed ++ base.worklist ∧
    ∀ pending ∈ pushed, HandlerStart routine walk pending

theorem Outgrows.refl (walk : Walk) : walk.Outgrows walk := ⟨.refl _, fun _ _ found => found⟩

theorem Outgrows.trans {first second third : Walk} (former : second.Outgrows first)
    (latter : third.Outgrows second) : third.Outgrows first where
  extended := former.extended.trans latter.extended
  entriesKept offset entry found := latter.entriesKept _ _ (former.entriesKept offset entry found)

/-- `EntriesApart` holds on when the graph grows and the entries are not changed. -/
theorem EntriesApart.mono {walk other : Walk} (apart : walk.EntriesApart)
    (same : other.entries = walk.entries)
    (extended : walk.procedure.Extends other.procedure) : other.EntriesApart where
  kinds offset entry found := by
    rw [same] at found
    have handler := apart.kinds offset entry found
    exact (extended.kind? (Procedure.lt_size_of_kind? handler)).trans handler
  apart := by
    rw [same]
    exact apart.apart

/-- A new node may become the entry of one more handler. -/
theorem EntriesApart.insert {walk other : Walk} (apart : walk.EntriesApart) {offset : Offset}
    (entries : other.entries = walk.entries.insert offset walk.procedure.size)
    (extended : walk.procedure.Extends other.procedure)
    (handler : other.procedure.kind? walk.procedure.size = some .handler) :
    other.EntriesApart := by
  have old : ∀ (offset : Offset) (entry : NodeIndex), walk.entries[offset]? = some entry →
      entry < walk.procedure.size := fun offset entry found =>
    Procedure.lt_size_of_kind? (apart.kinds offset entry found)
  constructor
  · intro place entry found
    rw [entries, Std.ExtTreeMap.getElem?_insert] at found
    split at found
    · cases found
      exact handler
    · have known := apart.kinds place entry found
      exact (extended.kind? (Procedure.lt_size_of_kind? known)).trans known
  · intro first second entry foundFirst foundSecond
    rw [entries, Std.ExtTreeMap.getElem?_insert] at foundFirst foundSecond
    split at foundFirst
    · rename_i sameFirst
      split at foundSecond
      · rename_i sameSecond
        rw [← Std.LawfulEqCmp.eq_of_compare sameFirst, ← Std.LawfulEqCmp.eq_of_compare sameSecond]
      · cases foundFirst
        exact absurd (old second _ foundSecond) (Nat.lt_irrefl _)
    · split at foundSecond
      · cases foundSecond
        exact absurd (old first _ foundFirst) (Nat.lt_irrefl _)
      · exact apart.apart first second entry foundFirst foundSecond

namespace Equipped

variable {routine : Routine} {base walk other : Walk}

theorem refl (walk : Walk) : Equipped routine walk walk where
  rest := ⟨walk.procedure, walk.worklist, walk.entries, walk.nextStamp, walk.fault, rfl⟩
  outgrows := .refl walk
  kept _ _ := rfl
  made _ old known := absurd known (Nat.not_lt_of_le old)
  apart apart := apart
  queued := ⟨[], rfl, fun _ member => absurd member List.not_mem_nil⟩

/-- What is built on top may also change the nodes that were added before. -/
theorem advance (equipped : Equipped routine base walk)
    (rest : ∃ procedure worklist entries nextStamp fault,
      other = { walk with procedure, worklist, entries, nextStamp, fault })
    (outgrows : other.Outgrows walk)
    (kept : ∀ index < base.procedure.size,
      other.procedure.node? index = walk.procedure.node? index)
    (made : ∀ index, walk.procedure.size ≤ index → index < other.procedure.size →
      other.procedure.HandlerMade index)
    (apart : walk.EntriesApart → other.EntriesApart)
    (queued : ∃ pushed, other.worklist = pushed ++ walk.worklist ∧
      ∀ pending ∈ pushed, HandlerStart routine other pending) :
    Equipped routine base other where
  rest := by
    obtain ⟨procedure, worklist, entries, nextStamp, fault, rfl⟩ := rest
    obtain ⟨_, _, _, _, _, rfl⟩ := equipped.rest
    exact ⟨procedure, worklist, entries, nextStamp, fault, rfl⟩
  outgrows := equipped.outgrows.trans outgrows
  kept index known := (kept index known).trans (equipped.kept index known)
  made := by
    intro index new known
    by_cases old : index < walk.procedure.size
    · exact (equipped.made index new old).mono outgrows.extended
    · exact made index (Nat.le_of_not_lt old) known
  apart before := apart (equipped.apart before)
  queued := by
    obtain ⟨pushed, worklist, starts⟩ := equipped.queued
    obtain ⟨more, grown, moreStarts⟩ := queued
    refine ⟨more ++ pushed, by rw [grown, worklist, List.append_assoc], ?_⟩
    intro pending member
    rcases List.mem_append.mp member with new | old
    · exact moreStarts pending new
    · exact (starts pending old).mono outgrows

theorem trans (former : Equipped routine base walk) (latter : Equipped routine walk other) :
    Equipped routine base other :=
  former.advance latter.rest latter.outgrows
    (fun index known => latter.kept index
      (Nat.lt_of_lt_of_le known former.outgrows.extended.size_le))
    latter.made latter.apart latter.queued

/-- Nodes that were added may be changed, as long as they only grow. -/
theorem modify (equipped : Equipped routine base walk) {index : NodeIndex} {change : Node → Node}
    (new : base.procedure.size ≤ index)
    (extended : walk.procedure.Extends (walk.procedure.modifyNode index change)) :
    Equipped routine base { walk with procedure := walk.procedure.modifyNode index change } := by
  refine equipped.advance ⟨_, _, _, _, _, rfl⟩ ⟨extended, fun _ _ found => found⟩ ?_ ?_ ?_
    ⟨[], rfl, fun _ member => absurd member List.not_mem_nil⟩
  · intro other known
    exact Procedure.node?_modifyNode_of_ne _ _ (Nat.ne_of_lt (Nat.lt_of_lt_of_le known new))
  · intro other old known
    rw [Procedure.size_modifyNode] at known
    exact absurd known (Nat.not_lt_of_le old)
  · exact fun apart => apart.mono rfl extended

theorem link (equipped : Equipped routine base walk) {source : NodeIndex}
    (new : base.procedure.size ≤ source) (target : NodeIndex) :
    Equipped routine base { walk with procedure := walk.procedure.link source target } :=
  equipped.modify new (Procedure.Extends.link _ source target)

theorem setException (equipped : Equipped routine base walk) {source : NodeIndex}
    (new : base.procedure.size ≤ source) (target : NodeIndex) :
    Equipped routine base { walk with procedure := walk.procedure.setException source target } :=
  equipped.modify new (Procedure.Extends.setException _ source target)

theorem fail (equipped : Equipped routine base walk) (fault : Fault) :
    Equipped routine base (walk.fail fault) :=
  equipped.advance ⟨_, _, _, _, _, rfl⟩ ⟨.refl _, fun _ _ found => found⟩ (fun _ _ => rfl)
    (fun _ old known => absurd known (Nat.not_lt_of_le old)) (fun apart => apart.mono rfl (.refl _))
    ⟨[], rfl, fun _ member => absurd member List.not_mem_nil⟩

theorem queue (equipped : Equipped routine base walk) {pending : Pending}
    (start : HandlerStart routine walk pending) :
    Equipped routine base (walk.queue pending) := by
  have outgrows : (walk.queue pending).Outgrows walk := ⟨.refl _, fun _ _ found => found⟩
  refine equipped.advance ⟨_, _, _, _, _, rfl⟩ outgrows (fun _ _ => rfl)
    (fun _ old known => absurd known (Nat.not_lt_of_le old)) (fun apart => apart.mono rfl (.refl _))
    ⟨[pending], rfl, ?_⟩
  intro other member
  rw [List.mem_singleton.mp member]
  exact start.mono outgrows

/-! ### Finally clauses -/

/-- An entry that was not there is recorded. -/
theorem entries_insert {entries : Std.ExtTreeMap Offset NodeIndex} {offset : Offset}
    (fresh : entries[offset]? = none) (new : NodeIndex) (other : Offset) (entry : NodeIndex)
    (found : entries[other]? = some entry) : (entries.insert offset new)[other]? = some entry := by
  rw [Std.ExtTreeMap.getElem?_insert]
  split
  · rename_i same
    rw [← Std.LawfulEqCmp.eq_of_compare same, fresh] at found
    cases found
  · exact found

theorem addFinallyEntry (walk : Walk) {clause : FinallyClause}
    (listed : clause ∈ routine.regions.finallies)
    (fresh : walk.entries[clause.handler.start]? = none) :
    Equipped routine walk (walk.addFinallyEntry routine clause) := by
  let entry := walk.procedure.size
  let location := routine.locationAt clause.handler.start walk.location
  let node := finallyEntryNode walk.nextIdent location
  have extended : walk.procedure.Extends (walk.procedure.addNode node) := .addNode _ _
  have handler : (walk.procedure.addNode node).kind? entry = some .handler :=
    Procedure.kind?_addNode_self ..
  have entered : ((walk.entries.insert clause.handler.start entry)[clause.handler.start]?) =
      some entry := Std.ExtTreeMap.getElem?_insert_self
  refine (refl walk).advance ⟨_, _, _, _, _, rfl⟩
    ⟨extended, fun offset other => entries_insert fresh entry offset other⟩ ?_ ?_ ?_ ?_
  · exact fun index known => Procedure.node?_addNode_of_ne _ _ (Nat.ne_of_lt known)
  · intro index old known
    refine .inl ?_
    have within : index < entry + 1 := (Procedure.size_addNode walk.procedure node) ▸ known
    rw [Nat.le_antisymm (Nat.le_of_lt_succ within) old]
    exact handler
  · exact fun apart => apart.insert rfl extended handler
  · refine ⟨[_], rfl, fun pending member => ?_⟩
    rw [List.mem_singleton.mp member]
    refine .intoFinally clause entry walk.nextIdent _ listed ⟨entered, handler, location, ?_⟩
    show _ <+: (walk.procedure.addNode node).commandsOf walk.procedure.size
    rw [Procedure.commandsOf, Procedure.node?_addNode_self]
    exact List.prefix_refl _

theorem finallyEntry (routine : Routine) (walk : Walk) (position : Nat) :
    Equipped routine walk (walk.finallyEntry routine position).1 := by
  unfold Walk.finallyEntry
  split
  · rename_i clause found
    split
    · exact refl walk
    · rename_i fresh
      exact addFinallyEntry walk (List.mem_of_getElem? found) fresh
  · exact (refl walk).fail _

/-! ### Catch clauses -/

/-- The nodes of a catch entry are added as by `Procedure.addFork`. -/
theorem addCatchNodes_fork (routine : Routine) (walk : Walk) (clause : CatchClause) :
    ∃ entry taken notTaken, entry.kind = .handler ∧ entry.successors = [] ∧
      taken.kind = .prune true .conditional ∧ notTaken.kind = .prune false .conditional ∧
      (walk.addCatchNodes routine clause).procedure =
        walk.procedure.addFork entry taken notTaken :=
  ⟨_, _, _, rfl, rfl, rfl, rfl, rfl⟩

theorem addCatchNodes (routine : Routine) (walk : Walk) {clause : CatchClause}
    (fresh : walk.entries[clause.handler.start]? = none) :
    Equipped routine walk (walk.addCatchNodes routine clause) := by
  obtain ⟨entry, taken, notTaken, entryKind, closed, takenKind, notTakenKind, forked⟩ :=
    addCatchNodes_fork routine walk clause
  have kept : ∀ index < walk.procedure.size,
      (walk.addCatchNodes routine clause).procedure.node? index = walk.procedure.node? index := by
    intro index known
    rw [forked, Procedure.node?_addFork_of_lt _ _ _ _ known]
  have extended := Procedure.Extends.of_kept kept
  have handler : (walk.addCatchNodes routine clause).procedure.kind? walk.procedure.size =
      some .handler := by
    rw [forked, Procedure.kind?, Procedure.node?_addFork_entry _ _ _ _ closed]
    exact congrArg some entryKind
  have edges : (walk.addCatchNodes routine clause).procedure.successorsOf walk.procedure.size =
      [walk.procedure.size + 1, walk.procedure.size + 2] := by
    rw [forked, Procedure.successorsOf, Procedure.node?_addFork_entry _ _ _ _ closed]
    rfl
  refine (refl walk).advance ⟨_, _, _, _, _, rfl⟩
    ⟨extended, entries_insert fresh walk.procedure.size⟩ kept ?_
    (fun apart => apart.insert rfl extended handler)
    ⟨[], rfl, fun _ member => absurd member List.not_mem_nil⟩
  intro index new known
  rw [forked, Procedure.size_addFork] at known
  obtain rfl | rfl | rfl : index = walk.procedure.size ∨ index = walk.procedure.size + 1 ∨
      index = walk.procedure.size + 2 := by omega
  · exact .inl handler
  · refine .inr ⟨true, .conditional, walk.procedure.size, ?_, handler, by rw [edges]; simp⟩
    rw [forked, Procedure.kind?, Procedure.node?_addFork_taken]
    exact congrArg some takenKind
  · refine .inr ⟨false, .conditional, walk.procedure.size, ?_, handler, by rw [edges]; simp⟩
    rw [forked, Procedure.kind?, Procedure.node?_addFork_notTaken]
    exact congrArg some notTakenKind

theorem passOn (walk : Walk) (clause : CatchClause) {rest : List CatchClause}
    (inductionHypothesis : ∀ walk, Equipped routine walk (catchEntry routine rest walk).1) :
    Equipped routine walk (walk.passOn routine clause rest).1 := by
  unfold Walk.passOn
  split
  · exact inductionHypothesis walk
  · split
    · exact finallyEntry routine walk _
    · exact refl walk

theorem guardCatch (equipped : Equipped routine base walk) (clause : CatchClause)
    {entry : NodeIndex} (new : base.procedure.size ≤ entry) :
    Equipped routine base (walk.guardCatch routine clause entry) := by
  unfold Walk.guardCatch
  split
  · rename_i position around
    have entered := equipped.trans (finallyEntry routine walk position)
    exact ((entered.setException new _).setException (Nat.le_add_right_of_le new) _).setException
      (Nat.le_add_right_of_le new) _
  · exact equipped

theorem guardCatchNodes_outgrows (walk : Walk) (entry handler : NodeIndex) :
    (walk.guardCatchNodes entry handler).Outgrows walk where
  extended := ((Procedure.Extends.setException _ entry _).trans
    (.setException _ (entry + 1) _)).trans (.setException _ (entry + 2) _)
  entriesKept _ _ found := found

theorem guardCatch_outgrows (walk : Walk) (clause : CatchClause) (entry : NodeIndex) :
    (walk.guardCatch routine clause entry).Outgrows walk := by
  unfold Walk.guardCatch
  split
  · rename_i position around
    exact (finallyEntry routine walk position).outgrows.trans (guardCatchNodes_outgrows ..)
  · exact .refl walk

/-- What is built after the nodes of a catch entry keeps the record of the entry. -/
theorem catchStart_recorded (walk : Walk) (clause : CatchClause) {rest : List CatchClause}
    (passed : Equipped routine (walk.addCatchNodes routine clause)
      ((walk.addCatchNodes routine clause).passOn routine clause rest).1) (onward : NodeIndex) :
    (Walk.guardCatch { ((walk.addCatchNodes routine clause).passOn routine clause rest).1 with
      procedure := ((walk.addCatchNodes routine clause).passOn routine clause rest).1.procedure.link
        (walk.procedure.size + 2) onward } routine clause
          walk.procedure.size).entries[clause.handler.start]? = some walk.procedure.size := by
  have recorded : (walk.addCatchNodes routine clause).entries[clause.handler.start]? =
      some walk.procedure.size := Std.ExtTreeMap.getElem?_insert_self
  exact (guardCatch_outgrows _ clause _).entriesKept _ _
    (passed.outgrows.entriesKept _ _ recorded)

/-- A walk is `Equipped` by `Walk.catchEntry`, and the entry is recorded. -/
theorem catchEntry (clauses : List CatchClause)
    (listed : ∀ clause ∈ clauses, clause ∈ routine.regions.catches) (walk : Walk) :
    Equipped routine walk (Walk.catchEntry routine clauses walk).1 ∧
      ∀ clause ∈ clauses.head?, (Walk.catchEntry routine clauses walk).1.entries[
        clause.handler.start]? = some (Walk.catchEntry routine clauses walk).2 := by
  induction clauses generalizing walk with
  | nil => exact ⟨refl walk, fun _ impossible => by cases impossible⟩
  | cons clause rest inductionHypothesis =>
    cases entry? : walk.entries[clause.handler.start]? with
    | some entry =>
      rw [catchEntry_known _ entry?]
      refine ⟨refl walk, ?_⟩
      rintro _ ⟨⟩
      exact entry?
    | none =>
      rw [catchEntry_fresh _ entry?]
      have added := addCatchNodes routine walk entry?
      have passed := passOn (walk.addCatchNodes routine clause) clause fun walk =>
        (inductionHypothesis (fun other member => listed other (List.mem_cons_of_mem _ member))
          walk).1
      have onward : walk.procedure.size ≤ walk.procedure.size + 2 := Nat.le_add_right ..
      have linked := (added.trans passed).link onward
        ((walk.addCatchNodes routine clause).passOn routine clause rest).2
      have guarded := linked.guardCatch clause (Nat.le_refl _)
      have recorded := catchStart_recorded walk clause passed
        ((walk.addCatchNodes routine clause).passOn routine clause rest).2
      refine ⟨guarded.queue (.intoCatch clause _ _ _ (listed clause List.mem_cons_self) recorded),
        ?_⟩
      rintro _ ⟨⟩
      exact recorded

/-! ### Handlers of offsets -/

theorem handlerEntry (walk : Walk) (target : HandlerTarget) :
    Equipped routine walk (walk.handlerEntry routine target).1 := by
  unfold Walk.handlerEntry
  split
  · split
    · exact (refl walk).fail _
    · rename_i position clause rest dropped
      refine (catchEntry _ (fun other member => ?_) walk).1
      rw [← dropped] at member
      exact List.mem_of_mem_drop member
  · exact finallyEntry routine walk _

end Equipped

/-- The entry of a handler is recorded. -/
theorem handlerEntry_recorded {routine : Routine} (walk : Walk) {target : HandlerTarget}
    {start : Offset} (known : target.start? routine.regions = some start) :
    (walk.handlerEntry routine target).1.entries[start]? =
      some (walk.handlerEntry routine target).2 := by
  cases target with
  | «catch» position =>
    obtain ⟨clause, found, rfl⟩ := Option.map_eq_some_iff.mp known
    have dropped : routine.regions.catches.drop position =
        clause :: routine.regions.catches.drop (position + 1) := by
      obtain ⟨within, rfl⟩ := List.getElem?_eq_some_iff.mp found
      exact List.drop_eq_getElem_cons within
    unfold handlerEntry
    simp only [dropped]
    refine (Equipped.catchEntry _ (fun other member => ?_) walk).2 clause rfl
    rw [← dropped] at member
    exact List.mem_of_mem_drop member
  | «finally» position =>
    obtain ⟨clause, found, rfl⟩ := Option.map_eq_some_iff.mp known
    unfold handlerEntry finallyEntry
    simp only [found]
    cases entry? : walk.entries[clause.handler.start]? with
    | some entry => exact entry?
    | none => exact Std.ExtTreeMap.getElem?_insert_self

end Walk

end BytecodeFlow

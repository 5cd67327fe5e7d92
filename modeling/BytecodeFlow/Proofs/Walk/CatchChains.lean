/-
This file describes what the entries of catch handlers look like once they are
built (`CatchEntered`), and follows the building. An entry is built from the
first clause that is asked for to the last of its group, and then back; on the
way there its nodes are not connected yet. What `Installs` says of a walk is
therefore said of the entries that were recorded since an earlier walk, which
serves as a base: they are complete, and one path waits for each of them.
-/

import BytecodeFlow.Proofs.Graph.Forks
import BytecodeFlow.Proofs.Region.Groups
import BytecodeFlow.Proofs.Walk.Handlers

namespace BytecodeFlow

namespace Procedure

/-! ### The nodes of a catch entry -/

/-- The entry of a catch clause with its two ways out, which follow it in the array. It unwraps the
exception and tests its type. If the type is another one, the exception is put back and control
goes onward. All three nodes have the same handlers. -/
structure CatchNodes (procedure : Procedure) (clause : CatchClause) (entry : NodeIndex)
    (unwrapped : Ident) (onward : NodeIndex) (handlers : List NodeIndex) : Prop where
  kind : procedure.kind? entry = some .handler
  waysOut : procedure.successorsOf entry = [entry + 1, entry + 2]
  tests : ∃ exception test location,
    procedure.commandsOf entry = Walk.takeException exception location ++ [
      .call unwrapped .object (.function unwrapFunction) [⟨.var exception, .object⟩] false location,
      .call test .boolean (.function instanceFunction)
        [⟨.var unwrapped, .object⟩,
          ⟨.sizeOf (Typ.ofName clause.catchType).stripPointer, .void⟩] false location] ∧
    procedure.Prunes (entry + 1) (.var test) true .conditional ∧
    procedure.Prunes (entry + 2) (.not (.var test)) false .conditional ∧
    procedure.commandsOf (entry + 2) = [
      .prune (.not (.var test)) false .conditional location,
      .store .returnSlot (.thrown (.var unwrapped)) .object location]
  missed : procedure.successorsOf (entry + 2) = [onward]
  guarded : ∀ node ∈ [entry, entry + 1, entry + 2], procedure.exceptionsOf node = handlers

/-- The nodes of `CatchNodes` are not changed, but for the way into the handler. -/
structure EntryKept (first second : Procedure) (entry : NodeIndex) : Prop where
  tested : second.node? entry = first.node? entry
  taken : second.exceptionsOf (entry + 1) = first.exceptionsOf (entry + 1)
  missed : second.node? (entry + 2) = first.node? (entry + 2)

theorem mem_entryNodes {entry node : Nat} (member : node ∈ [entry, entry + 1, entry + 2]) :
    entry ≤ node ∧ node ≤ entry + 2 := by
  simp only [List.mem_cons, List.not_mem_nil, or_false] at member
  omega

theorem EntryKept.of_kept {first second : Procedure} {entry : NodeIndex}
    (kept : ∀ node ∈ [entry, entry + 1, entry + 2], second.node? node = first.node? node) :
    first.EntryKept second entry where
  tested := kept entry (by simp)
  taken := exceptionsOf_congr (kept (entry + 1) (by simp))
  missed := kept (entry + 2) (by simp)

theorem Prunes.extends {first second : Procedure} {index : NodeIndex} {condition : Expr}
    {branch : Bool} {kind : BranchKind} (prunes : first.Prunes index condition branch kind)
    (extended : first.Extends second) : second.Prunes index condition branch kind := by
  have known := prunes.known
  obtain ⟨found, location, head⟩ := prunes
  refine ⟨(extended.kind? known).trans found, location, ?_⟩
  obtain ⟨more, grown⟩ := extended.commandsOf index
  rw [← grown, List.head?_append, head]
  rfl

namespace CatchNodes

variable {first second procedure : Procedure} {clause : CatchClause} {entry onward : NodeIndex}
  {unwrapped : Ident} {handlers : List NodeIndex}

theorem known (nodes : procedure.CatchNodes clause entry unwrapped onward handlers) :
    entry + 2 < procedure.size := by
  obtain ⟨_, _, _, -, -, prunes, -⟩ := nodes.tests
  exact prunes.known

theorem keep (nodes : first.CatchNodes clause entry unwrapped onward handlers)
    (extended : first.Extends second) (kept : first.EntryKept second entry) :
    second.CatchNodes clause entry unwrapped onward handlers where
  kind := (kind?_congr kept.tested).trans nodes.kind
  waysOut := (successorsOf_congr kept.tested).trans nodes.waysOut
  tests := by
    obtain ⟨exception, test, location, commands, taken, missed, thrown⟩ := nodes.tests
    exact ⟨exception, test, location, (commandsOf_congr kept.tested).trans commands,
      taken.extends extended, missed.extends extended,
      (commandsOf_congr kept.missed).trans thrown⟩
  missed := (successorsOf_congr kept.missed).trans nodes.missed
  guarded node member := by
    refine Eq.trans ?_ (nodes.guarded node member)
    simp only [List.mem_cons, List.not_mem_nil, or_false] at member
    rcases member with rfl | rfl | rfl
    · exact exceptionsOf_congr kept.tested
    · exact kept.taken
    · exact exceptionsOf_congr kept.missed

/-- One handler gets the exceptions of all three `CatchNodes`. -/
theorem guard (nodes : procedure.CatchNodes clause entry unwrapped onward handlers)
    (handler : NodeIndex) :
    (((procedure.setException entry handler).setException (entry + 1) handler).setException
      (entry + 2) handler).CatchNodes clause entry unwrapped onward [handler] where
  kind := by
    simp only [kind?_setException]
    exact nodes.kind
  waysOut := by
    simp only [successorsOf_setException]
    exact nodes.waysOut
  tests := by
    simp only [Prunes, kind?_setException, commandsOf_setException]
    exact nodes.tests
  missed := by
    simp only [successorsOf_setException]
    exact nodes.missed
  guarded node member := by
    have known := nodes.known
    have second : entry + 1 < procedure.size := Nat.lt_of_succ_lt known
    have first : entry < procedure.size := Nat.lt_of_succ_lt second
    simp only [List.mem_cons, List.not_mem_nil, or_false] at member
    rcases member with rfl | rfl | rfl
    · rw [exceptionsOf_congr (node?_setException_of_ne _ (Nat.ne_of_lt (Nat.lt_add_of_pos_right
        Nat.two_pos))), exceptionsOf_congr (node?_setException_of_ne _ (Nat.ne_of_lt
          (Nat.lt_succ_self _)))]
      exact exceptionsOf_setException_self first handler
    · rw [exceptionsOf_congr (node?_setException_of_ne _ (Nat.ne_of_lt (Nat.lt_succ_self _)))]
      exact exceptionsOf_setException_self (by rwa [size_setException]) handler
    · exact exceptionsOf_setException_self (by rwa [size_setException, size_setException]) handler

end CatchNodes

end Procedure

namespace Walk

/-! ### Where exceptions go from a catch entry -/

/-- What handles the exceptions of the entry of a clause: the entry of the finally that
`wrappingFinally?` finds around its group, or the sink if there is none. -/
def CatchGuard (routine : Routine) (walk : Walk) (clause : CatchClause) (guard : NodeIndex) :
    Prop :=
  match wrappingFinally? routine.regions.catches routine.regions.finallies clause with
  | some position => ∃ around, routine.regions.finallies[position]? = some around ∧
      walk.entries[around.handler.start]? = some guard
  | none => guard = Procedure.sink

/-- The handlers of the nodes of a catch entry, given its `CatchGuard`. As long as the graph is not
finished, exceptions that leave the method have none. -/
def catchHandlers (routine : Routine) (clause : CatchClause) (guard : NodeIndex) :
    List NodeIndex :=
  match wrappingFinally? routine.regions.catches routine.regions.finallies clause with
  | some _ => [guard]
  | none => []

/-- Where the exceptions go that a clause does not catch: to the entry of the clause that `next?`
gives, or to the `CatchGuard`. -/
def PassesTo (routine : Routine) (walk : Walk) (clause : CatchClause) (rest : List CatchClause)
    (onward : NodeIndex) : Prop :=
  match clause.next? rest with
  | some next => walk.entries[next.handler.start]? = some onward
  | none => CatchGuard routine walk clause onward

/-- The `CatchNodes` of the first of a list of clauses are complete, with what it `PassesTo`. -/
def CatchEntered (routine : Routine) (walk : Walk) (clause : CatchClause)
    (rest : List CatchClause) (entry : NodeIndex) (unwrapped : Ident) : Prop :=
  ∃ onward guard, PassesTo routine walk clause rest onward ∧
    CatchGuard routine walk clause guard ∧
    walk.procedure.CatchNodes clause entry unwrapped onward (catchHandlers routine clause guard)

section Mono

variable {routine : Routine} {earlier later : Walk} {clause : CatchClause}
  {rest : List CatchClause} {entry guard onward : NodeIndex} {unwrapped : Ident}

theorem CatchGuard.mono (guards : CatchGuard routine earlier clause guard)
    (outgrows : later.Outgrows earlier) : CatchGuard routine later clause guard := by
  unfold CatchGuard at guards ⊢
  split at guards
  · obtain ⟨around, found, recorded⟩ := guards
    exact ⟨around, found, outgrows.entriesKept _ _ recorded⟩
  · exact guards

theorem PassesTo.mono (passes : PassesTo routine earlier clause rest onward)
    (outgrows : later.Outgrows earlier) : PassesTo routine later clause rest onward := by
  unfold PassesTo at passes ⊢
  split at passes
  · exact outgrows.entriesKept _ _ passes
  · exact passes.mono outgrows

theorem CatchEntered.keep (entered : CatchEntered routine earlier clause rest entry unwrapped)
    (outgrows : later.Outgrows earlier) (kept : earlier.procedure.EntryKept later.procedure entry) :
    CatchEntered routine later clause rest entry unwrapped := by
  obtain ⟨onward, guard, passes, guards, nodes⟩ := entered
  exact ⟨onward, guard, passes.mono outgrows, guards.mono outgrows,
    nodes.keep outgrows.extended kept⟩

end Mono

/-! ### What was built since a base -/

/-- The entries that a walk has recorded and a base has not are complete by `CatchEntered`, and each
path that was queued for them is a `HandlerStart`. -/
structure Installs (routine : Routine) (base walk : Walk) (paths : List Pending) : Prop where
  outgrows : walk.Outgrows base
  distinct : (paths.map Pending.offset).Nodup
  leads : ∀ path ∈ paths, HandlerStart routine walk path ∧
    base.procedure.size ≤ path.previous ∧ path.previous < walk.procedure.size
  records : ∀ start : Offset, start ∈ paths.map Pending.offset ↔
    base.entries[start]? = none ∧ walk.entries[start]? ≠ none
  handlers : ∀ node, base.procedure.size ≤ node → walk.procedure.kind? node = some .handler →
    ∃ start : Offset, walk.entries[start]? = some node
  catches : ∀ clause rest, clause :: rest <:+ routine.regions.catches →
    ∀ entry, base.entries[clause.handler.start]? = none →
      walk.entries[clause.handler.start]? = some entry →
      base.procedure.size ≤ entry ∧ ∃ unwrapped nextStamp,
        catchStart clause entry unwrapped nextStamp ∈ paths ∧
        CatchEntered routine walk clause rest entry unwrapped

namespace Installs

variable {routine : Routine} {base walk other : Walk} {paths more : List Pending}

/-- `Installs` holds where no entry is built. -/
theorem idle (outgrows : other.Outgrows walk) (entries : other.entries = walk.entries)
    (handlers : ∀ node, walk.procedure.size ≤ node →
      other.procedure.kind? node ≠ some .handler) : Installs routine walk other [] where
  outgrows
  distinct := List.nodup_nil
  leads _ member := absurd member List.not_mem_nil
  records start := by
    rw [entries]
    exact iff_of_false List.not_mem_nil fun both => both.2 both.1
  handlers node new handler := absurd handler (handlers node new)
  catches clause rest _ entry fresh recorded := by
    rw [entries, fresh] at recorded
    cases recorded

/-- Changes to nodes that are there build no entry. -/
theorem idle_of_size (outgrows : other.Outgrows walk) (entries : other.entries = walk.entries)
    (size : other.procedure.size = walk.procedure.size) : Installs routine walk other [] := by
  refine idle outgrows entries fun node new handler => ?_
  rw [← size] at new
  exact Nat.not_lt_of_le new (Procedure.lt_size_of_kind? handler)

theorem refl (walk : Walk) : Installs routine walk walk [] := idle_of_size (.refl walk) rfl rfl

/-- `Installs` can be chained: entries that are complete stay so if their nodes are `EntryKept`. -/
theorem trans (former : Installs routine base walk paths)
    (latter : Installs routine walk other more)
    (kept : ∀ clause ∈ routine.regions.catches, ∀ entry,
      base.entries[clause.handler.start]? = none →
      walk.entries[clause.handler.start]? = some entry →
      walk.procedure.EntryKept other.procedure entry) :
    Installs routine base other (more ++ paths) where
  outgrows := former.outgrows.trans latter.outgrows
  distinct := by
    rw [List.map_append]
    refine List.nodup_append.mpr ⟨latter.distinct, former.distinct, ?_⟩
    rintro start new _ old rfl
    exact ((former.records start).mp old).2 ((latter.records start).mp new).1
  leads path member := by
    rcases List.mem_append.mp member with new | old
    · obtain ⟨starts, after, known⟩ := latter.leads path new
      exact ⟨starts, Nat.le_trans former.outgrows.extended.size_le after, known⟩
    · obtain ⟨starts, after, known⟩ := former.leads path old
      exact ⟨starts.mono latter.outgrows, after,
        Nat.lt_of_lt_of_le known latter.outgrows.extended.size_le⟩
  records start := by
    rw [List.map_append, List.mem_append, latter.records, former.records]
    have grown : ∀ {first second : Walk}, second.Outgrows first →
        second.entries[start]? = none → first.entries[start]? = none := by
      intro first second outgrows nothing
      cases found : first.entries[start]? with
      | none => rfl
      | some entry => rw [outgrows.entriesKept _ _ found] at nothing; cases nothing
    constructor
    · rintro (⟨fresh, recorded⟩ | ⟨fresh, recorded⟩)
      · exact ⟨grown former.outgrows fresh, recorded⟩
      · exact ⟨fresh, fun nothing => recorded (grown latter.outgrows nothing)⟩
    · rintro ⟨fresh, recorded⟩
      by_cases between : walk.entries[start]? = none
      · exact .inl ⟨between, recorded⟩
      · exact .inr ⟨fresh, between⟩
  handlers node new handler := by
    by_cases old : node < walk.procedure.size
    · rw [latter.outgrows.extended.kind? old] at handler
      obtain ⟨start, recorded⟩ := former.handlers node new handler
      exact ⟨start, latter.outgrows.entriesKept _ _ recorded⟩
    · exact latter.handlers node (Nat.le_of_not_lt old) handler
  catches clause rest suffix entry fresh recorded := by
    cases between : walk.entries[clause.handler.start]? with
    | none =>
      obtain ⟨after, unwrapped, nextStamp, queued, entered⟩ :=
        latter.catches clause rest suffix entry between recorded
      exact ⟨Nat.le_trans former.outgrows.extended.size_le after, unwrapped, nextStamp,
        List.mem_append_left _ queued, entered⟩
    | some found =>
      cases (latter.outgrows.entriesKept _ _ between).symm.trans recorded
      obtain ⟨after, unwrapped, nextStamp, queued, entered⟩ :=
        former.catches clause rest suffix entry fresh between
      exact ⟨after, unwrapped, nextStamp, List.mem_append_right _ queued,
        entered.keep latter.outgrows
          (kept clause (suffix.subset List.mem_cons_self) entry fresh between)⟩

/-- The nodes of an entry that is complete are among those that were added. -/
theorem bounds (installs : Installs routine base walk paths) {clause : CatchClause}
    (listed : clause ∈ routine.regions.catches) {entry : Nat}
    (fresh : base.entries[clause.handler.start]? = none)
    (recorded : walk.entries[clause.handler.start]? = some entry) :
    base.procedure.size ≤ entry ∧ entry + 2 < walk.procedure.size := by
  obtain ⟨earlier, rest, whole⟩ := List.append_of_mem listed
  obtain ⟨after, _, _, -, _, _, -, -, nodes⟩ :=
    installs.catches clause rest ⟨earlier, whole.symm⟩ entry fresh recorded
  exact ⟨after, nodes.known⟩

/-- Changes outside of the added nodes do not matter. -/
theorem trans_kept (former : Installs routine base walk paths)
    (latter : Installs routine walk other more)
    (kept : ∀ index, base.procedure.size ≤ index → index < walk.procedure.size →
      other.procedure.node? index = walk.procedure.node? index) :
    Installs routine base other (more ++ paths) := by
  refine former.trans latter fun clause listed entry fresh recorded => ?_
  obtain ⟨after, known⟩ := former.bounds listed fresh recorded
  refine .of_kept fun node member => ?_
  obtain ⟨first, last⟩ := Procedure.mem_entryNodes member
  exact kept node (Nat.le_trans after first) (Nat.lt_of_le_of_lt last known)

/-- Only the graph and the recorded entries of the base matter. -/
theorem of_base {before : Walk} (installs : Installs routine base walk paths)
    (procedure : before.procedure = base.procedure) (entries : before.entries = base.entries) :
    Installs routine before walk paths where
  outgrows := by
    refine ⟨?_, ?_⟩
    · rw [procedure]
      exact installs.outgrows.extended
    · rw [entries]
      exact installs.outgrows.entriesKept
  distinct := installs.distinct
  leads := by
    rw [procedure]
    exact installs.leads
  records := by
    rw [entries]
    exact installs.records
  handlers := by
    rw [procedure]
    exact installs.handlers
  catches := by
    rw [procedure, entries]
    exact installs.catches

/-- Nodes that were there before may get more edges. -/
theorem link (installs : Installs routine base walk paths) {source : Nat}
    (older : source < base.procedure.size) (target : NodeIndex) :
    Installs routine base { walk with procedure := walk.procedure.link source target } paths := by
  have outgrows : Outgrows { walk with procedure := walk.procedure.link source target } walk :=
    ⟨.link _ _ _, fun _ _ found => found⟩
  exact installs.trans_kept (.idle_of_size outgrows rfl (Procedure.size_link ..))
    fun index new _ => Procedure.node?_link_of_ne _ (Nat.ne_of_gt (Nat.lt_of_lt_of_le older new))

end Installs

/-! ### Building entries -/

/-- A walk stems from a base by building entries, which it `Installs`. -/
def Builds (routine : Routine) (base walk : Walk) : Prop :=
  ∃ paths, walk.worklist = paths ++ base.worklist ∧ Installs routine base walk paths

theorem getElem?_insert_of_ne {entries : Std.ExtTreeMap Offset NodeIndex} {start other : Offset}
    (different : start ≠ other) (entry : NodeIndex) :
    (entries.insert start entry)[other]? = entries[other]? := by
  rw [Std.ExtTreeMap.getElem?_insert, if_neg fun same =>
    different (Std.LawfulEqCmp.eq_of_compare same)]

section Building

variable {routine : Routine} {base walk : Walk} {clause : CatchClause} {rest : List CatchClause}
  {paths : List Pending} {entry : Nat} {onward : NodeIndex} {unwrapped : Ident}

theorem Builds.addFinallyEntry (apart : routine.regions.StartsApart) (walk : Walk)
    {around : FinallyClause} (listed : around ∈ routine.regions.finallies)
    (fresh : walk.entries[around.handler.start]? = none) :
    Builds routine walk (walk.addFinallyEntry routine around) := by
  have equipped := @Equipped.addFinallyEntry routine walk around listed fresh
  have size : (walk.addFinallyEntry routine around).procedure.size = walk.procedure.size + 1 :=
    Procedure.size_addNode ..
  have recorded : (walk.addFinallyEntry routine around).entries[around.handler.start]? =
      some walk.procedure.size := Std.ExtTreeMap.getElem?_insert_self
  have others : ∀ start, around.handler.start ≠ start →
      (walk.addFinallyEntry routine around).entries[start]? = walk.entries[start]? :=
    fun start different => getElem?_insert_of_ne different _
  obtain ⟨pushed, worklist, starts⟩ := equipped.queued
  refine ⟨[_], rfl, equipped.outgrows,
    List.nodup_cons.mpr ⟨List.not_mem_nil, List.nodup_nil⟩, ?_, ?_, ?_, ?_⟩
  · have same : [_] = pushed := List.append_cancel_right worklist
    intro path member
    refine ⟨starts path (same ▸ member), ?_⟩
    rw [List.mem_singleton.mp member, size]
    exact ⟨Nat.le_refl _, Nat.lt_succ_self _⟩
  · intro start
    rw [List.map_singleton, List.mem_singleton]
    by_cases here : around.handler.start = start
    · subst here
      exact iff_of_true rfl ⟨fresh, by rw [recorded]; exact Option.some_ne_none _⟩
    · refine iff_of_false (fun same => here same.symm) ?_
      rw [others start here]
      exact fun both => both.2 both.1
  · intro node new handler
    have known := Procedure.lt_size_of_kind? handler
    rw [size] at known
    rw [Nat.le_antisymm (Nat.le_of_lt_succ known) new]
    exact ⟨around.handler.start, recorded⟩
  · intro clause rest suffix entry unrecorded found
    have different := apart.finallies clause (suffix.subset List.mem_cons_self) around listed
    rw [others _ different.symm, unrecorded] at found
    cases found

theorem Builds.finallyEntry (apart : routine.regions.StartsApart) (walk : Walk)
    (position : Nat) : Builds routine walk (walk.finallyEntry routine position).1 := by
  unfold Walk.finallyEntry
  split
  · rename_i around found
    split
    · exact ⟨[], rfl, .refl walk⟩
    · rename_i fresh
      exact .addFinallyEntry apart walk (List.mem_of_getElem? found) fresh
  · exact ⟨[], rfl, .idle_of_size ⟨.refl _, fun _ _ found => found⟩ rfl rfl⟩

theorem catchGuard_finallyEntry (walk : Walk) {position : Nat}
    (wraps : wrappingFinally? routine.regions.catches routine.regions.finallies clause =
      some position) :
    CatchGuard routine (walk.finallyEntry routine position).1 clause
      (walk.finallyEntry routine position).2 := by
  obtain ⟨known, -⟩ := List.findIdx?_eq_some_iff_getElem.mp wraps
  have found := List.getElem?_eq_getElem known
  unfold CatchGuard
  rw [wraps]
  have starts : (HandlerTarget.finally position).start? routine.regions = some _ :=
    Option.map_eq_some_iff.mpr ⟨_, found, rfl⟩
  exact ⟨_, found, handlerEntry_recorded walk starts⟩

/-- What `passOn` gives is built, and is what the clause `PassesTo`. -/
theorem passOn_passesTo (walk : Walk) (clause : CatchClause) {rest : List CatchClause}
    (listed : ∀ other ∈ rest, other ∈ routine.regions.catches) :
    PassesTo routine (walk.passOn routine clause rest).1 clause rest
      (walk.passOn routine clause rest).2 := by
  unfold passOn
  by_cases grouped : (rest.head?.any fun next => next.guarded == clause.guarded) = true
  · rw [if_pos grouped]
    cases head : rest.head? with
    | none =>
      rw [head] at grouped
      cases grouped
    | some next =>
      have follows : clause.next? rest = some next := by
        rw [head] at grouped
        rw [CatchClause.next?, head]
        exact if_pos grouped
      rw [PassesTo, follows]
      exact (Equipped.catchEntry rest listed walk).2 next head
  · rw [if_neg grouped]
    have last : clause.next? rest = none := by
      unfold CatchClause.next?
      cases head : rest.head? with
      | none => rfl
      | some next =>
        rw [head] at grouped
        exact if_neg grouped
    rw [PassesTo, last]
    dsimp only
    cases wraps : wrappingFinally? routine.regions.catches routine.regions.finallies clause with
    | some position => exact catchGuard_finallyEntry walk wraps
    | none => rw [CatchGuard, wraps]

/-- The nodes that are added for a clause, once they are connected with what comes after. -/
theorem catchNodes_link (walk : Walk) (clause : CatchClause) {passed : Procedure}
    (kept : ∀ index < (walk.addCatchNodes routine clause).procedure.size,
      passed.node? index = (walk.addCatchNodes routine clause).procedure.node? index)
    (onward : NodeIndex) :
    (passed.link (walk.procedure.size + 2) onward).CatchNodes clause walk.procedure.size
      ⟨walk.nextStamp + 1⟩ onward [] := by
  let location := routine.locationAt clause.handler.start walk.location
  let blockEnd := routine.regions.blockEnd? clause.handler.start
  let test : Ident := ⟨walk.nextStamp + 2⟩
  let entry := catchEntryNode (.ofName clause.catchType) ⟨walk.nextStamp⟩ ⟨walk.nextStamp + 1⟩ test
    location
  let taken := pruneNode (.var test) true .conditional location blockEnd
  let missed := missedNode ⟨walk.nextStamp + 1⟩ test location blockEnd
  have forked : (walk.addCatchNodes routine clause).procedure =
      walk.procedure.addFork entry taken missed := rfl
  rw [forked, Procedure.size_addFork] at kept
  have atEntry : (passed.link (walk.procedure.size + 2) onward).node? walk.procedure.size =
      some { entry with successors := [walk.procedure.size + 1, walk.procedure.size + 2] } := by
    rw [Procedure.node?_link_of_ne _ (Nat.ne_of_lt (Nat.lt_add_of_pos_right Nat.two_pos)),
      kept _ (Nat.lt_add_of_pos_right (Nat.succ_pos 2))]
    exact Procedure.node?_addFork_entry _ _ _ _ rfl
  have atTaken : (passed.link (walk.procedure.size + 2) onward).node? (walk.procedure.size + 1) =
      some taken := by
    rw [Procedure.node?_link_of_ne _ (Nat.ne_of_lt (Nat.lt_succ_self _)),
      kept _ (Nat.add_lt_add_left (by decide) _)]
    exact Procedure.node?_addFork_taken ..
  have atMissed : (passed.link (walk.procedure.size + 2) onward).node? (walk.procedure.size + 2) =
      some { missed with successors := [onward] } := by
    have found : passed.node? (walk.procedure.size + 2) = some missed := by
      rw [kept _ (Nat.add_lt_add_left (by decide) _)]
      exact Procedure.node?_addFork_notTaken ..
    exact Procedure.node?_link_self found List.not_mem_nil
  refine ⟨?_, ?_, ⟨⟨walk.nextStamp⟩, test, location, ?_, ⟨?_, location, ?_⟩, ⟨?_, location, ?_⟩,
    ?_⟩, ?_, ?_⟩
  · rw [Procedure.kind?, atEntry]
    rfl
  · rw [Procedure.successorsOf, atEntry]
    rfl
  · rw [Procedure.commandsOf, atEntry]
    rfl
  · rw [Procedure.kind?, atTaken]
    rfl
  · rw [Procedure.commandsOf, atTaken]
    rfl
  · rw [Procedure.kind?, atMissed]
    rfl
  · rw [Procedure.commandsOf, atMissed]
    rfl
  · rw [Procedure.commandsOf, atMissed]
    rfl
  · rw [Procedure.successorsOf, atMissed]
    rfl
  · intro node member
    simp only [List.mem_cons, List.not_mem_nil, or_false] at member
    rcases member with rfl | rfl | rfl
    · rw [Procedure.exceptionsOf, atEntry]
      rfl
    · rw [Procedure.exceptionsOf, atTaken]
      rfl
    · rw [Procedure.exceptionsOf, atMissed]
      rfl

/-- Entries that were built after the nodes of another one are not touched by its handler. -/
theorem Installs.guardCatchNodes (installs : Installs routine base walk paths)
    (older : entry + 2 < base.procedure.size) (handler : NodeIndex) :
    Installs routine base (walk.guardCatchNodes entry handler) paths := by
  refine installs.trans_kept (.idle_of_size
    (Equipped.guardCatchNodes_outgrows walk entry handler) rfl ?_) fun index new _ => ?_
  · unfold Walk.guardCatchNodes
    simp only [Procedure.size_setException]
  · have last : entry + 2 < index := Nat.lt_of_lt_of_le older new
    have second : entry + 1 < index := Nat.lt_of_succ_lt last
    have first : entry < index := Nat.lt_of_succ_lt second
    unfold Walk.guardCatchNodes
    rw [Procedure.node?_setException_of_ne _ (Nat.ne_of_gt last),
      Procedure.node?_setException_of_ne _ (Nat.ne_of_gt second),
      Procedure.node?_setException_of_ne _ (Nat.ne_of_gt first)]

/-- After `guardCatch` the finally around a clause handles the exceptions of its entry. -/
theorem Installs.guardCatch (apart : routine.regions.StartsApart)
    (installs : Installs routine base walk paths) (older : entry + 2 < base.procedure.size)
    (nodes : walk.procedure.CatchNodes clause entry unwrapped onward []) :
    ∃ more guard, (walk.guardCatch routine clause entry).worklist = more ++ walk.worklist ∧
      Installs routine base (walk.guardCatch routine clause entry) (more ++ paths) ∧
      CatchGuard routine (walk.guardCatch routine clause entry) clause guard ∧
      (walk.guardCatch routine clause entry).procedure.CatchNodes clause entry unwrapped onward
        (catchHandlers routine clause guard) := by
  unfold Walk.guardCatch catchHandlers
  cases wraps : wrappingFinally? routine.regions.catches routine.regions.finallies clause with
  | none =>
    refine ⟨[], Procedure.sink, rfl, installs, ?_, nodes⟩
    rw [CatchGuard, wraps]
  | some position =>
    obtain ⟨more, worklist, built⟩ := Builds.finallyEntry apart walk position
    have equipped := Equipped.finallyEntry routine walk position
    have guards := catchGuard_finallyEntry walk wraps
    have entered := installs.trans_kept built fun index _ known => equipped.kept index known
    have complete := nodes.keep equipped.outgrows.extended (.of_kept fun node member =>
      equipped.kept node (Nat.lt_of_le_of_lt (Procedure.mem_entryNodes member).2 nodes.known))
    dsimp only
    generalize walk.finallyEntry routine position = around at *
    exact ⟨more, around.2, worklist, entered.guardCatchNodes older around.2,
      guards.mono (Equipped.guardCatchNodes_outgrows ..), complete.guard around.2⟩

/-- The entry of a clause is complete after those that it leads to. -/
theorem Installs.catchEntry (apart : routine.regions.StartsApart)
    (suffix : clause :: rest <:+ routine.regions.catches)
    (fresh : base.entries[clause.handler.start]? = none)
    (installs : Installs routine (base.addCatchNodes routine clause) walk paths)
    (entered : CatchEntered routine walk clause rest base.procedure.size unwrapped)
    (nextStamp : Nat) :
    Installs routine base
      (walk.queue (catchStart clause base.procedure.size unwrapped nextStamp))
      (catchStart clause base.procedure.size unwrapped nextStamp :: paths) := by
  have added := Equipped.addCatchNodes routine base fresh
  have size : (base.addCatchNodes routine clause).procedure.size = base.procedure.size + 3 :=
    Procedure.size_addFork ..
  have first : (base.addCatchNodes routine clause).entries[clause.handler.start]? =
      some base.procedure.size := Std.ExtTreeMap.getElem?_insert_self
  have others : ∀ start, clause.handler.start ≠ start →
      (base.addCatchNodes routine clause).entries[start]? = base.entries[start]? :=
    fun start different => getElem?_insert_of_ne different _
  have recorded : walk.entries[clause.handler.start]? = some base.procedure.size :=
    installs.outgrows.entriesKept _ _ first
  have queued : (walk.queue (catchStart clause base.procedure.size unwrapped nextStamp)).Outgrows
      walk := ⟨.refl _, fun _ _ found => found⟩
  obtain ⟨onward, guard, passes, guards, nodes⟩ := id entered
  have known := nodes.known
  refine ⟨(added.outgrows.trans installs.outgrows).trans queued, ?_, ?_, ?_, ?_, ?_⟩
  · refine List.nodup_cons.mpr ⟨fun again => ?_, installs.distinct⟩
    have unrecorded := ((installs.records _).mp again).1
    rw [show (catchStart clause base.procedure.size unwrapped nextStamp).offset =
      clause.handler.start from rfl, first] at unrecorded
    cases unrecorded
  · intro path member
    rcases List.mem_cons.mp member with rfl | later
    · exact ⟨.intoCatch clause _ _ _ (suffix.subset List.mem_cons_self) recorded,
        Nat.le_add_right _ 1, Nat.lt_of_succ_lt known⟩
    · obtain ⟨starts, after, within⟩ := installs.leads path later
      exact ⟨starts.mono queued, Nat.le_trans added.outgrows.extended.size_le after, within⟩
  · intro start
    rw [List.map_cons, List.mem_cons, installs.records]
    by_cases here : clause.handler.start = start
    · subst here
      exact iff_of_true (.inl rfl) ⟨fresh, fun nothing => by cases recorded.symm.trans nothing⟩
    · rw [others start here]
      exact ⟨fun either => either.elim (fun same => absurd same.symm here) id, .inr⟩
  · intro node new handler
    by_cases later : base.procedure.size + 3 ≤ node
    · exact installs.handlers node (size ▸ later) handler
    · obtain ⟨_, _, _, -, taken, missed, -⟩ := nodes.tests
      obtain rfl | rfl | rfl : node = base.procedure.size ∨ node = base.procedure.size + 1 ∨
          node = base.procedure.size + 2 := by omega
      · exact ⟨_, recorded⟩
      · cases taken.1.symm.trans handler
      · cases missed.1.symm.trans handler
  · intro other tail otherSuffix found unrecorded holds
    by_cases here : clause.handler.start = other.handler.start
    · obtain ⟨rfl, rfl⟩ := apart.suffix_unique suffix otherSuffix here
      cases recorded.symm.trans holds
      exact ⟨Nat.le_refl _, unwrapped, nextStamp, List.mem_cons_self,
        entered.keep queued (.of_kept fun _ _ => rfl)⟩
    · obtain ⟨after, ident, stamp, waits, complete⟩ := installs.catches other tail otherSuffix found
        ((others _ here).trans unrecorded) holds
      exact ⟨Nat.le_trans added.outgrows.extended.size_le after, ident, stamp,
        List.mem_cons_of_mem _ waits, complete.keep queued (.of_kept fun _ _ => rfl)⟩

/-- The nodes of a clause are connected with what was built after them, which completes the
entry. -/
theorem Builds.complete (apart : routine.regions.StartsApart)
    (suffix : clause :: rest <:+ routine.regions.catches)
    (fresh : base.entries[clause.handler.start]? = none)
    (equipped : Equipped routine (base.addCatchNodes routine clause) walk)
    (built : Builds routine (base.addCatchNodes routine clause) walk)
    (passes : PassesTo routine walk clause rest onward) (nextStamp : Nat) :
    Builds routine base ((Walk.guardCatch { walk with
      procedure := walk.procedure.link (base.procedure.size + 2) onward } routine clause
        base.procedure.size).queue
          (catchStart clause base.procedure.size ⟨base.nextStamp + 1⟩ nextStamp)) := by
  obtain ⟨paths, worklist, installs⟩ := built
  have older : base.procedure.size + 2 < (base.addCatchNodes routine clause).procedure.size := by
    rw [show (base.addCatchNodes routine clause).procedure.size = base.procedure.size + 3 from
      Procedure.size_addFork ..]
    exact Nat.lt_succ_self _
  have nodes := catchNodes_link base clause equipped.kept onward
  have linked := installs.link older onward
  have passed : PassesTo routine { walk with
      procedure := walk.procedure.link (base.procedure.size + 2) onward } clause rest onward :=
    passes.mono ⟨.link _ _ _, fun _ _ found => found⟩
  obtain ⟨more, guard, grown, guarded, guards, complete⟩ := linked.guardCatch apart older nodes
  refine ⟨_, ?_, guarded.catchEntry apart suffix fresh ⟨onward, guard,
    passed.mono (Equipped.guardCatch_outgrows _ clause _), guards, complete⟩ nextStamp⟩
  exact congrArg (_ :: ·) (grown.trans
    ((congrArg (more ++ ·) worklist).trans (List.append_assoc ..).symm))

/-- `Walk.catchEntry` `Builds` the entry of a clause, and all those that it leads to. -/
theorem Builds.catchEntry (apart : routine.regions.StartsApart) {clauses : List CatchClause}
    (suffix : clauses <:+ routine.regions.catches) (walk : Walk) :
    Builds routine walk (Walk.catchEntry routine clauses walk).1 := by
  induction clauses generalizing walk with
  | nil => exact ⟨[], rfl, .refl walk⟩
  | cons clause rest inductionHypothesis =>
    cases entry? : walk.entries[clause.handler.start]? with
    | some entry =>
      rw [catchEntry_known _ entry?]
      exact ⟨[], rfl, .refl walk⟩
    | none =>
      have later : rest <:+ routine.regions.catches := (List.suffix_cons ..).trans suffix
      have equipped := Equipped.passOn (walk.addCatchNodes routine clause) clause fun walk =>
        (Equipped.catchEntry rest (fun _ member => later.subset member) walk).1
      have passes := passOn_passesTo (walk.addCatchNodes routine clause) clause
        fun _ member => later.subset member
      have built : Builds routine (walk.addCatchNodes routine clause)
          ((walk.addCatchNodes routine clause).passOn routine clause rest).1 := by
        unfold Walk.passOn
        split
        · exact inductionHypothesis later _
        · split
          · exact .finallyEntry apart _ _
          · exact ⟨[], rfl, .refl _⟩
      rw [catchEntry_fresh _ entry?]
      exact .complete apart suffix entry? equipped built passes _

/-- `Walk.handlerEntry` `Builds` all the entries that it adds. -/
theorem Builds.handlerEntry (apart : routine.regions.StartsApart) (walk : Walk)
    (target : HandlerTarget) : Builds routine walk (walk.handlerEntry routine target).1 := by
  unfold Walk.handlerEntry
  split
  · split
    · exact ⟨[], rfl, .idle_of_size ⟨.refl _, fun _ _ found => found⟩ rfl rfl⟩
    · rename_i position clause rest dropped
      exact .catchEntry apart (dropped ▸ List.drop_suffix ..) walk
  · exact .finallyEntry apart walk _

end Building

end Walk

end BytecodeFlow

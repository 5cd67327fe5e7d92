/-
This file proves how groups of catches are lowered, however long they are
(`HandlersWired`). Each clause has one entry, which tests for its type; what it
does not catch goes to the entry of the next clause, and from the last one to
the finally around the group or out of the method. Whichever part of the
protected code asks for the group first, the handler of each clause is entered
by one path only, with nothing but the exception on the operand stack.
-/

import BytecodeFlow.Proofs.Lowering.Guarding
import BytecodeFlow.Proofs.Walk.EntryPaths

namespace BytecodeFlow

/-! ### Finished entries -/

/-- `Procedure.finish` sends the exceptions of `CatchNodes` without a handler to the sink. -/
theorem Procedure.CatchNodes.finish {procedure : Procedure} {clause : CatchClause}
    {entry onward : NodeIndex} {unwrapped : Ident} {handlers : List NodeIndex}
    (nodes : procedure.CatchNodes clause entry unwrapped onward handlers)
    (beyond : Procedure.sink < entry) :
    procedure.finish.CatchNodes clause entry unwrapped onward
      (if handlers.isEmpty then [Procedure.sink] else handlers) := by
  have later : ∀ node ∈ [entry, entry + 1, entry + 2], Procedure.sink < node := fun node member =>
    Nat.lt_of_lt_of_le beyond (Procedure.mem_entryNodes member).1
  have notSink : ∀ node ∈ [entry, entry + 1, entry + 2], node ≠ Procedure.sink :=
    fun node member => Nat.ne_of_gt (later node member)
  refine ⟨?_, ?_, ?_, ?_, ?_⟩
  · rw [Procedure.kind?_finish]
    exact nodes.kind
  · rw [Procedure.successorsOf_finish_of_ne (notSink _ (by simp))]
    exact nodes.waysOut
  · simp only [Procedure.Prunes, Procedure.kind?_finish, Procedure.commandsOf_finish]
    exact nodes.tests
  · rw [Procedure.successorsOf_finish_of_ne (notSink _ (by simp))]
    exact nodes.missed
  · intro node member
    have known := Nat.lt_of_le_of_lt (Procedure.mem_entryNodes member).2 nodes.known
    have notStart : node ≠ Procedure.start :=
      Nat.ne_of_gt (Nat.lt_trans (by decide) (later node member))
    have notExit : node ≠ Procedure.exit :=
      Nat.ne_of_gt (Nat.lt_trans (by decide) (later node member))
    rw [Procedure.exceptionsOf_finish known, nodes.guarded node member,
      Procedure.finishedExceptions, if_neg notStart, if_neg notExit, if_neg (notSink node member)]

namespace Walk

/-! ### Groups -/

/-- The clause at a position of a group is wired into it: it has an entry with `CatchNodes` whose
way on leads to the entry of the next clause, or to the guard from the last one. The guard handles
the exceptions of the entry, and of the paths queued for entries one leads into the handler of the
clause. -/
def ClauseWired (final : Walk) (procedure : Procedure) (paths : List Pending)
    (group : List CatchClause) (guard : NodeIndex) (position : Nat) : Prop :=
  ∀ clause, group[position]? = some clause → ∃ entry onward unwrapped nextStamp,
    final.entries[clause.handler.start]? = some entry ∧
    (∀ next, group[position + 1]? = some next →
      final.entries[next.handler.start]? = some onward) ∧
    (group[position + 1]? = none → onward = guard) ∧
    procedure.CatchNodes clause entry unwrapped onward [guard] ∧
    paths.filter (fun path => path.offset = clause.handler.start) = [{
      offset := clause.handler.start
      previous := entry + 1
      stack := [⟨.var unwrapped, .ofName clause.catchType⟩]
      nextStamp
      continuation := .newBlock
      finallyExit := none }]

/-- How the handlers of a routine are lowered: each entry is that of one handler, one `HandlerStart`
leads from it into the handler, and every clause of a `catchGroup` is `ClauseWired`, with the
group's own `CatchGuard`. -/
structure HandlersWired (routine : Routine) (final : Walk) (procedure : Procedure)
    (paths : List Pending) : Prop where
  handlers : ∀ node, procedure.kind? node = some .handler →
    ∃! start : Offset, final.entries[start]? = some node
  entered : ∀ (start : Offset) (entry : NodeIndex), final.entries[start]? = some entry →
    procedure.kind? entry = some .handler ∧
      ∃ path, paths.filter (fun path => path.offset = start) = [path] ∧
        HandlerStart routine final path
  ordered : ∀ guarded, (catchGroup routine.regions.catches guarded).Pairwise
    fun first second => first.handler.start < second.handler.start
  groups : ∀ guarded head, (catchGroup routine.regions.catches guarded).head? = some head →
    final.entries[head.handler.start]? ≠ none →
    ∃ guard, CatchGuard routine final head guard ∧ ∀ position,
      ClauseWired final procedure paths (catchGroup routine.regions.catches guarded) guard position

theorem filter_offset_eq {paths : List Pending} (distinct : (paths.map Pending.offset).Nodup)
    {path : Pending} (member : path ∈ paths) :
    paths.filter (fun other => other.offset = path.offset) = [path] := by
  induction paths with
  | nil => cases member
  | cons first rest inductionHypothesis =>
    obtain ⟨fresh, later⟩ := List.nodup_cons.mp distinct
    rcases List.mem_cons.mp member with rfl | inRest
    · rw [List.filter_cons_of_pos (by simp), List.filter_eq_nil_iff.mpr]
      intro other listed same
      exact fresh (List.mem_map.mpr ⟨other, listed, of_decide_eq_true same⟩)
    · rw [List.filter_cons_of_neg, inductionHypothesis later inRest]
      intro same
      exact fresh (List.mem_map.mpr ⟨path, inRest, (of_decide_eq_true same).symm⟩)

section Groups

variable {routine : Routine} {start final : Walk} {paths : List Pending} {clause head : CatchClause}
  {guard : NodeIndex}

/-- All clauses of a group have one `CatchGuard`. -/
theorem CatchGuard.of_guarded (guards : CatchGuard routine final head guard)
    (same : clause.guarded = head.guarded) : CatchGuard routine final clause guard := by
  unfold CatchGuard wrappingFinally? at guards ⊢
  rw [same]
  exact guards

theorem CatchGuard.unique {other : NodeIndex} (guards : CatchGuard routine final clause guard)
    (otherGuards : CatchGuard routine final clause other) : guard = other := by
  unfold CatchGuard at guards otherGuards
  cases wraps : wrappingFinally? routine.regions.catches routine.regions.finallies clause with
  | some position =>
    rw [wraps] at guards otherGuards
    obtain ⟨around, found, recorded⟩ := guards
    obtain ⟨_, foundAgain, recordedAgain⟩ := otherGuards
    cases found.symm.trans foundAgain
    exact Option.some.inj (recorded.symm.trans recordedAgain)
  | none =>
    rw [wraps] at guards otherGuards
    exact guards.trans otherGuards.symm

/-- After `finish`, the `CatchGuard` is the only handler of an entry. -/
theorem finished_catchHandlers (guards : CatchGuard routine final clause guard) :
    (if (catchHandlers routine clause guard).isEmpty then [Procedure.sink]
      else catchHandlers routine clause guard) = [guard] := by
  unfold CatchGuard at guards
  unfold catchHandlers
  split at guards
  · rfl
  · rw [guards]
    rfl

/-- From the first clause of a `catchGroup` on, all have entries. -/
theorem Installs.recorded_of_group (installs : Installs routine start final paths)
    (nothing : ∀ offset : Offset, start.entries[offset]? = none)
    (sorted : routine.regions.catches.Pairwise fun first second => first.notAfter second = true)
    {guarded : Span} (first : (catchGroup routine.regions.catches guarded).head? = some head)
    (entered : final.entries[head.handler.start]? ≠ none) (position : Nat) {clause : CatchClause}
    (found : (catchGroup routine.regions.catches guarded)[position]? = some clause) :
    ∃ entry, final.entries[clause.handler.start]? = some entry := by
  induction position generalizing clause with
  | zero =>
    rw [← List.head?_eq_getElem?, first] at found
    cases found
    exact Option.ne_none_iff_exists'.mp entered
  | succ position inductionHypothesis =>
    have within : position < (catchGroup routine.regions.catches guarded).length :=
      Nat.lt_of_succ_lt (List.getElem?_eq_some_iff.mp found).1
    have before := List.getElem?_eq_getElem within
    obtain ⟨entry, recorded⟩ := inductionHypothesis before
    obtain ⟨rest, suffix, -, next⟩ := suffix_of_catchGroup sorted before
    obtain ⟨-, _, _, -, onward, _, passes, -, -⟩ :=
      installs.catches _ rest suffix entry (nothing _) recorded
    rw [PassesTo, ← next, found] at passes
    exact ⟨onward, passes⟩

/-- A walk that `Installs` its entries has `HandlersWired`. -/
theorem Installs.handlersWired (installs : Installs routine start final paths)
    (apart : routine.regions.StartsApart)
    (sorted : routine.regions.catches.Pairwise fun first second => first.notAfter second = true)
    (nothing : ∀ offset : Offset, start.entries[offset]? = none)
    (plain : ∀ node < start.procedure.size, start.procedure.kind? node ≠ some .handler)
    (begun : Procedure.sink < start.procedure.size) (entriesApart : final.EntriesApart) :
    HandlersWired routine final final.procedure.finish paths where
  handlers node handler := by
    rw [Procedure.kind?_finish] at handler
    have new : start.procedure.size ≤ node := by
      by_contra old
      have known := Nat.lt_of_not_le old
      rw [installs.outgrows.extended.kind? known] at handler
      exact plain node known handler
    obtain ⟨offset, recorded⟩ := installs.handlers node new handler
    exact ⟨offset, recorded, fun other again => entriesApart.apart other offset node again recorded⟩
  entered offset entry recorded := by
    rw [Procedure.kind?_finish]
    refine ⟨entriesApart.kinds offset entry recorded, ?_⟩
    have queued : offset ∈ paths.map Pending.offset := (installs.records offset).mpr
      ⟨nothing offset, fun absent => by cases recorded.symm.trans absent⟩
    obtain ⟨path, member, rfl⟩ := List.mem_map.mp queued
    exact ⟨path, filter_offset_eq installs.distinct member, (installs.leads path member).1⟩
  ordered := apart.catchGroup_increasing sorted
  groups guarded head first entered := by
    have recorded := installs.recorded_of_group nothing sorted first entered
    have wired : ∀ position clause,
        (catchGroup routine.regions.catches guarded)[position]? = some clause →
        ∃ rest entry unwrapped nextStamp, clause.guarded = guarded ∧
          (catchGroup routine.regions.catches guarded)[position + 1]? = clause.next? rest ∧
          final.entries[clause.handler.start]? = some entry ∧
          start.procedure.size ≤ entry ∧
          catchStart clause entry unwrapped nextStamp ∈ paths ∧
          CatchEntered routine final clause rest entry unwrapped := by
      intro position clause found
      obtain ⟨entry, known⟩ := recorded position found
      obtain ⟨rest, suffix, same, next⟩ := suffix_of_catchGroup sorted found
      obtain ⟨new, unwrapped, nextStamp, queued, complete⟩ :=
        installs.catches clause rest suffix entry (nothing _) known
      exact ⟨rest, entry, unwrapped, nextStamp, same, next, known, new, queued, complete⟩
    have atFirst : (catchGroup routine.regions.catches guarded)[0]? = some head := by
      rw [← List.head?_eq_getElem?]
      exact first
    obtain ⟨_, _, _, _, headGuarded, -, -, -, -, _, guard, -, guards, -⟩ := wired 0 head atFirst
    refine ⟨guard, guards, fun position clause found => ?_⟩
    obtain ⟨rest, entry, unwrapped, nextStamp, same, next, known, new, queued, onward, own, passes,
      ownGuards, nodes⟩ := wired position clause found
    have alike := guards.of_guarded (same.trans headGuarded.symm)
    have finished := nodes.finish (Nat.lt_of_lt_of_le begun new)
    rw [finished_catchHandlers ownGuards, ownGuards.unique alike] at finished
    refine ⟨entry, onward, unwrapped, nextStamp, known, fun following isNext => ?_,
      fun isLast => ?_, finished, filter_offset_eq installs.distinct queued⟩
    · rw [PassesTo, ← next, isNext] at passes
      exact passes
    · rw [PassesTo, ← next, isLast] at passes
      exact passes.unique alike

end Groups

end Walk

namespace Lowered

variable {program : Program} {declaring : TypeDef} {method : MethodDef} {body : MethodBody}
  {limits : Limits}

theorem seeded_kind_ne_handler (node : NodeIndex) :
    (seeded program declaring method body).procedure.kind? node ≠ some .handler := by
  have begun : ∀ index, (Procedure.begin program.nextProcedureId (signatureOf declaring method body)
      program.nextNodeId).kind? index ≠ some .handler := by
    intro index handler
    obtain impossible | impossible | impossible := Procedure.kind_of_begin handler
    all_goals cases impossible
  rw [procedure_seeded]
  unfold prepared constructorPrologue
  dsimp only
  split
  · exact begun node
  · intro handler
    have known : ((Procedure.begin program.nextProcedureId (signatureOf declaring method body)
        program.nextNodeId).addNode (prologueNode declaring ⟨0⟩
          (signatureOf declaring method body).location)).kind? node = some .handler :=
      (Procedure.kind?_link _ _ _ node).symm.trans handler
    by_cases added : node = 3
    · subst added
      cases known
    · rw [Procedure.kind?_congr (Procedure.node?_addNode_of_ne _ _ added)] at known
      exact begun node known

/-- In a method that was lowered to its end, whose table is well-formed and valid and whose handlers
are disjoint within each group (`HandlerEntry.ClearOf`), all handlers are wired
(`Walk.HandlersWired`): no handler has two entries, and a group of catches whose first clause has an
entry is wired to its end, with one path queued for each clause. -/
theorem catch_groups_wired (wellFormed : ∀ entry ∈ body.handlers, entry.WellFormed)
    (clear : body.handlers.Pairwise HandlerEntry.ClearOf)
    (valid : (Routine.ofBody declaring.name method body).regions.valid = true)
    (complete : (ofMethod program declaring method body limits).outcome = .complete) :
    ∃ final paths, Walk.EntryPaths (Routine.ofBody declaring.name method body) limits
        (seeded program declaring method body) final paths ∧ final.worklist = [] ∧
      (ofMethod program declaring method body limits).procedure = final.procedure.finish ∧
      Walk.HandlersWired (Routine.ofBody declaring.name method body) final
        (ofMethod program declaring method body limits).procedure paths := by
  obtain ⟨final, turns, finished, procedure⟩ := ofMethod_complete complete
  obtain ⟨paths, collected⟩ := Walk.Turns.entryPaths turns
  refine ⟨final, paths, collected, finished, procedure, ?_⟩
  have apart : (Routine.ofBody declaring.name method body).regions.StartsApart :=
    Regions.startsApart_analyze wellFormed clear valid
  have continues : (seeded program declaring method body).ContinuesCode :=
    fun path member node continued => absurd continued (seeded_continuations member node)
  obtain ⟨installs, -⟩ := collected.installs apart
    (fun turns takesUp => seeded_linear program declaring method (code_of_takesUp turns takesUp))
    continues
  have begun : Procedure.sink < (seeded program declaring method body).procedure.size := by
    rw [procedure_seeded]
    exact (prepared_linear program declaring method body).1.shaped.sink_lt
  rw [procedure]
  refine installs.handlersWired apart (Regions.sorted_analyze body.handlers body.instructions) ?_
    (fun node _ => seeded_kind_ne_handler node) begun
    (Walk.Turns.entriesApart turns seeded_entriesApart)
  intro offset
  rw [entries_seeded, Std.ExtTreeMap.getElem?_empty]

/-- A body with two catches and a finally around them. -/
def guardedTwiceBody : MethodBody where
  locals := ["System.Int32"]
  instructions :=
    [⟨0, "ldc.i4.1", .none, none⟩, ⟨1, "stloc.0", .none, none⟩, ⟨2, "leave", .target 8, none⟩,
      ⟨3, "pop", .none, none⟩, ⟨4, "leave", .target 8, none⟩, ⟨5, "pop", .none, none⟩,
      ⟨6, "leave", .target 8, none⟩, ⟨7, "endfinally", .none, none⟩, ⟨8, "ret", .none, none⟩]
  handlers :=
    [⟨.catch, 0, 3, some 3, some 5, some "System.IO.IOException"⟩,
      ⟨.catch, 0, 3, some 5, some 7, some "System.Exception"⟩,
      ⟨.finally, 0, 7, some 7, some 8, none⟩]

/-- The table of the body, as it is read. -/
def guardedTwiceRegions : Regions where
  catches :=
    [⟨⟨0, 3⟩, ⟨3, 5⟩, "System.IO.IOException"⟩, ⟨⟨0, 3⟩, ⟨5, 7⟩, "System.Exception"⟩]
  finallies := [⟨⟨0, 7⟩, ⟨7, 8⟩⟩]
  boundaries := [0, 3, 3, 5, 0, 3, 5, 7, 0, 7, 7, 8]
  unhandled := false
  valid := true

def guardedTwiceRoutine : Routine where
  declaringType := plainType.name
  method := plainMethod
  locals := guardedTwiceBody.locals
  instructions := guardedTwiceBody.instructions.toArray
  positions := positionsOf guardedTwiceBody.instructions
  regions := guardedTwiceRegions
  leaders := blockLeaders guardedTwiceBody.instructions guardedTwiceRegions.boundaries

-- Sorting does not reduce in the kernel, so the sorted table is given.
theorem guardedTwiceRoutine_eq :
    Routine.ofBody plainType.name plainMethod guardedTwiceBody = guardedTwiceRoutine := by
  have read : guardedTwiceBody.handlers.filterMap HandlerEntry.catchClause? =
      guardedTwiceRegions.catches := by decide +kernel
  have sorted : guardedTwiceRegions.catches.mergeSort CatchClause.notAfter =
      guardedTwiceRegions.catches := List.mergeSort_of_pairwise (by decide +kernel)
  have regions : Regions.analyze guardedTwiceBody.handlers guardedTwiceBody.instructions =
      guardedTwiceRegions := by
    unfold Regions.analyze
    rw [read, sorted]
    decide +kernel
  unfold Routine.ofBody
  rw [regions]
  rfl

/-- The first catch passes on to the second, and the finally guards both. -/
theorem catch_groups_wired_twice :
    ∃ final paths guard, final.worklist = [] ∧ final.entries[(7 : Offset)]? = some guard ∧
      ∀ position < 2, Walk.ClauseWired final
        (ofMethod .empty plainType plainMethod guardedTwiceBody .standard).procedure paths
        [⟨⟨0, 3⟩, ⟨3, 5⟩, "System.IO.IOException"⟩, ⟨⟨0, 3⟩, ⟨5, 7⟩, "System.Exception"⟩] guard
        position := by
  have valid : (Routine.ofBody plainType.name plainMethod guardedTwiceBody).regions.valid =
      true := by
    rw [guardedTwiceRoutine_eq]
    rfl
  have complete : (ofMethod .empty plainType plainMethod guardedTwiceBody .standard).outcome =
      .complete := by
    unfold ofMethod
    rw [guardedTwiceRoutine_eq]
    decide +kernel
  obtain ⟨final, paths, collected, finished, -, wired⟩ :=
    catch_groups_wired (by decide +kernel) (by decide +kernel) valid complete
  rw [guardedTwiceRoutine_eq] at collected wired
  let last := (seeded .empty plainType plainMethod guardedTwiceBody).afterTurns guardedTwiceRoutine
    .standard 30
  have same : final = last := Walk.Turns.of_worklist_nil
    (Walk.Turns.to_final (Walk.turns_afterTurns ..) collected.turns finished)
    (by decide +kernel)
  have grouped : catchGroup guardedTwiceRoutine.regions.catches ⟨0, 3⟩ =
      [⟨⟨0, 3⟩, ⟨3, 5⟩, "System.IO.IOException"⟩, ⟨⟨0, 3⟩, ⟨5, 7⟩, "System.Exception"⟩] := by
    decide +kernel
  obtain ⟨guard, guards, each⟩ := wired.groups ⟨0, 3⟩
    ⟨⟨0, 3⟩, ⟨3, 5⟩, "System.IO.IOException"⟩ (by rw [grouped]; rfl)
    (by rw [same]; decide +kernel)
  have around : wrappingFinally? guardedTwiceRoutine.regions.catches
      guardedTwiceRoutine.regions.finallies ⟨⟨0, 3⟩, ⟨3, 5⟩, "System.IO.IOException"⟩ = some 0 := by
    decide +kernel
  rw [Walk.CatchGuard, around] at guards
  obtain ⟨_, ⟨⟩, recorded⟩ := guards
  rw [grouped] at each
  exact ⟨final, paths, guard, finished, recorded, fun position _ => each position⟩

end Lowered

end BytecodeFlow

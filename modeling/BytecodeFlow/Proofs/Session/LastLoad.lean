/-
This file proves that what a `Session` hands out always belongs to the sources
loaded last (`LastLoad`), whatever calls were made before and in which order.
The calls before the last load leave nothing behind, and each call after it can
only store what is built from these sources; so the session is known from the
calls since then (`Holds`).
-/

import BytecodeFlow.Session
import Mathlib.Data.List.Basic

namespace BytecodeFlow

namespace Session

/-- A call that may change a `Session`. -/
inductive Call where
  | load (sources : Sources)
  | buildTypes
  | buildProgram

/-- Why a stage failed, if it did. -/
def failure? {α : Type} : Except StageError α → Option StageError
  | .ok _ => none
  | .error error => some error

/-- What a `Call` leaves of a session, and why it failed, if it did. -/
def answer (session : Session) : Call → Session × Option StageError
  | .load sources => ((session.load sources).1, none)
  | .buildTypes => (session.buildTypes.1, failure? session.buildTypes.2)
  | .buildProgram => (session.buildProgram.1, failure? session.buildProgram.2)

/-- The session that is left when an `answer` was given to calls one after another. -/
def after (session : Session) (calls : List Call) : Session :=
  calls.foldl (fun session call => (session.answer call).1) session

/-- The type table of all that was loaded. -/
def typesOf (sources : Sources) : TypeTable :=
  (Resolver.resolveAll (sources.inputs ++ sources.references)).table

/-- The program of the inputs, with its books. -/
def programOf (limits : Limits) (sources : Sources) : Program × Ledger :=
  let build := Build.ofAssemblies sources.inputs limits
  (build.program, build.ledger)

namespace Call

/-- The calls load nothing. -/
def NoLoad (calls : List Call) : Prop := ∀ sources, load sources ∉ calls

/-- The sources were loaded by one of the calls, and `NoLoad` holds of the calls since then. -/
def LastLoad (calls : List Call) (sources : Sources) (since : List Call) : Prop :=
  (∃ earlier, calls = earlier ++ load sources :: since) ∧ NoLoad since

/-- The call was made after the `LastLoad`. -/
def MadeSinceLoad (calls : List Call) (call : Call) : Prop :=
  ∃ sources since, LastLoad calls sources since ∧ call ∈ since

theorem NoLoad.tail {call : Call} {calls : List Call} (noLoad : NoLoad (call :: calls)) :
    NoLoad calls :=
  fun sources listed => noLoad sources (List.mem_cons_of_mem call listed)

theorem noLoad_or_lastLoad (calls : List Call) :
    NoLoad calls ∨ ∃ sources since, LastLoad calls sources since := by
  induction calls with
  | nil => exact .inl fun _ => List.not_mem_nil
  | cons call calls inductionHypothesis =>
    rcases inductionHypothesis with noLoad | ⟨sources, since, ⟨earlier, rfl⟩, noLoad⟩
    · by_cases loads : ∃ sources, call = load sources
      · obtain ⟨sources, rfl⟩ := loads
        exact .inr ⟨sources, calls, ⟨[], rfl⟩, noLoad⟩
      · refine .inl fun sources listed => ?_
        rcases List.mem_cons.mp listed with first | later
        · exact loads ⟨sources, first.symm⟩
        · exact noLoad sources later
    · exact .inr ⟨sources, since, ⟨call :: earlier, rfl⟩, noLoad⟩

theorem LastLoad.not_noLoad {calls since : List Call} {sources : Sources}
    (last : LastLoad calls sources since) : ¬ NoLoad calls := by
  obtain ⟨⟨earlier, rfl⟩, _⟩ := last
  exact fun noLoad => noLoad sources (List.mem_append_right earlier List.mem_cons_self)

end Call

/-! ### One call -/

theorem buildTypes_of_loaded {session : Session} {sources : Sources}
    (loaded : session.sources = some sources) :
    ∃ messages, session.buildTypes =
      ({ session with types := some (typesOf sources) }, .ok (typesOf sources, messages)) := by
  unfold buildTypes Session.loaded
  rw [loaded]
  exact ⟨_, rfl⟩

theorem buildProgram_of_loaded {session : Session} {sources : Sources}
    (loaded : session.sources = some sources) :
    ∃ messages, session.buildProgram =
      ({ session with program := some (programOf session.limits sources) },
        .ok ((programOf session.limits sources).1, messages)) := by
  unfold buildProgram Session.loaded
  rw [loaded]
  exact ⟨_, rfl⟩

theorem buildTypes_of_unloaded {session : Session} (unloaded : session.sources = none) :
    session.buildTypes = (session, .error ⟨.types, .load⟩) := by
  unfold buildTypes loaded
  rw [unloaded]

theorem buildProgram_of_unloaded {session : Session} (unloaded : session.sources = none) :
    session.buildProgram = (session, .error ⟨.program, .load⟩) := by
  unfold buildProgram loaded
  rw [unloaded]

/-- A `Call` that fails changes nothing. -/
theorem answer_none_or_same (session : Session) (call : Call) :
    (session.answer call).2 = none ∨ (session.answer call).1 = session := by
  cases known : session.sources with
  | none =>
    cases call with
    | load sources => exact .inl rfl
    | buildTypes =>
      rw [answer, buildTypes_of_unloaded known]
      exact .inr rfl
    | buildProgram =>
      rw [answer, buildProgram_of_unloaded known]
      exact .inr rfl
  | some sources =>
    cases call with
    | load sources => exact .inl rfl
    | buildTypes =>
      obtain ⟨messages, built⟩ := buildTypes_of_loaded known
      rw [answer, built]
      exact .inl rfl
    | buildProgram =>
      obtain ⟨messages, built⟩ := buildProgram_of_loaded known
      rw [answer, built]
      exact .inl rfl

/-- Nothing can be built from nothing. -/
theorem answer_of_unloaded {session : Session} {call : Call} (unloaded : session.sources = none)
    (noLoad : ∀ sources, call ≠ .load sources) : (session.answer call).1 = session := by
  cases call with
  | load sources => exact absurd rfl (noLoad sources)
  | buildTypes => rw [answer, buildTypes_of_unloaded unloaded]
  | buildProgram => rw [answer, buildProgram_of_unloaded unloaded]

theorem limits_answer (session : Session) (call : Call) :
    (session.answer call).1.limits = session.limits := by
  cases known : session.sources with
  | none =>
    cases call with
    | load sources => rfl
    | buildTypes => rw [answer, buildTypes_of_unloaded known]
    | buildProgram => rw [answer, buildProgram_of_unloaded known]
  | some sources =>
    cases call with
    | load sources => rfl
    | buildTypes =>
      obtain ⟨messages, built⟩ := buildTypes_of_loaded known
      rw [answer, built]
    | buildProgram =>
      obtain ⟨messages, built⟩ := buildProgram_of_loaded known
      rw [answer, built]

/-! ### Many calls -/

theorem after_append (session : Session) (earlier later : List Call) :
    session.after (earlier ++ later) = (session.after earlier).after later :=
  List.foldl_append

theorem limits_after (session : Session) (calls : List Call) :
    (session.after calls).limits = session.limits := by
  induction calls generalizing session with
  | nil => rfl
  | cons call calls inductionHypothesis =>
    exact (inductionHypothesis _).trans (limits_answer session call)

theorem after_of_noLoad {limits : Limits} {calls : List Call} (noLoad : Call.NoLoad calls) :
    (start limits).after calls = start limits := by
  induction calls with
  | nil => rfl
  | cons call calls inductionHypothesis =>
    have same : ((start limits).answer call).1 = start limits :=
      answer_of_unloaded rfl fun sources loads => noLoad sources (loads ▸ List.mem_cons_self)
    show (((start limits).answer call).1).after calls = _
    rw [same, inductionHypothesis noLoad.tail]

/-- After a load, what a session holds is known from the calls since then: `typesOf` and `programOf`
the sources, if they were asked for. -/
structure Holds (limits : Limits) (sources : Sources) (since : List Call) (session : Session) :
    Prop where
  within : session.limits = limits
  loaded : session.sources = some sources
  typesBuilt : .buildTypes ∈ since → session.types = some (typesOf sources)
  typesAbsent : .buildTypes ∉ since → session.types = none
  programBuilt : .buildProgram ∈ since → session.program = some (programOf limits sources)
  programAbsent : .buildProgram ∉ since → session.program = none

theorem Holds.load (session : Session) (sources : Sources) :
    Holds session.limits sources [] (session.load sources).1 where
  within := rfl
  loaded := rfl
  typesBuilt made := absurd made List.not_mem_nil
  typesAbsent _ := rfl
  programBuilt made := absurd made List.not_mem_nil
  programAbsent _ := rfl

theorem Holds.answer {limits : Limits} {sources : Sources} {since : List Call} {session : Session}
    (holds : Holds limits sources since session) {call : Call}
    (noLoad : ∀ other, call ≠ .load other) :
    Holds limits sources (since ++ [call]) (session.answer call).1 := by
  cases call with
  | load other => exact absurd rfl (noLoad other)
  | buildTypes =>
    obtain ⟨messages, built⟩ := buildTypes_of_loaded holds.loaded
    have sameProgram : Call.buildProgram ∈ since ++ [.buildTypes] ↔ .buildProgram ∈ since := by simp
    rw [Session.answer, built]
    exact {
      within := holds.within
      loaded := holds.loaded
      typesBuilt := fun _ => rfl
      typesAbsent := fun unmade => absurd List.mem_concat_self unmade
      programBuilt := fun made => holds.programBuilt (sameProgram.mp made)
      programAbsent := fun unmade => holds.programAbsent (mt sameProgram.mpr unmade) }
  | buildProgram =>
    obtain ⟨messages, built⟩ := buildProgram_of_loaded holds.loaded
    have sameTypes : Call.buildTypes ∈ since ++ [.buildProgram] ↔ .buildTypes ∈ since := by simp
    rw [Session.answer, built]
    exact {
      within := holds.within
      loaded := holds.loaded
      typesBuilt := fun made => holds.typesBuilt (sameTypes.mp made)
      typesAbsent := fun unmade => holds.typesAbsent (mt sameTypes.mpr unmade)
      programBuilt := fun _ => holds.within ▸ rfl
      programAbsent := fun unmade => absurd List.mem_concat_self unmade }

theorem Holds.after {limits : Limits} {sources : Sources} {since calls : List Call}
    {session : Session} (holds : Holds limits sources since session) (noLoad : Call.NoLoad calls) :
    Holds limits sources (since ++ calls) (session.after calls) := by
  induction calls generalizing session since with
  | nil =>
    rw [List.append_nil]
    exact holds
  | cons call calls inductionHypothesis =>
    have next : Holds limits sources (since ++ [call]) (session.answer call).1 :=
      holds.answer fun other loads => noLoad other (loads ▸ List.mem_cons_self)
    rw [List.append_cons]
    exact inductionHypothesis next noLoad.tail

theorem holds_of_lastLoad (limits : Limits) {calls since : List Call} {sources : Sources}
    (last : Call.LastLoad calls sources since) :
    Holds limits sources since ((start limits).after calls) := by
  obtain ⟨⟨earlier, rfl⟩, noLoad⟩ := last
  have loaded := Holds.load ((start limits).after earlier) sources
  rw [limits_after] at loaded
  rw [after_append]
  exact loaded.after noLoad

/-! ### What is handed out -/

theorem sources_after (limits : Limits) (calls : List Call) :
    ((start limits).after calls).sources = none ↔ Call.NoLoad calls := by
  rcases Call.noLoad_or_lastLoad calls with noLoad | ⟨sources, since, last⟩
  · rw [after_of_noLoad noLoad]
    exact iff_of_true rfl noLoad
  · rw [(holds_of_lastLoad limits last).loaded]
    exact iff_of_false (Option.some_ne_none sources) last.not_noLoad

theorem types_after (limits : Limits) (calls : List Call) :
    ((start limits).after calls).types = none ↔ ¬ Call.MadeSinceLoad calls .buildTypes := by
  constructor
  · rintro absent ⟨sources, since, last, made⟩
    rw [(holds_of_lastLoad limits last).typesBuilt made] at absent
    exact Option.some_ne_none _ absent
  · intro unmade
    rcases Call.noLoad_or_lastLoad calls with noLoad | ⟨sources, since, last⟩
    · rw [after_of_noLoad noLoad]
      rfl
    · exact (holds_of_lastLoad limits last).typesAbsent fun made =>
        unmade ⟨sources, since, last, made⟩

theorem program_after (limits : Limits) (calls : List Call) :
    ((start limits).after calls).program = none ↔ ¬ Call.MadeSinceLoad calls .buildProgram := by
  constructor
  · rintro absent ⟨sources, since, last, made⟩
    rw [(holds_of_lastLoad limits last).programBuilt made] at absent
    exact Option.some_ne_none _ absent
  · intro unmade
    rcases Call.noLoad_or_lastLoad calls with noLoad | ⟨sources, since, last⟩
    · rw [after_of_noLoad noLoad]
      rfl
    · exact (holds_of_lastLoad limits last).programAbsent fun made =>
        unmade ⟨sources, since, last, made⟩

theorem buildTypes_eq_error (session : Session) (error : StageError) :
    session.buildTypes.2 = .error error ↔
      error = ⟨.types, .load⟩ ∧ session.sources = none := by
  cases known : session.sources with
  | none =>
    rw [buildTypes_of_unloaded known, Except.error.injEq, eq_comm, and_iff_left rfl]
  | some sources =>
    obtain ⟨messages, built⟩ := buildTypes_of_loaded known
    rw [built]
    refine iff_of_false (fun same => ?_) fun both => Option.some_ne_none sources both.2
    cases same

theorem buildProgram_eq_error (session : Session) (error : StageError) :
    session.buildProgram.2 = .error error ↔
      error = ⟨.program, .load⟩ ∧ session.sources = none := by
  cases known : session.sources with
  | none =>
    rw [buildProgram_of_unloaded known, Except.error.injEq, eq_comm, and_iff_left rfl]
  | some sources =>
    obtain ⟨messages, built⟩ := buildProgram_of_loaded known
    rw [built]
    refine iff_of_false (fun same => ?_) fun both => Option.some_ne_none sources both.2
    cases same

theorem finish_eq_error (session : Session) (error : StageError) :
    session.finish = .error error ↔
      error = ⟨.finish, .types⟩ ∧ session.types = none ∨
        error = ⟨.finish, .program⟩ ∧ session.types ≠ none ∧ session.program = none := by
  unfold finish
  cases session.types <;> cases session.program <;> simp [eq_comm]

theorem finish_eq_ok (session : Session) (results : Results) :
    session.finish = .ok results ↔
      session.types = some results.types ∧
        session.program = some (results.program, results.ledger) := by
  obtain ⟨types, program, ledger⟩ := results
  unfold finish
  cases session.types <;> cases session.program <;> simp [Prod.ext_iff]

theorem finish_of_lastLoad (limits : Limits) (calls : List Call) (results : Results) :
    ((start limits).after calls).finish = .ok results ↔
      ∃ sources since, Call.LastLoad calls sources since ∧
        .buildTypes ∈ since ∧ .buildProgram ∈ since ∧
          results.types = typesOf sources ∧
            (results.program, results.ledger) = programOf limits sources := by
  rw [finish_eq_ok]
  constructor
  · rintro ⟨typesFound, programFound⟩
    rcases Call.noLoad_or_lastLoad calls with noLoad | ⟨sources, since, last⟩
    · rw [after_of_noLoad noLoad] at typesFound
      exact absurd typesFound.symm (Option.some_ne_none _)
    · have holds := holds_of_lastLoad limits last
      have typesMade : .buildTypes ∈ since := by
        by_contra unmade
        rw [holds.typesAbsent unmade] at typesFound
        exact Option.some_ne_none _ typesFound.symm
      have programMade : .buildProgram ∈ since := by
        by_contra unmade
        rw [holds.programAbsent unmade] at programFound
        exact Option.some_ne_none _ programFound.symm
      rw [holds.typesBuilt typesMade, Option.some_inj] at typesFound
      rw [holds.programBuilt programMade, Option.some_inj] at programFound
      exact ⟨sources, since, last, typesMade, programMade, typesFound.symm, programFound.symm⟩
  · rintro ⟨sources, since, last, typesMade, programMade, sameTypes, sameProgram⟩
    have holds := holds_of_lastLoad limits last
    exact ⟨sameTypes ▸ holds.typesBuilt typesMade, sameProgram ▸ holds.programBuilt programMade⟩

/-- After any calls, whatever a session hands out belongs to what was loaded last (`Call.LastLoad`).
`buildTypes` and `buildProgram` fail exactly when nothing was loaded, and a call that fails changes
nothing. The results of `finish` are there exactly when both have been built since the last load,
and are then those of its sources; else the stage that is missing is named, the types first. -/
theorem results_of_last_load (limits : Limits) (calls : List Call) :
    (∀ error, ((start limits).after calls).buildTypes.2 = .error error ↔
      error = ⟨.types, .load⟩ ∧ Call.NoLoad calls) ∧
    (∀ error, ((start limits).after calls).buildProgram.2 = .error error ↔
      error = ⟨.program, .load⟩ ∧ Call.NoLoad calls) ∧
    (∀ call, (((start limits).after calls).answer call).2 = none ∨
      (start limits).after (calls ++ [call]) = (start limits).after calls) ∧
    (∀ results, ((start limits).after calls).finish = .ok results ↔
      ∃ sources since, Call.LastLoad calls sources since ∧
        .buildTypes ∈ since ∧ .buildProgram ∈ since ∧
          results.types = typesOf sources ∧
            (results.program, results.ledger) = programOf limits sources) ∧
    ∀ error, ((start limits).after calls).finish = .error error ↔
      error = ⟨.finish, .types⟩ ∧ ¬ Call.MadeSinceLoad calls .buildTypes ∨
        error = ⟨.finish, .program⟩ ∧ Call.MadeSinceLoad calls .buildTypes ∧
          ¬ Call.MadeSinceLoad calls .buildProgram := by
  refine ⟨fun error => ?_, fun error => ?_, fun call => ?_, finish_of_lastLoad limits calls,
    fun error => ?_⟩
  · rw [buildTypes_eq_error, sources_after]
  · rw [buildProgram_eq_error, sources_after]
  · rw [after_append]
    exact answer_none_or_same _ call
  · rw [finish_eq_error, ne_eq, types_after, program_after, not_not]

end Session

end BytecodeFlow

/-
This file reads an exception table by its ranges alone (`Reads`): whether an
offset lies in a handler, where its exceptions go, where the innermost range
around it ends, and which finally a leave has to run. The lookups search for
the narrowest range and for the first clause that fits. In a valid table whose
handlers follow what they guard, this comes to the same. The reading knows no
order of clauses, so the order of a table does not matter.
-/

import BytecodeFlow.Proofs.Region.Groups
import BytecodeFlow.Proofs.Region.Innermost
import BytecodeFlow.Proofs.Region.Rearranging

namespace BytecodeFlow

/-! ### What a table says -/

/-- The catch clauses of a table, in its order. -/
def catchesOf (entries : List HandlerEntry) : List CatchClause :=
  entries.filterMap HandlerEntry.catchClause?

/-- The finally clauses of a table, in its order. -/
def finalliesOf (entries : List HandlerEntry) : List FinallyClause :=
  entries.filterMap HandlerEntry.finallyClause?

/-- All that clauses guard, and all their handlers. -/
def rangesOf (catches : List CatchClause) (finallies : List FinallyClause) : List Span :=
  catches.flatMap (fun clause => [clause.guarded, clause.handler]) ++
    finallies.flatMap fun clause => [clause.guarded, clause.handler]

/-- A finally starts with what a catch clause guards, and all ranges of its group lie `Within` what
the finally guards. -/
def FinallyClause.Wraps (around : FinallyClause) (catches : List CatchClause)
    (clause : CatchClause) : Prop :=
  around.guarded.start = clause.guarded.start ∧
    ∀ other ∈ catches, other.guarded = clause.guarded →
      other.guarded.Within around.guarded ∧ other.handler.Within around.guarded

/-- Where the exceptions of an offset go by the ranges of a table: to the handler of a kind that
starts at some offset, or out of the method. -/
inductive SendsTo (catches : List CatchClause) (finallies : List FinallyClause) (offset : Offset) :
    Option (HandlerKind × Option Offset) → Prop
  /-- Of the catches that guard the offset, the one whose handler starts first gets them. -/
  | toCatch {clause : CatchClause} (listed : clause ∈ catches)
    (guards : clause.guarded.contains offset = true)
    (first : ∀ other ∈ catches, other.guarded.contains offset = true →
      clause.handler.start ≤ other.handler.start) :
    SendsTo catches finallies offset (some (.catch, some clause.handler.start))
  /-- In the handler of a catch, the finally around its group gets them. -/
  | fromHandler {clause : CatchClause} {around : FinallyClause}
    (unguarded : ∀ other ∈ catches, other.guarded.contains offset = false)
    (listed : clause ∈ catches) (handles : clause.handler.contains offset = true)
    (aroundListed : around ∈ finallies) (wraps : around.Wraps catches clause) :
    SendsTo catches finallies offset (some (.finally, some around.handler.start))
  | outOfHandler {clause : CatchClause}
    (unguarded : ∀ other ∈ catches, other.guarded.contains offset = false)
    (listed : clause ∈ catches) (handles : clause.handler.contains offset = true)
    (alone : ∀ around ∈ finallies, ¬ around.Wraps catches clause) :
    SendsTo catches finallies offset none
  | toFinally {around : FinallyClause}
    (unguarded : ∀ other ∈ catches, other.guarded.contains offset = false)
    (outside : ∀ other ∈ catches, other.handler.contains offset = false)
    (listed : around ∈ finallies) (guards : around.guarded.contains offset = true) :
    SendsTo catches finallies offset (some (.finally, some around.handler.start))
  | nowhere (unguarded : ∀ other ∈ catches, other.guarded.contains offset = false)
    (outside : ∀ other ∈ catches, other.handler.contains offset = false)
    (unprotected : ∀ around ∈ finallies, around.guarded.contains offset = false) :
    SendsTo catches finallies offset none

/-- A range holds an offset and lies `Within` all other ranges that do. -/
def Span.IsInnermost (span : Span) (ranges : List Span) (offset : Offset) : Prop :=
  span ∈ ranges ∧ span.contains offset = true ∧
    ∀ other ∈ ranges, other.contains offset = true → span.Within other

/-! ### What the lookups answer -/

def HandlerTarget.kind : HandlerTarget → HandlerKind
  | .catch _ => .catch
  | .finally _ => .finally

/-- The answers about an offset and about a leave to a target. Handlers are named as in `nameOf`. -/
structure Answers where
  inHandler : Bool
  target : Option (HandlerKind × Option Offset)
  blockEnd : Option Offset
  leaving : Option (HandlerKind × Option Offset)
deriving DecidableEq, Repr

namespace Regions

/-- The kind of a handler, and where it starts by `HandlerTarget.start?`. -/
def nameOf (regions : Regions) (target : HandlerTarget) : HandlerKind × Option Offset :=
  (target.kind, target.start? regions)

def answers (regions : Regions) (offset target : Offset) : Answers where
  inHandler := regions.isHandlerOffset offset
  target := (regions.exceptionTarget? offset).map regions.nameOf
  blockEnd := regions.blockEnd? offset
  leaving := (regions.finallyForLeave? offset target).map fun position =>
    regions.nameOf (.finally position)

/-- The lookups of `Regions` say what is read from the ranges of clauses: `SendsTo` for exceptions,
`Span.IsInnermost` for the end of a block. -/
structure Reads (regions : Regions) (catches : List CatchClause) (finallies : List FinallyClause)
    (offset target : Offset) : Prop where
  inHandler : regions.isHandlerOffset offset = true ↔
    (∃ clause ∈ catches, clause.handler.contains offset = true) ∨
      ∃ clause ∈ finallies, clause.handler.contains offset = true
  sends : ∀ answer, (regions.exceptionTarget? offset).map regions.nameOf = answer ↔
    SendsTo catches finallies offset answer
  ends : ∀ stop, regions.blockEnd? offset = some stop ↔
    ∃ span : Span, span.IsInnermost (rangesOf catches finallies) offset ∧ span.stop = stop
  unended : regions.blockEnd? offset = none ↔
    ∀ span ∈ rangesOf catches finallies, span.contains offset = false
  leaves : ∀ answer, ((regions.finallyForLeave? offset target).map fun position =>
      regions.nameOf (.finally position)) = some answer ↔
    ∃ clause ∈ finallies, clause.guarded.contains offset = true ∧
      clause.guarded.contains target = false ∧ answer = (.finally, some clause.handler.start)
  /-- At most one finally guards the offset. -/
  single : finallies.Pairwise fun first second =>
    first.guarded.contains offset = true → second.guarded.contains offset = false

end Regions

/-! ### Reading the ranges of clauses -/

theorem catchGroupEnd_le {catches : List CatchClause} {guarded : Span} {bound : Nat}
    (guards : guarded.stop.toNat ≤ bound)
    (members : ∀ clause ∈ catches, clause.guarded = guarded → clause.handler.stop.toNat ≤ bound) :
    (catchGroupEnd catches guarded).toNat ≤ bound := by
  refine List.foldlRecOn (motive := fun stop : Offset => stop.toNat ≤ bound) _ _ guards ?_
  intro stop below clause grouped
  obtain ⟨listed, same⟩ := List.mem_filter.mp grouped
  have handler := members clause listed (of_decide_eq_true same)
  have own : clause.guarded.stop.toNat ≤ bound := of_decide_eq_true same ▸ guards
  rw [CatchClause.reach, toNat_max, toNat_max]
  omega

namespace Regions

/-- Clauses that are sorted by `notAfter`, laid out by `groupsAreDisjoint`, and `Unnested`, such
that ranges which share an offset lie in each other. -/
structure Legible (regions : Regions) : Prop where
  ordered : regions.WellFormed
  disjoint : groupsAreDisjoint regions.catches regions.finallies = true
  sorted : regions.catches.Pairwise fun first second => first.notAfter second = true
  unnested : regions.Unnested

variable {regions : Regions} {offset target : Offset}

theorem WellFormed.filled (ordered : regions.WellFormed) : regions.Filled := by
  constructor
  · intro clause listed
    rcases mem_clauses.mp listed with ⟨_, caught, found, rfl⟩ | ⟨_, wrapper, found, rfl⟩
    · exact (ordered.catches caught (List.mem_of_getElem? found)).1
    · exact (ordered.finallies wrapper (List.mem_of_getElem? found)).1
  · intro clause listed
    rcases mem_clauses.mp listed with ⟨_, caught, found, rfl⟩ | ⟨_, wrapper, found, rfl⟩
    · exact (ordered.catches caught (List.mem_of_getElem? found)).2.2
    · exact (ordered.finallies wrapper (List.mem_of_getElem? found)).2.2

theorem mem_rangesOf {span : Span} :
    span ∈ rangesOf regions.catches regions.finallies ↔
      ∃ region ∈ regions.all, region.span = span := by
  unfold rangesOf all
  simp only [List.mem_append, List.mem_flatMap, List.mem_cons, List.not_mem_nil, or_false,
    List.mem_mapIdx]
  constructor
  · rintro (⟨clause, listed, rfl | rfl⟩ | ⟨clause, listed, rfl | rfl⟩) <;>
      obtain ⟨position, known, rfl⟩ := List.getElem_of_mem listed
    · exact ⟨_, .inl (.inl (.inl ⟨position, known, rfl⟩)), rfl⟩
    · exact ⟨_, .inl (.inr ⟨position, known, rfl⟩), rfl⟩
    · exact ⟨_, .inl (.inl (.inr ⟨position, known, rfl⟩)), rfl⟩
    · exact ⟨_, .inr ⟨position, known, rfl⟩, rfl⟩
  · rintro ⟨region, ((⟨position, known, rfl⟩ | ⟨position, known, rfl⟩) | ⟨position, known, rfl⟩) |
      ⟨position, known, rfl⟩, rfl⟩
    · exact .inl ⟨_, List.getElem_mem known, .inl rfl⟩
    · exact .inr ⟨_, List.getElem_mem known, .inl rfl⟩
    · exact .inl ⟨_, List.getElem_mem known, .inr rfl⟩
    · exact .inr ⟨_, List.getElem_mem known, .inr rfl⟩

theorem exceptionTarget?_of_unprotected
    (unguarded : ∀ other ∈ regions.catches, other.guarded.contains offset = false)
    (outside : ∀ other ∈ regions.catches, other.handler.contains offset = false)
    (unprotected : ∀ around ∈ regions.finallies, around.guarded.contains offset = false) :
    regions.exceptionTarget? offset = none := by
  unfold exceptionTarget?
  cases found : regions.innermost? offset with
  | none => rfl
  | some region =>
    obtain ⟨listed, inside⟩ := innermost?_mem found
    unfold all at listed
    simp only [List.mem_append, List.mem_mapIdx] at listed
    rcases listed with ((⟨position, known, rfl⟩ | ⟨position, known, rfl⟩) |
      ⟨position, known, rfl⟩) | ⟨position, known, rfl⟩
    · cases inside.symm.trans (unguarded _ (List.getElem_mem known))
    · cases inside.symm.trans (unprotected _ (List.getElem_mem known))
    · cases inside.symm.trans (outside _ (List.getElem_mem known))
    · rfl

theorem blockEnd?_eq_none :
    regions.blockEnd? offset = none ↔
      ∀ span ∈ rangesOf regions.catches regions.finallies, span.contains offset = false := by
  rw [blockEnd?, Option.map_eq_none_iff, innermost?_eq_none]
  constructor
  · intro outside span listed
    obtain ⟨region, member, rfl⟩ := mem_rangesOf.mp listed
    exact outside region member
  · exact fun outside region member => outside region.span (mem_rangesOf.mpr ⟨region, member, rfl⟩)

theorem isHandlerOffset_eq {region : Region} (found : regions.innermost? offset = some region) :
    regions.isHandlerOffset offset = (region.kind == .catch || region.kind == .finally) := by
  unfold isHandlerOffset kindAt?
  rw [found]
  cases kind : region.kind <;> simp only [Option.map_some, kind] <;> rfl

namespace Legible

variable (legible : regions.Legible)

include legible

theorem laidOut : LaidOut regions.catches regions.finallies :=
  laidOut_of_groupsAreDisjoint (fun clause listed => (legible.ordered.catches clause listed).1)
    legible.disjoint

theorem isHandlerOffset_iff :
    regions.isHandlerOffset offset = true ↔
      (∃ clause ∈ regions.catches, clause.handler.contains offset = true) ∨
        ∃ clause ∈ regions.finallies, clause.handler.contains offset = true := by
  constructor
  · intro handled
    cases found : regions.innermost? offset with
    | none =>
      unfold isHandlerOffset kindAt? at handled
      rw [found] at handled
      cases handled
    | some region =>
      rw [isHandlerOffset_eq found] at handled
      obtain ⟨listed, inside⟩ := innermost?_mem found
      unfold all at listed
      simp only [List.mem_append, List.mem_mapIdx] at listed
      rcases listed with ((⟨position, known, rfl⟩ | ⟨position, known, rfl⟩) |
        ⟨position, known, rfl⟩) | ⟨position, known, rfl⟩
      · cases handled
      · cases handled
      · exact .inl ⟨_, List.getElem_mem known, inside⟩
      · exact .inr ⟨_, List.getElem_mem known, inside⟩
  · rintro (⟨caught, listed, inside⟩ | ⟨wrapper, listed, inside⟩)
    · obtain ⟨position, found⟩ := List.getElem?_of_mem listed
      have handler := innermost?_of_handler legible.ordered.filled legible.unnested
        (mem_clauses.mpr (.inl ⟨position, caught, found, rfl⟩)) inside
      rw [isHandlerOffset_eq handler]
      rfl
    · obtain ⟨position, found⟩ := List.getElem?_of_mem listed
      have handler := innermost?_of_handler legible.ordered.filled legible.unnested
        (mem_clauses.mpr (.inr ⟨position, wrapper, found, rfl⟩)) inside
      rw [isHandlerOffset_eq handler]
      rfl

/-- The finally that `wrappingFinally?` finds for a catch clause is the one that `Wraps` it. -/
theorem wrappingFinally?_iff {caught : CatchClause} (listed : caught ∈ regions.catches)
    {position : Nat} {around : FinallyClause} (found : regions.finallies[position]? = some around) :
    wrappingFinally? regions.catches regions.finallies caught = some position ↔
      around.Wraps regions.catches caught := by
  constructor
  · intro wrapped
    obtain ⟨starts, stops⟩ := guards_of_wrappingFinally? wrapped found
    refine ⟨starts, fun other alsoListed same => ?_⟩
    have order := legible.ordered.catches other alsoListed
    have reach := le_catchGroupEnd alsoListed
    have sameStart : around.guarded.start.toNat = other.guarded.start.toNat := by
      rw [starts, same]
    rw [← same] at stops
    exact ⟨Span.within_iff.mpr (by omega), Span.within_iff.mpr (by omega)⟩
  · rintro ⟨starts, guards⟩
    refine legible.laidOut.wrappingFinally?
      (fun clause member => (legible.ordered.finallies clause member).1) found starts ?_
    have own := (Span.within_iff.mp (guards caught listed rfl).1).2
    exact catchGroupEnd_le own fun other alsoListed same =>
      (Span.within_iff.mp (guards other alsoListed same).2).2

theorem sent_of_guarded {caught : CatchClause} (listed : caught ∈ regions.catches)
    (guards : caught.guarded.contains offset = true)
    (first : ∀ other ∈ regions.catches, other.guarded.contains offset = true →
      caught.handler.start ≤ other.handler.start) :
    (regions.exceptionTarget? offset).map regions.nameOf =
      some (.catch, some caught.handler.start) := by
  obtain ⟨position, found⟩ := List.getElem?_of_mem listed
  obtain ⟨known, same⟩ := List.getElem?_eq_some_iff.mp found
  obtain ⟨inner, innermost⟩ := innermost?_of_catch legible.ordered.filled legible.unnested
    (mem_clauses.mpr (.inl ⟨position, caught, found, rfl⟩)) rfl guards
  -- The head of the group is no later in the table, so its handler starts no later.
  have grouped : (regions.groupHead? caught.guarded).isSome := by
    rw [groupHead?, List.findIdx?_isSome]
    exact List.any_eq_true.mpr ⟨caught, listed, beq_self_eq_true _⟩
  obtain ⟨head, isHead⟩ := Option.isSome_iff_exists.mp grouped
  obtain ⟨headKnown, sameGroup, earlier⟩ := List.findIdx?_eq_some_iff_getElem.mp isHead
  have sameGuarded : regions.catches[head].guarded = caught.guarded := eq_of_beq sameGroup
  have noLater : regions.catches[head].handler.start ≤ caught.handler.start := by
    rcases Nat.lt_trichotomy position head with before | rfl | after
    · have different := earlier position before
      rw [same, beq_self_eq_true] at different
      exact absurd rfl different
    · rw [same]
      exact UInt32.le_refl _
    · have order := List.pairwise_iff_getElem.mp legible.sorted head position headKnown known after
      rw [same, CatchClause.notAfter, if_pos (congrArg Span.start sameGuarded),
        if_pos (congrArg Span.stop sameGuarded)] at order
      exact of_decide_eq_true order
  have noEarlier := first _ (List.getElem_mem headKnown) (sameGuarded ▸ guards)
  have target : regions.exceptionTarget? offset = some (.catch head) := by
    unfold exceptionTarget?
    rw [innermost]
    exact congrArg (Option.bind · fun head => some (HandlerTarget.catch head)) isHead
  rw [target]
  simp only [Option.map_some, nameOf, HandlerTarget.kind, HandlerTarget.start?,
    List.getElem?_eq_getElem headKnown, UInt32.le_antisymm noLater noEarlier]

theorem target_of_handled {position : Nat} {caught : CatchClause}
    (found : regions.catches[position]? = some caught)
    (handles : caught.handler.contains offset = true) :
    regions.exceptionTarget? offset =
      (wrappingFinally? regions.catches regions.finallies caught).map .finally := by
  have innermost := innermost?_of_handler legible.ordered.filled legible.unnested
    (mem_clauses.mpr (.inl ⟨position, caught, found, rfl⟩)) handles
  unfold exceptionTarget?
  rw [innermost]
  show ((regions.finallyAround? position).bind fun around =>
    some (HandlerTarget.finally around)) = _
  rw [finallyAround?, found, Option.map_eq_bind]
  rfl

theorem sent_of_finally {position : Nat} {around : FinallyClause}
    (found : regions.finallies[position]? = some around)
    (unguarded : ∀ other ∈ regions.catches, other.guarded.contains offset = false)
    (outside : ∀ other ∈ regions.catches, other.handler.contains offset = false)
    (guards : around.guarded.contains offset = true) :
    regions.exceptionTarget? offset = some (.finally position) := by
  have innermost := innermost?_of_guarding legible.unnested
    (mem_clauses.mpr (.inr ⟨position, around, found, rfl⟩)) guards (fun other listed isCatch => by
      rcases mem_clauses.mp listed with ⟨_, caught, isCaught, rfl⟩ | ⟨_, _, _, rfl⟩
      · exact ⟨unguarded caught (List.mem_of_getElem? isCaught),
          outside caught (List.mem_of_getElem? isCaught)⟩
      · cases isCatch) rfl
  unfold exceptionTarget?
  rw [innermost]
  rfl

theorem sent_of_sendsTo {answer : Option (HandlerKind × Option Offset)}
    (sends : SendsTo regions.catches regions.finallies offset answer) :
    (regions.exceptionTarget? offset).map regions.nameOf = answer := by
  cases sends with
  | toCatch listed guards first => exact legible.sent_of_guarded listed guards first
  | fromHandler unguarded listed handles aroundListed wraps =>
    obtain ⟨position, found⟩ := List.getElem?_of_mem listed
    obtain ⟨around, foundAround⟩ := List.getElem?_of_mem aroundListed
    rw [legible.target_of_handled found handles,
      (legible.wrappingFinally?_iff listed foundAround).mpr wraps]
    simp only [Option.map_some, nameOf, HandlerTarget.kind, HandlerTarget.start?, foundAround]
  | outOfHandler unguarded listed handles alone =>
    obtain ⟨position, found⟩ := List.getElem?_of_mem listed
    rw [legible.target_of_handled found handles]
    cases wrapped : wrappingFinally? regions.catches regions.finallies _ with
    | none => rfl
    | some around =>
      obtain ⟨known, -⟩ := List.findIdx?_eq_some_iff_getElem.mp wrapped
      have found := List.getElem?_eq_getElem known
      exact absurd ((legible.wrappingFinally?_iff listed found).mp wrapped)
        (alone _ (List.getElem_mem known))
  | toFinally unguarded outside listed guards =>
    obtain ⟨position, found⟩ := List.getElem?_of_mem listed
    rw [legible.sent_of_finally found unguarded outside guards]
    simp only [Option.map_some, nameOf, HandlerTarget.kind, HandlerTarget.start?, found]
  | nowhere unguarded outside unprotected =>
    rw [exceptionTarget?_of_unprotected unguarded outside unprotected]
    rfl

end Legible

/-- `SendsTo` always has an answer: a handler, or none. -/
theorem exists_sendsTo (catches : List CatchClause) (finallies : List FinallyClause)
    (offset : Offset) : ∃ answer, SendsTo catches finallies offset answer := by
  cases least : firstLeast? (fun clause => clause.handler.start.toNat)
      (catches.filter fun clause => clause.guarded.contains offset) with
  | some clause =>
    obtain ⟨listed, guards⟩ := List.mem_filter.mp (firstLeast?_mem least)
    refine ⟨_, .toCatch listed guards fun other alsoListed alsoGuards => ?_⟩
    exact UInt32.le_iff_toNat_le.mpr
      (firstLeast?_le least (List.mem_filter.mpr ⟨alsoListed, alsoGuards⟩))
  | none =>
    have unguarded : ∀ other ∈ catches, other.guarded.contains offset = false := by
      intro other listed
      exact eq_false_of_ne_true
        (List.filter_eq_nil_iff.mp (firstLeast?_eq_none.mp least) other listed)
    by_cases handled : ∃ clause ∈ catches, clause.handler.contains offset = true
    · obtain ⟨clause, listed, handles⟩ := handled
      by_cases wrapped : ∃ around ∈ finallies, around.Wraps catches clause
      · obtain ⟨around, aroundListed, wraps⟩ := wrapped
        exact ⟨_, .fromHandler unguarded listed handles aroundListed wraps⟩
      · exact ⟨_, .outOfHandler unguarded listed handles fun around aroundListed wraps =>
          wrapped ⟨around, aroundListed, wraps⟩⟩
    · have outside : ∀ other ∈ catches, other.handler.contains offset = false :=
        fun other listed => eq_false_of_ne_true fun handles => handled ⟨other, listed, handles⟩
      by_cases guarded : ∃ around ∈ finallies, around.guarded.contains offset = true
      · obtain ⟨around, listed, guards⟩ := guarded
        exact ⟨_, .toFinally unguarded outside listed guards⟩
      · exact ⟨_, .nowhere unguarded outside fun around listed =>
          eq_false_of_ne_true fun guards => guarded ⟨around, listed, guards⟩⟩

namespace Legible

variable (legible : regions.Legible)

include legible

theorem sent_iff (answer : Option (HandlerKind × Option Offset)) :
    (regions.exceptionTarget? offset).map regions.nameOf = answer ↔
      SendsTo regions.catches regions.finallies offset answer := by
  refine ⟨fun sent => ?_, legible.sent_of_sendsTo⟩
  obtain ⟨other, sends⟩ := exists_sendsTo regions.catches regions.finallies offset
  rw [← sent, legible.sent_of_sendsTo sends]
  exact sends

theorem blockEnd?_iff (stop : Offset) :
    regions.blockEnd? offset = some stop ↔
      ∃ span : Span, span.IsInnermost (rangesOf regions.catches regions.finallies) offset ∧
        span.stop = stop := by
  constructor
  · intro ends
    obtain ⟨region, found, stops⟩ := Option.map_eq_some_iff.mp ends
    obtain ⟨listed, inside⟩ := innermost?_mem found
    refine ⟨region.span, ⟨mem_rangesOf.mpr ⟨region, listed, rfl⟩, inside, ?_⟩, stops⟩
    intro other alsoListed holds
    obtain ⟨outer, member, rfl⟩ := mem_rangesOf.mp alsoListed
    exact legible.unnested.innermost?_within found member holds
  · rintro ⟨span, ⟨listed, inside, within⟩, rfl⟩
    obtain ⟨region, member, rfl⟩ := mem_rangesOf.mp listed
    obtain ⟨found, isFound, foundMember, holds, -⟩ := exists_innermost? member inside
    have inner := legible.unnested.innermost?_within isFound member inside
    have outer := within found.span (mem_rangesOf.mpr ⟨found, foundMember, rfl⟩) holds
    refine Option.map_eq_some_iff.mpr ⟨found, isFound, ?_⟩
    exact UInt32.le_antisymm inner.2 outer.2

theorem protects_iff {position : Nat} {clause : FinallyClause}
    (found : regions.finallies[position]? = some clause) :
    regions.protects offset position clause = true ↔ clause.guarded.contains offset = true := by
  unfold protects
  rw [Bool.or_eq_true]
  refine ⟨fun held => ?_, .inl⟩
  rcases held with guards | wrapped
  · exact guards
  · obtain ⟨caught, listed, both⟩ := List.any_eq_true.mp wrapped
    obtain ⟨wraps, handles⟩ := Bool.and_eq_true_iff.mp both
    have around := (legible.wrappingFinally?_iff listed found).mp (eq_of_beq wraps)
    exact (around.2 caught listed rfl).2.contains handles

theorem position_unique {first second : Nat} {left right : FinallyClause}
    (atFirst : regions.finallies[first]? = some left)
    (atSecond : regions.finallies[second]? = some right)
    (inLeft : left.guarded.contains offset = true)
    (inRight : right.guarded.contains offset = true) : first = second := by
  refine finally_unique legible.disjoint atFirst atSecond (Span.overlaps_iff.mpr ?_)
  have leftReach := le_reach left
  have rightReach := le_reach right
  rw [Span.contains_iff] at inLeft inRight
  simp only [FinallyClause.span]
  omega

theorem finallyForLeave?_iff (position : Nat) :
    regions.finallyForLeave? offset target = some position ↔
      ∃ clause, regions.finallies[position]? = some clause ∧
        clause.guarded.contains offset = true ∧ clause.guarded.contains target = false := by
  have candidate : ∀ {position : Nat} {clause : FinallyClause},
      (position, clause) ∈
        (regions.finallies.mapIdx fun position clause => (position, clause)).filter
        (fun one => regions.protects offset one.1 one.2 && !one.2.guarded.contains target) ↔
      regions.finallies[position]? = some clause ∧ clause.guarded.contains offset = true ∧
        clause.guarded.contains target = false := by
    intro position clause
    rw [List.mem_filter, List.mem_mapIdx, Bool.and_eq_true, Bool.not_eq_true']
    constructor
    · rintro ⟨⟨_, known, same⟩, protects, leaves⟩
      cases same
      have found := List.getElem?_eq_getElem known
      exact ⟨found, (legible.protects_iff found).mp protects, leaves⟩
    · rintro ⟨found, guards, leaves⟩
      obtain ⟨known, rfl⟩ := List.getElem?_eq_some_iff.mp found
      exact ⟨⟨position, known, rfl⟩, (legible.protects_iff found).mpr guards, leaves⟩
  constructor
  · intro found
    obtain ⟨⟨_, clause⟩, least, rfl⟩ := Option.map_eq_some_iff.mp found
    exact ⟨clause, candidate.mp (firstLeast?_mem least)⟩
  · rintro ⟨clause, found, guards, leaves⟩
    refine Option.map_eq_some_iff.mpr ⟨(position, clause), ?_, rfl⟩
    refine firstLeast?_of_forall_eq _ (candidate.mpr ⟨found, guards, leaves⟩) ?_
    rintro ⟨otherPosition, other⟩ member
    obtain ⟨otherFound, alsoGuards, -⟩ := candidate.mp member
    obtain rfl := legible.position_unique otherFound found alsoGuards guards
    cases otherFound.symm.trans found
    rfl

theorem reads (offset target : Offset) :
    regions.Reads regions.catches regions.finallies offset target where
  inHandler := legible.isHandlerOffset_iff
  sends := legible.sent_iff
  ends := legible.blockEnd?_iff
  unended := blockEnd?_eq_none
  leaves answer := by
    rw [Option.map_eq_some_iff]
    simp only [legible.finallyForLeave?_iff]
    constructor
    · rintro ⟨position, ⟨clause, found, guards, leaves⟩, rfl⟩
      refine ⟨clause, List.mem_of_getElem? found, guards, leaves, ?_⟩
      simp only [nameOf, HandlerTarget.kind, HandlerTarget.start?, found, Option.map_some]
    · rintro ⟨clause, listed, guards, leaves, rfl⟩
      obtain ⟨position, found⟩ := List.getElem?_of_mem listed
      refine ⟨position, ⟨clause, found, guards, leaves⟩, ?_⟩
      simp only [nameOf, HandlerTarget.kind, HandlerTarget.start?, found, Option.map_some]
  single := by
    rw [List.pairwise_iff_getElem]
    intro first second known alsoKnown before guards
    refine eq_false_of_ne_true fun alsoGuards => Nat.ne_of_lt before ?_
    exact legible.position_unique (List.getElem?_eq_getElem known)
      (List.getElem?_eq_getElem alsoKnown) guards alsoGuards

end Legible

end Regions

/-! ### Reading a table in any order -/

section Perm

variable {catches otherCatches : List CatchClause} {finallies otherFinallies : List FinallyClause}
  {offset target : Offset}

theorem FinallyClause.Wraps.perm {around : FinallyClause} {clause : CatchClause}
    (wraps : around.Wraps catches clause) (perm : catches.Perm otherCatches) :
    around.Wraps otherCatches clause :=
  ⟨wraps.1, fun other listed => wraps.2 other (perm.mem_iff.mpr listed)⟩

theorem SendsTo.perm {answer : Option (HandlerKind × Option Offset)}
    (sends : SendsTo catches finallies offset answer) (catchesPerm : catches.Perm otherCatches)
    (finalliesPerm : finallies.Perm otherFinallies) :
    SendsTo otherCatches otherFinallies offset answer := by
  have fromCatches : ∀ {holds : CatchClause → Prop}, (∀ clause ∈ catches, holds clause) →
      ∀ clause ∈ otherCatches, holds clause :=
    fun all clause listed => all clause (catchesPerm.mem_iff.mpr listed)
  have fromFinallies : ∀ {holds : FinallyClause → Prop}, (∀ clause ∈ finallies, holds clause) →
      ∀ clause ∈ otherFinallies, holds clause :=
    fun all clause listed => all clause (finalliesPerm.mem_iff.mpr listed)
  cases sends with
  | toCatch listed guards first =>
    exact .toCatch (catchesPerm.mem_iff.mp listed) guards (fromCatches first)
  | fromHandler unguarded listed handles aroundListed wraps =>
    exact .fromHandler (fromCatches unguarded) (catchesPerm.mem_iff.mp listed) handles
      (finalliesPerm.mem_iff.mp aroundListed) (wraps.perm catchesPerm)
  | outOfHandler unguarded listed handles alone =>
    refine .outOfHandler (fromCatches unguarded) (catchesPerm.mem_iff.mp listed) handles ?_
    exact fromFinallies fun around member wraps => alone around member (wraps.perm catchesPerm.symm)
  | toFinally unguarded outside listed guards =>
    exact .toFinally (fromCatches unguarded) (fromCatches outside)
      (finalliesPerm.mem_iff.mp listed) guards
  | nowhere unguarded outside unprotected =>
    exact .nowhere (fromCatches unguarded) (fromCatches outside) (fromFinallies unprotected)

theorem rangesOf_perm (catchesPerm : catches.Perm otherCatches)
    (finalliesPerm : finallies.Perm otherFinallies) :
    (rangesOf catches finallies).Perm (rangesOf otherCatches otherFinallies) :=
  (catchesPerm.flatMap_right _).append (finalliesPerm.flatMap_right _)

namespace Regions

variable {regions others : Regions}

/-- What `Reads` says does not depend on the order of clauses. -/
theorem Reads.perm (reads : regions.Reads catches finallies offset target)
    (catchesPerm : catches.Perm otherCatches) (finalliesPerm : finallies.Perm otherFinallies) :
    regions.Reads otherCatches otherFinallies offset target := by
  have ranges := rangesOf_perm catchesPerm finalliesPerm
  constructor
  · simp only [reads.inHandler, catchesPerm.mem_iff, finalliesPerm.mem_iff]
  · intro answer
    rw [reads.sends answer]
    exact ⟨fun sends => sends.perm catchesPerm finalliesPerm,
      fun sends => sends.perm catchesPerm.symm finalliesPerm.symm⟩
  · intro stop
    simp only [reads.ends stop, Span.IsInnermost, ranges.mem_iff]
  · simp only [reads.unended, ranges.mem_iff]
  · intro answer
    simp only [reads.leaves answer, finalliesPerm.mem_iff]
  · refine (finalliesPerm.pairwise_iff ?_).mp reads.single
    intro left right apart guards
    refine eq_false_of_ne_true fun alsoGuards => ?_
    rw [apart alsoGuards] at guards
    cases guards

/-- Regions for which `Reads` holds of the same clauses give the same `answers`. -/
theorem Reads.answers_eq (reads : regions.Reads catches finallies offset target)
    (alsoReads : others.Reads catches finallies offset target) :
    regions.answers offset target = others.answers offset target := by
  unfold answers
  congr 1
  · rw [Bool.eq_iff_iff, reads.inHandler, alsoReads.inHandler]
  · exact (reads.sends _).mpr ((alsoReads.sends _).mp rfl)
  · refine Option.ext fun stop => ?_
    rw [reads.ends, alsoReads.ends]
  · refine Option.ext fun answer => ?_
    rw [reads.leaves, alsoReads.leaves]

end Regions

end Perm

namespace Regions

variable {entries : List HandlerEntry} {instructions : List Instruction}

theorem handlersPlaced_analyze (wellFormed : ∀ entry ∈ entries, entry.WellFormed)
    (clear : entries.Pairwise HandlerEntry.ClearOf) :
    (analyze entries instructions).HandlersPlaced := by
  have ordered := wellFormed_analyze wellFormed instructions
  have late : ∀ clause ∈ (analyze entries instructions).clauses,
      clause.guarded.stop.toNat ≤ clause.handler.start.toNat := by
    intro clause listed
    rcases mem_clauses.mp listed with ⟨_, caught, found, rfl⟩ | ⟨_, wrapper, found, rfl⟩
    · exact (ordered.catches caught (List.mem_of_getElem? found)).2.1
    · exact (ordered.finallies wrapper (List.mem_of_getElem? found)).2.1
  have symmetric : ∀ {first second : CatchClause},
      (first.guarded = second.guarded → first.handler.overlaps second.handler = false) →
      second.guarded = first.guarded → second.handler.overlaps first.handler = false := by
    intro first second apart same
    rw [Span.overlaps_eq_false_iff]
    exact (Span.overlaps_eq_false_iff.mp (apart same.symm)).symm
  have read : (catchesOf entries).Pairwise fun first second =>
      first.guarded = second.guarded → first.handler.overlaps second.handler = false := by
    refine List.pairwise_filterMap.mpr (clear.imp ?_)
    exact fun apart left leftRead right rightRead => apart left leftRead right rightRead
  have apart : (analyze entries instructions).catches.Pairwise fun first second =>
      first.guarded = second.guarded → first.handler.overlaps second.handler = false :=
    ((List.mergeSort_perm _ CatchClause.notAfter).pairwise_iff symmetric).mpr read
  refine ⟨⟨fun clause listed => ?_, ?_⟩, fun clause listed early => ?_⟩
  · exact Span.overlaps_eq_false_iff.mpr (.inl (late clause listed))
  · rintro left inTable right alsoInTable different ⟨leftCatches, rightCatches, same⟩
    rcases mem_clauses.mp inTable with ⟨first, caught, found, rfl⟩ | ⟨_, _, _, rfl⟩
    · rcases mem_clauses.mp alsoInTable with ⟨second, other, otherFound, rfl⟩ | ⟨_, _, _, rfl⟩
      · obtain ⟨known, rfl⟩ := List.getElem?_eq_some_iff.mp found
        obtain ⟨alsoKnown, rfl⟩ := List.getElem?_eq_some_iff.mp otherFound
        rcases Nat.lt_trichotomy first second with before | rfl | after
        · exact List.pairwise_iff_getElem.mp apart first second known alsoKnown before same
        · exact absurd rfl different
        · have clear := List.pairwise_iff_getElem.mp apart second first alsoKnown known after
          exact symmetric clear same
      · cases rightCatches
    · cases leftCatches
  · have inhabited := ordered.filled.guarded clause listed
    have follows := late clause listed
    rw [Clause.IsEarly, UInt32.lt_iff_toNat_lt] at early
    omega

theorem legible_analyze (wellFormed : ∀ entry ∈ entries, entry.WellFormed)
    (clear : entries.Pairwise HandlerEntry.ClearOf)
    (valid : (analyze entries instructions).valid = true) :
    (analyze entries instructions).Legible := by
  have ordered := wellFormed_analyze wellFormed instructions
  have disjoint := groupsAreDisjoint_of_valid valid
  refine ⟨ordered, disjoint, sorted_analyze entries instructions, ?_⟩
  exact .of_placed ordered.filled disjoint (handlersPlaced_analyze wellFormed clear)

theorem reads_analyze (wellFormed : ∀ entry ∈ entries, entry.WellFormed)
    (clear : entries.Pairwise HandlerEntry.ClearOf)
    (valid : (analyze entries instructions).valid = true) (offset target : Offset) :
    (analyze entries instructions).Reads (catchesOf entries) (finalliesOf entries) offset target :=
  ((legible_analyze wellFormed clear valid).reads offset target).perm (List.mergeSort_perm _ _)
    (.refl _)

/-- In a valid table whose handlers follow what they guard (`HandlerEntry.WellFormed`) and do not
overlap in their groups (`HandlerEntry.ClearOf`), the lookups say what is read from its ranges
(`Reads`), and they say the same if its entries are put into another order. -/
theorem lookups_read_ranges (wellFormed : ∀ entry ∈ entries, entry.WellFormed)
    (clear : entries.Pairwise HandlerEntry.ClearOf)
    (valid : (analyze entries instructions).valid = true) :
    (∀ offset target, (analyze entries instructions).Reads (catchesOf entries)
      (finalliesOf entries) offset target) ∧
    ∀ others, entries.Perm others → (analyze others instructions).valid = true ∧
      ∀ offset target, (analyze others instructions).answers offset target =
        (analyze entries instructions).answers offset target := by
  have reads := reads_analyze wellFormed clear valid
  refine ⟨reads, fun others perm => ?_⟩
  have otherWellFormed : ∀ entry ∈ others, entry.WellFormed :=
    fun entry member => wellFormed entry (perm.mem_iff.mpr member)
  have otherClear : others.Pairwise HandlerEntry.ClearOf := by
    refine (perm.pairwise_iff ?_).mp clear
    intro first second apart left leftRead right rightRead same
    rw [Span.overlaps_eq_false_iff]
    exact (Span.overlaps_eq_false_iff.mp (apart right rightRead left leftRead same.symm)).symm
  have otherValid := valid_analyze_perm wellFormed perm valid
  refine ⟨otherValid, fun offset target => ?_⟩
  have otherReads := reads_analyze otherWellFormed otherClear otherValid offset target
  exact (otherReads.perm (perm.filterMap _).symm (perm.filterMap _).symm).answers_eq
    (reads offset target)

theorem lookups_read_guardedEntries :
    (∀ entry ∈ guardedEntries, entry.WellFormed) ∧ guardedEntries.Pairwise HandlerEntry.ClearOf ∧
      (analyze guardedEntries []).valid = true ∧
      (analyze guardedEntries []).Reads (catchesOf guardedEntries) (finalliesOf guardedEntries)
        1 6 ∧
      (analyze guardedEntries.reverse []).answers 1 6 =
        (analyze guardedEntries []).answers 1 6 := by
  have wellFormed : ∀ entry ∈ guardedEntries, entry.WellFormed := by decide
  have clear : guardedEntries.Pairwise HandlerEntry.ClearOf := by decide
  have valid : (analyze guardedEntries []).valid = true := by
    rw [analyze_guardedEntries]
    rfl
  obtain ⟨reads, reordered⟩ := lookups_read_ranges wellFormed clear valid
  exact ⟨wellFormed, clear, valid, reads 1 6,
    (reordered _ (List.reverse_perm _).symm).2 1 6⟩

end Regions

end BytecodeFlow

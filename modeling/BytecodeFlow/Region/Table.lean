/-
This file reads the exception table of a method body as catch clauses and
finally clauses, in the order in which they are looked up (`Regions.analyze`),
and decides whether their layout is one that can be expressed: groups of
regions may overlap only where a finally wraps a whole group of catches
(`groupsAreDisjoint`), and a finally must not end by throwing
(`FinallyClause.endsWithThrow`).
-/

import BytecodeFlow.Metadata.Assembly

namespace BytecodeFlow

/-- A range of offsets; its end is not part of it. -/
structure Span where
  start : Offset
  stop : Offset
deriving DecidableEq, Repr

namespace Span

def contains (span : Span) (offset : Offset) : Bool :=
  span.start ≤ offset && offset < span.stop

/-- The difference of the ends. It is taken among offsets, so it wraps around where the end comes
before the start. -/
def width (span : Span) : Nat := (span.stop - span.start).toNat

/-- Whether two ranges have an offset in common, if neither is empty. -/
def overlaps (left right : Span) : Bool :=
  left.start < right.stop && right.start < left.stop

end Span

/-- A handler for the exceptions of one type that its guarded range raises. -/
structure CatchClause where
  guarded : Span
  handler : Span
  catchType : String
deriving DecidableEq, Repr

/-- A handler that runs whichever way its guarded range is left. -/
structure FinallyClause where
  guarded : Span
  handler : Span
deriving DecidableEq, Repr

/-- The type whose exceptions a clause without a type catches. -/
def defaultCatchType : String := "System.Exception"

/-- The order in which catch clauses are tried: by guarded range, then by handler. -/
def CatchClause.notAfter (left right : CatchClause) : Bool :=
  if left.guarded.start = right.guarded.start then
    if left.guarded.stop = right.guarded.stop then left.handler.start ≤ right.handler.start
    else left.guarded.stop < right.guarded.stop
  else left.guarded.start < right.guarded.start

/-! ### Reading the table -/

/-- The handler range of a table entry, if it is complete. -/
def HandlerEntry.handlerSpan? (entry : HandlerEntry) : Option Span := do
  return ⟨← entry.handlerStart, ← entry.handlerEnd⟩

def HandlerEntry.guarded (entry : HandlerEntry) : Span := ⟨entry.tryStart, entry.tryEnd⟩

/-- The catch clause of a table entry. -/
def HandlerEntry.catchClause? (entry : HandlerEntry) : Option CatchClause := do
  let handler ← entry.handlerSpan?
  if entry.kind = .catch then
    return ⟨entry.guarded, handler, entry.catchType.getD defaultCatchType⟩
  else none

/-- The finally clause of a table entry. -/
def HandlerEntry.finallyClause? (entry : HandlerEntry) : Option FinallyClause := do
  let handler ← entry.handlerSpan?
  if entry.kind = .finally then return ⟨entry.guarded, handler⟩ else none

/-- Whether a table entry is neither a catch nor a finally with a complete handler range. -/
def HandlerEntry.isUnhandled (entry : HandlerEntry) : Bool :=
  entry.catchClause?.isNone && entry.finallyClause?.isNone

/-- The offsets at which the ranges of a handled table entry begin and end. -/
def HandlerEntry.boundaries (entry : HandlerEntry) : List Offset :=
  match entry.handlerSpan? with
  | some handler =>
    if entry.isUnhandled then []
    else [entry.tryStart, entry.tryEnd, handler.start, handler.stop]
  | none => []

/-- The protected regions of a method body. -/
structure Regions where
  /-- Ordered by `CatchClause.notAfter`. -/
  catches : List CatchClause
  /-- In the order of the table. -/
  finallies : List FinallyClause
  /-- Where a range begins or ends, in the order of the table. -/
  boundaries : List Offset
  /-- Whether the table has an entry that no clause stands for. -/
  unhandled : Bool
  /-- Whether the layout can be expressed. -/
  valid : Bool
deriving DecidableEq, Repr

/-! ### Groups of catch clauses -/

/-- The catch clauses with the given guarded range. -/
def catchGroup (catches : List CatchClause) (guarded : Span) : List CatchClause :=
  catches.filter fun clause => clause.guarded = guarded

/-- The end of what a clause covers, its handler included. -/
def CatchClause.reach (clause : CatchClause) : Offset := max clause.handler.stop clause.guarded.stop

def FinallyClause.reach (clause : FinallyClause) : Offset :=
  max clause.handler.stop clause.guarded.stop

/-- The end of a group of catch clauses, handlers included. -/
def catchGroupEnd (catches : List CatchClause) (guarded : Span) : Offset :=
  (catchGroup catches guarded).foldl (fun stop clause => max stop clause.reach) guarded.stop

/-- The position of the finally clause that wraps the group of a catch clause, if there is one:
it starts with the group and guards all of it. -/
def wrappingFinally? (catches : List CatchClause) (finallies : List FinallyClause)
    (clause : CatchClause) : Option Nat :=
  finallies.findIdx? fun candidate =>
    candidate.guarded.start == clause.guarded.start &&
      catchGroupEnd catches clause.guarded ≤ candidate.guarded.stop

/-! ### Layout -/

/-- What a group of regions covers: a group of catch clauses, or the finally clause at a
position. -/
structure Extent where
  span : Span
  finally? : Option Nat
deriving DecidableEq, Repr

/-- The extents of the catch groups, one for each guarded range. -/
def catchExtents (catches : List CatchClause) : List Extent :=
  (catches.map CatchClause.guarded).eraseDups.map fun guarded =>
    ⟨⟨guarded.start, catchGroupEnd catches guarded⟩, none⟩

def finallyExtents (finallies : List FinallyClause) : List Extent :=
  finallies.mapIdx fun position clause => ⟨⟨clause.guarded.start, clause.reach⟩, some position⟩

/-- Whether two extents, in this order, may be in one table: they are apart, or the second is the
finally clause that wraps a group of catch clauses at the start of the first. -/
def Extent.compatible (catches : List CatchClause) (finallies : List FinallyClause)
    (left right : Extent) : Bool :=
  if left.span.overlaps right.span then
    match left.finally?, right.finally? with
    | none, some position =>
      catches.any fun clause =>
        clause.guarded.start == left.span.start &&
          wrappingFinally? catches finallies clause == some position
    | _, _ => false
  else true

/-- Whether each extent is compatible with all that follow. -/
def allCompatible (catches : List CatchClause) (finallies : List FinallyClause) :
    List Extent → Bool
  | [] => true
  | extent :: rest =>
    rest.all (extent.compatible catches finallies) && allCompatible catches finallies rest

/-- Whether groups of regions overlap only where a finally wraps catches. -/
def groupsAreDisjoint (catches : List CatchClause) (finallies : List FinallyClause) : Bool :=
  allCompatible catches finallies (catchExtents catches ++ finallyExtents finallies)

/-- Whether the last instruction of a finally handler, in stream order, throws. -/
def FinallyClause.endsWithThrow (instructions : List Instruction) (clause : FinallyClause) :
    Bool :=
  match (instructions.filter fun instruction => clause.handler.contains instruction.offset).getLast?
    with
  | some last => last.opcode == .throw
  | none => false

namespace Regions

/-- The protected regions of a body with the given exception table. -/
def analyze (entries : List HandlerEntry) (instructions : List Instruction) : Regions :=
  let catches := (entries.filterMap HandlerEntry.catchClause?).mergeSort CatchClause.notAfter
  let finallies := entries.filterMap HandlerEntry.finallyClause?
  { catches
    finallies
    boundaries := entries.flatMap HandlerEntry.boundaries
    unhandled := entries.any HandlerEntry.isUnhandled
    valid := groupsAreDisjoint catches finallies &&
      !finallies.any (FinallyClause.endsWithThrow instructions) }

end Regions

end BytecodeFlow

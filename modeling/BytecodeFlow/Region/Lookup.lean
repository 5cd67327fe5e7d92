/-
This file answers questions about single offsets: the innermost region that
holds an offset (`innermost?`), the handler that an exception raised there goes
to (`exceptionTarget?`), and the finally that has to run before control may
leave it (`finallyForLeave?`).
-/

import BytecodeFlow.Region.Table

namespace BytecodeFlow

inductive RegionKind where
  | tryCatch
  | tryFinally
  | catch
  | finally
deriving DecidableEq, Repr

/-- A range of a clause: the guarded range or the handler of the clause at a position. -/
structure Region where
  kind : RegionKind
  position : Nat
  span : Span
deriving DecidableEq, Repr

/-- The handler an exception goes to, by the position of its clause. -/
inductive HandlerTarget where
  | catch (position : Nat)
  | finally (position : Nat)
deriving DecidableEq, Repr

/-- The first of the elements with the least measure. -/
def firstLeast? {α : Type} (measure : α → Nat) (elements : List α) : Option α :=
  elements.foldl
    (fun best element =>
      match best with
      | none => some element
      | some least => if measure element < measure least then some element else some least)
    none

namespace Regions

/-- All ranges: what catches guard, what finallies guard, catch handlers, finally handlers. -/
def all (regions : Regions) : List Region :=
  regions.catches.mapIdx (fun position clause => ⟨.tryCatch, position, clause.guarded⟩) ++
  regions.finallies.mapIdx (fun position clause => ⟨.tryFinally, position, clause.guarded⟩) ++
  regions.catches.mapIdx (fun position clause => ⟨.catch, position, clause.handler⟩) ++
  regions.finallies.mapIdx (fun position clause => ⟨.finally, position, clause.handler⟩)

/-- The narrowest range that holds an offset, the first of them if there are several. -/
def innermost? (regions : Regions) (offset : Offset) : Option Region :=
  firstLeast? (fun region => region.span.width)
    (regions.all.filter fun region => region.span.contains offset)

/-- The kind of the innermost range. -/
def kindAt? (regions : Regions) (offset : Offset) : Option RegionKind :=
  (regions.innermost? offset).map Region.kind

/-- The end of the innermost range. -/
def blockEnd? (regions : Regions) (offset : Offset) : Option Offset :=
  (regions.innermost? offset).map fun region => region.span.stop

/-- Whether an offset lies in a handler and in no narrower range. -/
def isHandlerOffset (regions : Regions) (offset : Offset) : Bool :=
  match regions.kindAt? offset with
  | some .catch => true
  | some .finally => true
  | _ => false

/-! ### Links between clauses -/

/-- The position of the first clause of the group of a guarded range. -/
def groupHead? (regions : Regions) (guarded : Span) : Option Nat :=
  regions.catches.findIdx? fun clause => clause.guarded == guarded

/-- The position of the finally that wraps the group of the catch clause at a position. -/
def finallyAround? (regions : Regions) (position : Nat) : Option Nat := do
  let clause ← regions.catches[position]?
  wrappingFinally? regions.catches regions.finallies clause

/-- The position of the clause that is tried after the catch clause at a position. -/
def nextInGroup? (regions : Regions) (position : Nat) : Option Nat := do
  let clause ← regions.catches[position]?
  let next ← regions.catches[position + 1]?
  if next.guarded = clause.guarded then some (position + 1) else none

/-! ### Where exceptions and leaves go -/

/-- The handler of an exception raised at an offset; `none` when no handler of the method gets
it. -/
def exceptionTarget? (regions : Regions) (offset : Offset) : Option HandlerTarget := do
  let region ← regions.innermost? offset
  match region.kind with
  | .tryCatch => return .catch (← regions.groupHead? region.span)
  | .tryFinally => return .finally region.position
  | .catch => return .finally (← regions.finallyAround? region.position)
  | .finally => none

/-- Whether an offset is under the protection of the finally clause at a position: in its guarded
range, or in the handler of a catch that it wraps. -/
def protects (regions : Regions) (offset : Offset) (position : Nat) (clause : FinallyClause) :
    Bool :=
  clause.guarded.contains offset ||
    regions.catches.any fun caught =>
      wrappingFinally? regions.catches regions.finallies caught == some position &&
        caught.handler.contains offset

/-- The position of the finally that has to run when control leaves from an offset to a
target. -/
def finallyForLeave? (regions : Regions) (offset target : Offset) : Option Nat :=
  (firstLeast? (fun (_, clause) => clause.guarded.width)
    ((regions.finallies.mapIdx fun position clause => (position, clause)).filter
      fun (position, clause) =>
        regions.protects offset position clause && !clause.guarded.contains target)).map Prod.fst

end Regions

end BytecodeFlow

/-
This file compares the variables of a method with those of its procedure, which
go by names. As long as the names of the parameters differ from each other and
from all other names (`NamesApart`), two variables never share a name, and what
is done to a variable is done to the one of its name: the two scenes stay
mirrors of each other (`Mirrors`), whatever is done to both.
-/

import Std.Data.String.ToNat
import BytecodeFlow.Proofs.Execution.Bytecode

namespace BytecodeFlow

/-! ### Names -/

theorem localName_injective {first second : Nat} (same : localName first = localName second) :
    first = second := by
  have digits : toString first = toString second := (String.append_right_inj "V_").mp same
  exact Nat.repr_injective digits

theorem localName_ne {name : String} {index : Nat} (initial : name.toList.head? ≠ some 'V') :
    localName index ≠ name := by
  rintro rfl
  refine initial ?_
  unfold localName
  rw [String.toList_append]
  rfl

namespace Routine

/-- The names of the parameters differ from each other, from `thisName` and `returnName`, and from
each `localName`. -/
structure NamesApart (routine : Routine) : Prop where
  distinct : (routine.method.parameters.map Parameter.name).Nodup
  reserved : ∀ parameter ∈ routine.method.parameters, parameter.name ≠ thisName ∧
    parameter.name ≠ returnName ∧
      ∀ index < routine.locals.length, parameter.name ≠ localName index

/-- The name that `slot?` gives a variable of the method. -/
def nameOf (routine : Routine) (slot : Slot) : String :=
  match routine.slot? slot with
  | some (name, _) => name
  | none => ""

variable {routine : Routine} {slot other : Slot} {name : String} {typ otherTyp : Typ}

theorem nameOf_eq (known : routine.slot? slot = some (name, typ)) : routine.nameOf slot = name := by
  unfold nameOf
  rw [known]

theorem parameter?_eq_some {index : Nat} (known : routine.parameter? index = some (name, typ)) :
    ∃ parameter, routine.method.parameters[index]? = some parameter ∧ parameter.name = name := by
  unfold parameter? at known
  obtain ⟨parameter, found, same⟩ := Option.bind_eq_some_iff.mp known
  cases same
  exact ⟨parameter, found, rfl⟩

/-- Where the name in `slot?` comes from. -/
inductive Named (routine : Routine) : Slot → String → Prop
  | receiver (instanceMethod : routine.method.hasThis = true) :
    Named routine (.argument 0) thisName
  | parameter (index : Nat) (shift : Nat)
    (shifted : shift = if routine.method.hasThis then 1 else 0) (parameter : Parameter)
    (found : routine.method.parameters[index]? = some parameter) :
    Named routine (.argument (index + shift)) parameter.name
  | localVariable (index : Nat) (known : index < routine.locals.length) :
    Named routine (.localVariable index) (localName index)

theorem named_of_slot? (known : routine.slot? slot = some (name, typ)) :
    Named routine slot name := by
  cases slot with
  | argument index =>
    change routine.argument? index = some (name, typ) at known
    unfold argument? at known
    split at known
    · rename_i instanceMethod
      cases index with
      | zero =>
        cases known
        exact .receiver instanceMethod
      | succ index =>
        obtain ⟨parameter, found, rfl⟩ := parameter?_eq_some known
        exact .parameter index 1 (if_pos instanceMethod).symm parameter found
    · rename_i staticMethod
      obtain ⟨parameter, found, rfl⟩ := parameter?_eq_some known
      exact .parameter index 0 (if_neg staticMethod).symm parameter found
  | localVariable index =>
    obtain ⟨typeName, found, same⟩ := Option.bind_eq_some_iff.mp known
    cases same
    exact .localVariable index (List.getElem?_eq_some_iff.mp found).1

/-- Two variables are not `Named` alike. -/
theorem NamesApart.eq_of_named (apart : routine.NamesApart) (one : Named routine slot name)
    (two : Named routine other name) : slot = other := by
  cases one with
  | receiver =>
    generalize same : thisName = name at two
    cases two with
    | receiver => rfl
    | parameter index shift shifted parameter found =>
      exact absurd same.symm (apart.reserved parameter (List.mem_of_getElem? found)).1
    | localVariable index => exact absurd same.symm (localName_ne (by decide))
  | parameter index shift shifted parameter found =>
    generalize same : parameter.name = name at two
    obtain ⟨notThis, -, notLocal⟩ := apart.reserved parameter (List.mem_of_getElem? found)
    cases two with
    | receiver => exact absurd same notThis
    | parameter otherIndex otherShift otherShifted otherParameter otherFound =>
      have first : (routine.method.parameters.map Parameter.name)[index]? =
          some parameter.name := by
        rw [List.getElem?_map, found]
        rfl
      have second : (routine.method.parameters.map Parameter.name)[otherIndex]? =
          some parameter.name := by
        rw [List.getElem?_map, otherFound, same]
        rfl
      have within := (List.getElem?_eq_some_iff.mp first).1
      have sameIndex := (List.getElem?_inj within apart.distinct).mp (first.trans second.symm)
      rw [sameIndex, shifted, otherShifted]
    | localVariable otherIndex known => exact absurd same (notLocal otherIndex known)
  | localVariable index known =>
    generalize same : localName index = name at two
    cases two with
    | receiver => exact absurd same (localName_ne (by decide))
    | parameter otherIndex otherShift otherShifted parameter found =>
      exact absurd same.symm
        ((apart.reserved parameter (List.mem_of_getElem? found)).2.2 index known)
    | localVariable otherIndex => rw [localName_injective same]

theorem NamesApart.ne_returnName (apart : routine.NamesApart) (named : Named routine slot name) :
    name ≠ returnName := by
  cases named with
  | receiver => decide
  | parameter index shift shifted parameter found =>
    exact (apart.reserved parameter (List.mem_of_getElem? found)).2.1
  | localVariable index => exact localName_ne (by decide)

/-! ### Addresses of variables -/

theorem parameter_eq_ok {offset : Offset} {index : Nat} {address : Expr}
    (place : routine.parameter offset index = .ok (address, typ)) :
    ∃ name, address = .frame name ∧ routine.parameter? index = some (name, typ) := by
  unfold parameter at place
  cases found : routine.method.parameters[index]? with
  | none =>
    rw [found] at place
    cases place
  | some parameter =>
    rw [found] at place
    cases place
    refine ⟨parameter.name, rfl, ?_⟩
    unfold parameter?
    rw [found]
    rfl

theorem argument_eq_ok {offset : Offset} {index : Nat} {address : Expr}
    (place : routine.argument offset index = .ok (address, typ)) :
    ∃ name, address = .frame name ∧ routine.slot? (.argument index) = some (name, typ) := by
  unfold argument at place
  change ∃ name, _ ∧ routine.argument? index = some (name, typ)
  unfold argument?
  split at place
  · rename_i instanceMethod
    rw [if_pos instanceMethod]
    cases index with
    | zero =>
      cases place
      exact ⟨thisName, rfl, rfl⟩
    | succ index => exact parameter_eq_ok place
  · rename_i staticMethod
    rw [if_neg staticMethod]
    exact parameter_eq_ok place

theorem localVariable_eq_ok {offset : Offset} {index : Nat} {address : Expr}
    (place : routine.localVariable offset index = .ok (address, typ)) :
    ∃ name, address = .frame name ∧ routine.slot? (.localVariable index) = some (name, typ) := by
  unfold localVariable at place
  rw [slot?]
  cases found : routine.locals[index]? with
  | none =>
    rw [found] at place
    cases place
  | some typeName =>
    rw [found] at place
    cases place
    exact ⟨localName index, rfl, rfl⟩

end Routine

/-! ### Mirrored scenes -/

namespace Scene

variable {V W : Type}

/-- The scene of a method and the scene of its procedure hold the same, under the names of `nameOf`.
The procedure may have done something before. -/
structure Mirrors (routine : Routine) (earlier : List (Effect String V))
    (inner : Scene Slot V W) (outer : Scene String V W) : Prop where
  cells : ∀ slot name typ, routine.slot? slot = some (name, typ) →
    outer.cells name = inner.cells slot
  world : outer.world = inner.world
  history : outer.history = earlier ++ inner.history.map (Effect.rename routine.nameOf)

namespace Mirrors

variable {routine : Routine} {earlier : List (Effect String V)} {inner : Scene Slot V W}
  {outer : Scene String V W} {slot : Slot} {name : String} {typ : Typ}

/-- The histories grow by the same effect. -/
theorem record (mirrors : Mirrors routine earlier inner outer) (effect : Effect Slot V) :
    outer.history ++ [effect.rename routine.nameOf] =
      earlier ++ (inner.history ++ [effect]).map (Effect.rename routine.nameOf) := by
  rw [mirrors.history, List.map_append, List.append_assoc]
  rfl

theorem read (mirrors : Mirrors routine earlier inner outer)
    (known : routine.slot? slot = some (name, typ)) :
    (outer.read name).1 = (inner.read slot).1 ∧
      Mirrors routine earlier (inner.read slot).2 (outer.read name).2 := by
  have same := mirrors.cells slot name typ known
  refine ⟨same, mirrors.cells, mirrors.world, ?_⟩
  have recorded := mirrors.record (.readVariable slot (inner.cells slot))
  rw [Effect.rename, Routine.nameOf_eq known] at recorded
  show outer.history ++ [.readVariable name (outer.cells name)] = _
  rw [same]
  exact recorded

theorem write (mirrors : Mirrors routine earlier inner outer) (apart : routine.NamesApart)
    (known : routine.slot? slot = some (name, typ)) (value : V) :
    Mirrors routine earlier (inner.write slot value) (outer.write name value) := by
  refine ⟨?_, mirrors.world, ?_⟩
  · intro other otherName otherTyp otherKnown
    show Function.update outer.cells name value otherName =
      Function.update inner.cells slot value other
    by_cases same : other = slot
    · subst same
      cases known.symm.trans otherKnown
      rw [Function.update_self, Function.update_self]
    · have differs : otherName ≠ name := by
        rintro rfl
        exact same (apart.eq_of_named (Routine.named_of_slot? otherKnown)
          (Routine.named_of_slot? known))
      rw [Function.update_of_ne differs, Function.update_of_ne same]
      exact mirrors.cells other otherName otherTyp otherKnown
  · have recorded := mirrors.record (.writeVariable slot value)
    rw [Effect.rename, Routine.nameOf_eq known] at recorded
    exact recorded

variable (interpretation : Interpretation V W)

theorem readField (mirrors : Mirrors routine earlier inner outer) (place : Place V) :
    (outer.readField interpretation place).1 = (inner.readField interpretation place).1 ∧
      Mirrors routine earlier (inner.readField interpretation place).2
        (outer.readField interpretation place).2 := by
  unfold Scene.readField
  rw [mirrors.world]
  exact ⟨rfl, mirrors.cells, rfl,
    mirrors.record (.readField place (interpretation.readField place inner.world).1)⟩

theorem writeField (mirrors : Mirrors routine earlier inner outer) (place : Place V) (value : V) :
    Mirrors routine earlier (inner.writeField interpretation place value)
      (outer.writeField interpretation place value) := by
  unfold Scene.writeField
  rw [mirrors.world]
  exact ⟨mirrors.cells, rfl, mirrors.record (.writeField place value)⟩

theorem allocate (mirrors : Mirrors routine earlier inner outer) (typ : Typ) :
    (outer.allocate interpretation typ).1 = (inner.allocate interpretation typ).1 ∧
      Mirrors routine earlier (inner.allocate interpretation typ).2
        (outer.allocate interpretation typ).2 := by
  unfold Scene.allocate
  rw [mirrors.world]
  exact ⟨rfl, mirrors.cells, rfl,
    mirrors.record (.allocate typ (interpretation.allocate typ inner.world).1)⟩

theorem call (mirrors : Mirrors routine earlier inner outer) (callee : String)
    (arguments : List V) (isVirtual : Bool) :
    (outer.call interpretation callee arguments isVirtual).1 =
        (inner.call interpretation callee arguments isVirtual).1 ∧
      Mirrors routine earlier (inner.call interpretation callee arguments isVirtual).2
        (outer.call interpretation callee arguments isVirtual).2 := by
  unfold Scene.call
  rw [mirrors.world]
  exact ⟨rfl, mirrors.cells, rfl, mirrors.record (.call callee arguments isVirtual
    (interpretation.call callee arguments isVirtual inner.world).1)⟩

end Mirrors

end Scene

end BytecodeFlow

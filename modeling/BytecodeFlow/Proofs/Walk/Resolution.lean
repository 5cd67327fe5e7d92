/-
This file says once what an instruction can resolve to, as `Resolves`: for each
operation code the operands it needs, the values it takes off the operand
stack, and the operation that is left to do. Everything that depends on the
instruction behind an operation is read off from here.
-/

import Mathlib.Tactic.Common
import BytecodeFlow.Walk.Operation

namespace BytecodeFlow

/-- The steps of a computation that succeeds. -/
theorem except_bind_eq_ok {α β : Type} {first : Except Fault α} {next : α → Except Fault β}
    {result : β} :
    (first >>= next) = .ok result ↔ ∃ value, first = .ok value ∧ next value = .ok result := by
  cases first with
  | error fault =>
    constructor
    · intro impossible
      cases impossible
    · rintro ⟨_, impossible, _⟩
      cases impossible
  | ok value =>
    constructor
    · exact fun done => ⟨value, rfl, done⟩
    · rintro ⟨_, ⟨⟩, done⟩
      exact done

theorem except_map_eq_ok {α β : Type} {first : Except Fault α} {function : α → β} {result : β} :
    (function <$> first) = .ok result ↔ ∃ value, first = .ok value ∧ function value = result := by
  cases first with
  | error fault =>
    constructor
    · intro impossible
      cases impossible
    · rintro ⟨_, impossible, _⟩
      cases impossible
  | ok value =>
    constructor
    · intro done
      exact ⟨value, rfl, Except.ok.inj done⟩
    · rintro ⟨_, ⟨⟩, rfl⟩
      rfl

namespace Operation

/-- The steps of a computation that takes the topmost value and succeeds. -/
theorem pop_bind_eq_ok {β : Type} {offset : Offset} {stack : List Value}
    {next : Value × List Value → Except Fault β} {result : β} :
    (pop offset stack >>= next) = .ok result ↔
      ∃ top rest, stack = top :: rest ∧ next (top, rest) = .ok result := by
  cases stack with
  | nil =>
    constructor
    · intro impossible
      cases impossible
    · rintro ⟨_, _, impossible, _⟩
      cases impossible
  | cons top rest =>
    constructor
    · exact fun done => ⟨top, rest, rfl, done⟩
    · rintro ⟨_, _, ⟨⟩, done⟩
      exact done

theorem popMany_eq_ok {offset : Offset} {count : Nat} {stack arguments rest : List Value} :
    popMany offset count stack = .ok (arguments, rest) ↔
      stack = arguments.reverse ++ rest ∧ arguments.length = count := by
  unfold popMany
  constructor
  · intro taken
    split at taken
    · cases taken
    · rename_i enough
      cases taken
      refine ⟨by simp, ?_⟩
      rw [List.length_reverse, List.length_take]
      omega
  · rintro ⟨rfl, rfl⟩
    have enough : ¬ (arguments.reverse ++ rest).length < arguments.length := by simp
    rw [if_neg enough, ← List.length_reverse, List.take_left, List.drop_left, List.reverse_reverse]

/-- The constants that instructions push. -/
inductive Constant (instruction : Instruction) : Expr → Typ → Prop
  | shortInt {value : Int64} (opcode : instruction.opcode = .ldcI4 (some value)) :
    Constant instruction (.int value.toInt) .int32
  | int {value : Int64} (opcode : instruction.opcode = .ldcI4 none)
    (operand : integer instruction = .ok value) : Constant instruction (.int value.toInt) .int32
  | long {value : Int64} (opcode : instruction.opcode = .ldcI8)
    (operand : integer instruction = .ok value) :
    Constant instruction (.int value.toInt) (.int .i64)
  | single {value : Binary64} (opcode : instruction.opcode = .ldcR4)
    (operand : float instruction = .ok value) :
    Constant instruction (.const (.float value)) (.float .single)
  | double {value : Binary64} (opcode : instruction.opcode = .ldcR8)
    (operand : float instruction = .ok value) :
    Constant instruction (.const (.float value)) (.float .double)
  | string {value : String} (opcode : instruction.opcode = .ldstr)
    (operand : string instruction = .ok value) :
    Constant instruction (.const (.string value)) (.ofName "System.String")
  | null (opcode : instruction.opcode = .ldnull) : Constant instruction .null .object

/-- The operations on values that stay on the operand stack. -/
inductive Combines (instruction : Instruction) : List Value → List Value → Prop
  | nop {stack : List Value} (opcode : instruction.opcode = .nop) :
    Combines instruction stack stack
  | constant {stack : List Value} {expr : Expr} {typ : Typ}
    (pushes : Constant instruction expr typ) : Combines instruction stack (⟨expr, typ⟩ :: stack)
  | dup {top : Value} {stack : List Value} (opcode : instruction.opcode = .dup) :
    Combines instruction (top :: stack) (top :: top :: stack)
  | pop {top : Value} {stack : List Value} (opcode : instruction.opcode = .pop) :
    Combines instruction (top :: stack) stack
  | binary {left right : Value} {stack : List Value} {operator : BinaryOperator}
    (opcode : instruction.opcode = .binary operator) :
    Combines instruction (right :: left :: stack)
      (⟨.binary operator left.expr right.expr, left.typ⟩ :: stack)
  | compare {left right : Value} {stack : List Value} {operator : BinaryOperator}
    (opcode : instruction.opcode = .compare operator) :
    Combines instruction (right :: left :: stack)
      (⟨.binary operator left.expr right.expr, .int32⟩ :: stack)
  | negate {operand : Value} {stack : List Value} (opcode : instruction.opcode = .neg) :
    Combines instruction (operand :: stack)
      (⟨.unary .negate operand.expr, operand.typ⟩ :: stack)
  | bitNot {operand : Value} {stack : List Value} (opcode : instruction.opcode = .not) :
    Combines instruction (operand :: stack)
      (⟨.unary .bitNot operand.expr, operand.typ⟩ :: stack)

/-- What an instruction resolves to on an operand stack: an `Operation`, and the stack that is left
for it. -/
inductive Resolves (routine : Routine) (instruction : Instruction) :
    List Value → Operation → List Value → Prop
  | combine {stack after : List Value} (combines : Combines instruction stack after) :
    Resolves routine instruction stack .proceed after
  | ldarg {stack : List Value} {position : Option Nat} {index : Nat} {address : Expr} {typ : Typ}
    (opcode : instruction.opcode = .ldarg position)
    (which : indexOr instruction position = .ok index)
    (place : routine.argument instruction.offset index = .ok (address, typ)) :
    Resolves routine instruction stack (.load address typ) stack
  | starg {value : Value} {stack : List Value} {index : Nat} {address : Expr} {typ : Typ}
    (opcode : instruction.opcode = .starg) (which : Operation.index instruction = .ok index)
    (place : routine.argument instruction.offset index = .ok (address, typ)) :
    Resolves routine instruction (value :: stack) (.store address typ value.expr) stack
  | ldloc {stack : List Value} {position : Option Nat} {index : Nat} {address : Expr} {typ : Typ}
    (opcode : instruction.opcode = .ldloc position)
    (which : indexOr instruction position = .ok index)
    (place : routine.localVariable instruction.offset index = .ok (address, typ)) :
    Resolves routine instruction stack (.load address typ) stack
  | stloc {value : Value} {stack : List Value} {position : Option Nat} {index : Nat}
    {address : Expr} {typ : Typ} (opcode : instruction.opcode = .stloc position)
    (which : indexOr instruction position = .ok index)
    (place : routine.localVariable instruction.offset index = .ok (address, typ)) :
    Resolves routine instruction (value :: stack) (.store address typ value.expr) stack
  | br {stack : List Value} {target : Offset} (opcode : instruction.opcode = .br)
    (operand : instruction.operand = .target target) :
    Resolves routine instruction stack (.jump target) stack
  | test {value : Value} {stack : List Value} {expected : Bool} {target : Offset}
    (opcode : instruction.opcode = if expected then .brtrue else .brfalse)
    (operand : instruction.operand = .target target) :
    Resolves routine instruction (value :: stack) (.branch (truth value expected) target) stack
  | branch {left right : Value} {stack : List Value} {operator : BinaryOperator} {target : Offset}
    (opcode : instruction.opcode = .branch operator)
    (operand : instruction.operand = .target target) :
    Resolves routine instruction (right :: left :: stack)
      (.branch (.binary operator left.expr right.expr) target) stack
  | switch {value : Value} {stack : List Value} {targets : List Offset}
    (opcode : instruction.opcode = .switch) (operand : instruction.operand = .targets targets) :
    Resolves routine instruction (value :: stack) (.select value.expr targets) stack
  | call {arguments stack : List Value} {isVirtual : Bool} {callee : MethodRef}
    (opcode : instruction.opcode = if isVirtual then .callvirt else .call)
    (operand : instruction.operand = .method callee)
    (count : arguments.length = callee.parameters.length + if callee.hasThis then 1 else 0) :
    Resolves routine instruction (arguments.reverse ++ stack) (.invoke callee arguments isVirtual)
      stack
  | newobj {arguments stack : List Value} {callee : MethodRef}
    (opcode : instruction.opcode = .newobj) (operand : instruction.operand = .method callee)
    (count : arguments.length = callee.parameters.length) :
    Resolves routine instruction (arguments.reverse ++ stack) (.construct callee arguments) stack
  | ldfld {base : Value} {stack : List Value} {member : FieldRef}
    (opcode : instruction.opcode = .ldfld) (operand : instruction.operand = .field member) :
    Resolves routine instruction (base :: stack)
      (.load (fieldAddress base.expr member) (.ofName member.fieldType)) stack
  | ldsfld {stack : List Value} {member : FieldRef} (opcode : instruction.opcode = .ldsfld)
    (operand : instruction.operand = .field member) :
    Resolves routine instruction stack
      (.load (fieldAddress (staticBase member) member) (.ofName member.fieldType)) stack
  | stfld {base value : Value} {stack : List Value} {member : FieldRef}
    (opcode : instruction.opcode = .stfld) (operand : instruction.operand = .field member) :
    Resolves routine instruction (value :: base :: stack)
      (.store (fieldAddress base.expr member) (.ofName member.fieldType) value.expr) stack
  | stsfld {value : Value} {stack : List Value} {member : FieldRef}
    (opcode : instruction.opcode = .stsfld) (operand : instruction.operand = .field member) :
    Resolves routine instruction (value :: stack)
      (.store (fieldAddress (staticBase member) member) (.ofName member.fieldType) value.expr) stack
  | retVoid {stack : List Value} (opcode : instruction.opcode = .ret)
    (void : routine.method.returnType = voidName) :
    Resolves routine instruction stack (.finish none) stack
  | ret {value : Value} {stack : List Value} (opcode : instruction.opcode = .ret)
    (valued : routine.method.returnType ≠ voidName) :
    Resolves routine instruction (value :: stack) (.finish (some value.expr)) stack
  | throw {value : Value} {stack : List Value} (opcode : instruction.opcode = .throw) :
    Resolves routine instruction (value :: stack) (.raise value) stack
  | leave {stack : List Value} {target : Offset} (opcode : instruction.opcode = .leave)
    (operand : instruction.operand = .target target) :
    Resolves routine instruction stack (.leave target) stack
  | endfinally {stack : List Value} (opcode : instruction.opcode = .endfinally) :
    Resolves routine instruction stack .endFinally stack

/-- An instruction that `Resolves` combines values, or only takes some off the stack. -/
theorem Resolves.combines_or_suffix {routine : Routine} {instruction : Instruction}
    {operation : Operation} {stack after : List Value}
    (resolves : Resolves routine instruction stack operation after) :
    Combines instruction stack after ∨ after <:+ stack := by
  cases resolves with
  | combine combines => exact .inl combines
  | ldarg | ldloc | br | ldsfld | retVoid | leave | endfinally => exact .inr List.suffix_rfl
  | starg | stloc | test | switch | ldfld | stsfld | ret | throw =>
    exact .inr (List.suffix_cons _ _)
  | branch | stfld => exact .inr ((List.suffix_cons _ _).trans (List.suffix_cons _ _))
  | call | newobj => exact .inr (List.suffix_append _ _)

theorem target_eq_ok {instruction : Instruction} {offset : Offset} :
    target instruction = .ok offset ↔ instruction.operand = .target offset := by
  unfold target
  cases instruction.operand <;> simp [missing]

theorem targets_eq_ok {instruction : Instruction} {offsets : List Offset} :
    targets instruction = .ok offsets ↔ instruction.operand = .targets offsets := by
  unfold targets
  cases instruction.operand <;> simp [missing]

theorem method_eq_ok {instruction : Instruction} {callee : MethodRef} :
    method instruction = .ok callee ↔ instruction.operand = .method callee := by
  unfold method
  cases instruction.operand <;> simp [missing]

theorem field_eq_ok {instruction : Instruction} {member : FieldRef} :
    field instruction = .ok member ↔ instruction.operand = .field member := by
  unfold field
  cases instruction.operand <;> simp [missing]

section Helpers

variable {offset : Offset} {instruction : Instruction} {stack : List Value} {resolved : Resolved}

theorem combining_eq_ok {combine : Value → Value → Value}
    (done : combining offset stack combine = .ok resolved) :
    ∃ left right rest, stack = right :: left :: rest ∧
      resolved = ⟨.proceed, combine left right :: rest⟩ := by
  unfold combining at done
  obtain ⟨right, _, rfl, more⟩ := pop_bind_eq_ok.mp done
  obtain ⟨left, rest, rfl, last⟩ := pop_bind_eq_ok.mp more
  cases last
  exact ⟨left, right, rest, rfl, rfl⟩

theorem applying_eq_ok {operator : UnaryOperator}
    (done : applying offset stack operator = .ok resolved) :
    ∃ operand rest, stack = operand :: rest ∧
      resolved = ⟨.proceed, ⟨.unary operator operand.expr, operand.typ⟩ :: rest⟩ := by
  unfold applying at done
  obtain ⟨operand, rest, rfl, more⟩ := pop_bind_eq_ok.mp done
  cases more
  exact ⟨operand, rest, rfl, rfl⟩

theorem storing_eq_ok {place : Expr × Typ} (done : storing offset stack place = .ok resolved) :
    ∃ value rest, stack = value :: rest ∧
      resolved = ⟨.store place.1 place.2 value.expr, rest⟩ := by
  unfold storing at done
  obtain ⟨value, rest, rfl, more⟩ := pop_bind_eq_ok.mp done
  cases more
  exact ⟨value, rest, rfl, rfl⟩

theorem testing_eq_ok {expected : Bool} (done : testing instruction stack expected = .ok resolved) :
    ∃ value rest offset, stack = value :: rest ∧ instruction.operand = .target offset ∧
      resolved = ⟨.branch (truth value expected) offset, rest⟩ := by
  unfold testing at done
  obtain ⟨value, rest, rfl, more⟩ := pop_bind_eq_ok.mp done
  obtain ⟨offset, operand, done⟩ := except_bind_eq_ok.mp more
  cases done
  exact ⟨value, rest, offset, rfl, target_eq_ok.mp operand, rfl⟩

theorem comparing_eq_ok {operator : BinaryOperator}
    (done : comparing instruction stack operator = .ok resolved) :
    ∃ left right rest offset, stack = right :: left :: rest ∧
      instruction.operand = .target offset ∧
      resolved = ⟨.branch (.binary operator left.expr right.expr) offset, rest⟩ := by
  unfold comparing at done
  obtain ⟨right, _, rfl, more⟩ := pop_bind_eq_ok.mp done
  obtain ⟨left, rest, rfl, last⟩ := pop_bind_eq_ok.mp more
  obtain ⟨offset, operand, done⟩ := except_bind_eq_ok.mp last
  cases done
  exact ⟨left, right, rest, offset, rfl, target_eq_ok.mp operand, rfl⟩

theorem calling_eq_ok {isVirtual : Bool}
    (done : calling instruction stack isVirtual = .ok resolved) :
    ∃ callee arguments rest, stack = arguments.reverse ++ rest ∧
      instruction.operand = .method callee ∧
      arguments.length = callee.parameters.length + (if callee.hasThis then 1 else 0) ∧
      resolved = ⟨.invoke callee arguments isVirtual, rest⟩ := by
  unfold calling at done
  obtain ⟨callee, operand, done⟩ := except_bind_eq_ok.mp done
  obtain ⟨⟨arguments, rest⟩, taken, done⟩ := except_bind_eq_ok.mp done
  obtain ⟨same, count⟩ := popMany_eq_ok.mp taken
  cases done
  exact ⟨callee, arguments, rest, same, method_eq_ok.mp operand, count, rfl⟩

end Helpers

/-- What `resolve` gives is one of the cases of `Resolves`. -/
theorem resolves_of_resolve {routine : Routine} {instruction : Instruction} {stack : List Value}
    {resolved : Resolved} (done : resolve routine instruction stack = .ok (some resolved)) :
    Resolves routine instruction stack resolved.operation resolved.stack := by
  unfold resolve at done
  cases opcode : instruction.opcode with
  | nop =>
    rw [opcode] at done
    cases done
    exact .combine (.nop opcode)
  | ldarg position =>
    rw [opcode] at done
    obtain ⟨index, which, done⟩ := except_bind_eq_ok.mp done
    obtain ⟨⟨address, typ⟩, place, done⟩ := except_bind_eq_ok.mp done
    cases done
    exact .ldarg opcode which place
  | starg =>
    rw [opcode] at done
    obtain ⟨index, which, done⟩ := except_bind_eq_ok.mp done
    obtain ⟨⟨address, typ⟩, place, done⟩ := except_bind_eq_ok.mp done
    obtain ⟨_, stored, ⟨⟩⟩ := except_map_eq_ok.mp done
    obtain ⟨value, rest, rfl, rfl⟩ := storing_eq_ok stored
    exact .starg opcode which place
  | ldloc position =>
    rw [opcode] at done
    obtain ⟨index, which, done⟩ := except_bind_eq_ok.mp done
    obtain ⟨⟨address, typ⟩, place, done⟩ := except_bind_eq_ok.mp done
    cases done
    exact .ldloc opcode which place
  | stloc position =>
    rw [opcode] at done
    obtain ⟨index, which, done⟩ := except_bind_eq_ok.mp done
    obtain ⟨⟨address, typ⟩, place, done⟩ := except_bind_eq_ok.mp done
    obtain ⟨_, stored, ⟨⟩⟩ := except_map_eq_ok.mp done
    obtain ⟨value, rest, rfl, rfl⟩ := storing_eq_ok stored
    exact .stloc opcode which place
  | ldcI4 value =>
    rw [opcode] at done
    cases value with
    | some value =>
      cases done
      exact .combine (.constant (.shortInt opcode))
    | none =>
      obtain ⟨value, operand, done⟩ := except_bind_eq_ok.mp done
      cases done
      exact .combine (.constant (.int opcode operand))
  | ldcI8 =>
    rw [opcode] at done
    obtain ⟨value, operand, done⟩ := except_bind_eq_ok.mp done
    cases done
    exact .combine (.constant (.long opcode operand))
  | ldcR4 =>
    rw [opcode] at done
    obtain ⟨value, operand, done⟩ := except_bind_eq_ok.mp done
    cases done
    exact .combine (.constant (.single opcode operand))
  | ldcR8 =>
    rw [opcode] at done
    obtain ⟨value, operand, done⟩ := except_bind_eq_ok.mp done
    cases done
    exact .combine (.constant (.double opcode operand))
  | ldstr =>
    rw [opcode] at done
    obtain ⟨value, operand, done⟩ := except_bind_eq_ok.mp done
    cases done
    exact .combine (.constant (.string opcode operand))
  | ldnull =>
    rw [opcode] at done
    cases done
    exact .combine (.constant (.null opcode))
  | dup =>
    rw [opcode] at done
    obtain ⟨top, rest, rfl, more⟩ := pop_bind_eq_ok.mp done
    cases more
    exact .combine (.dup opcode)
  | pop =>
    rw [opcode] at done
    obtain ⟨top, rest, rfl, more⟩ := pop_bind_eq_ok.mp done
    cases more
    exact .combine (.pop opcode)
  | binary operator =>
    rw [opcode] at done
    obtain ⟨_, combined, ⟨⟩⟩ := except_map_eq_ok.mp done
    obtain ⟨left, right, rest, rfl, rfl⟩ := combining_eq_ok combined
    exact .combine (.binary opcode)
  | compare operator =>
    rw [opcode] at done
    obtain ⟨_, combined, ⟨⟩⟩ := except_map_eq_ok.mp done
    obtain ⟨left, right, rest, rfl, rfl⟩ := combining_eq_ok combined
    exact .combine (.compare opcode)
  | neg =>
    rw [opcode] at done
    obtain ⟨_, applied, ⟨⟩⟩ := except_map_eq_ok.mp done
    obtain ⟨operand, rest, rfl, rfl⟩ := applying_eq_ok applied
    exact .combine (.negate opcode)
  | not =>
    rw [opcode] at done
    obtain ⟨_, applied, ⟨⟩⟩ := except_map_eq_ok.mp done
    obtain ⟨operand, rest, rfl, rfl⟩ := applying_eq_ok applied
    exact .combine (.bitNot opcode)
  | br =>
    rw [opcode] at done
    obtain ⟨offset, operand, done⟩ := except_bind_eq_ok.mp done
    cases done
    exact .br opcode (target_eq_ok.mp operand)
  | brtrue =>
    rw [opcode] at done
    obtain ⟨_, tested, ⟨⟩⟩ := except_map_eq_ok.mp done
    obtain ⟨value, rest, offset, rfl, operand, rfl⟩ := testing_eq_ok tested
    exact .test opcode operand
  | brfalse =>
    rw [opcode] at done
    obtain ⟨_, tested, ⟨⟩⟩ := except_map_eq_ok.mp done
    obtain ⟨value, rest, offset, rfl, operand, rfl⟩ := testing_eq_ok tested
    exact .test opcode operand
  | branch operator =>
    rw [opcode] at done
    obtain ⟨_, compared, ⟨⟩⟩ := except_map_eq_ok.mp done
    obtain ⟨left, right, rest, offset, rfl, operand, rfl⟩ := comparing_eq_ok compared
    exact .branch opcode operand
  | switch =>
    rw [opcode] at done
    obtain ⟨offsets, operand, done⟩ := except_bind_eq_ok.mp done
    obtain ⟨value, rest, rfl, more⟩ := pop_bind_eq_ok.mp done
    cases more
    exact .switch opcode (targets_eq_ok.mp operand)
  | call =>
    rw [opcode] at done
    obtain ⟨_, called, ⟨⟩⟩ := except_map_eq_ok.mp done
    obtain ⟨callee, arguments, rest, rfl, operand, count, rfl⟩ := calling_eq_ok called
    exact .call opcode operand count
  | callvirt =>
    rw [opcode] at done
    obtain ⟨_, called, ⟨⟩⟩ := except_map_eq_ok.mp done
    obtain ⟨callee, arguments, rest, rfl, operand, count, rfl⟩ := calling_eq_ok called
    exact .call opcode operand count
  | newobj =>
    rw [opcode] at done
    obtain ⟨callee, operand, done⟩ := except_bind_eq_ok.mp done
    obtain ⟨⟨arguments, rest⟩, taken, done⟩ := except_bind_eq_ok.mp done
    obtain ⟨same, count⟩ := popMany_eq_ok.mp taken
    cases done
    subst same
    exact .newobj opcode (method_eq_ok.mp operand) count
  | ldfld =>
    rw [opcode] at done
    obtain ⟨member, operand, done⟩ := except_bind_eq_ok.mp done
    obtain ⟨base, rest, rfl, more⟩ := pop_bind_eq_ok.mp done
    cases more
    exact .ldfld opcode (field_eq_ok.mp operand)
  | ldsfld =>
    rw [opcode] at done
    obtain ⟨member, operand, done⟩ := except_bind_eq_ok.mp done
    cases done
    exact .ldsfld opcode (field_eq_ok.mp operand)
  | stfld =>
    rw [opcode] at done
    obtain ⟨member, operand, done⟩ := except_bind_eq_ok.mp done
    obtain ⟨value, _, rfl, more⟩ := pop_bind_eq_ok.mp done
    obtain ⟨base, rest, rfl, last⟩ := pop_bind_eq_ok.mp more
    cases last
    exact .stfld opcode (field_eq_ok.mp operand)
  | stsfld =>
    rw [opcode] at done
    obtain ⟨member, operand, done⟩ := except_bind_eq_ok.mp done
    obtain ⟨value, rest, rfl, more⟩ := pop_bind_eq_ok.mp done
    cases more
    exact .stsfld opcode (field_eq_ok.mp operand)
  | ret =>
    rw [opcode] at done
    dsimp only at done
    split at done
    · rename_i void
      cases done
      exact .retVoid opcode void
    · rename_i valued
      obtain ⟨value, rest, rfl, more⟩ := pop_bind_eq_ok.mp done
      cases more
      exact .ret opcode valued
  | throw =>
    rw [opcode] at done
    obtain ⟨value, rest, rfl, more⟩ := pop_bind_eq_ok.mp done
    cases more
    exact .throw opcode
  | leave =>
    rw [opcode] at done
    obtain ⟨offset, operand, done⟩ := except_bind_eq_ok.mp done
    cases done
    exact .leave opcode (target_eq_ok.mp operand)
  | endfinally =>
    rw [opcode] at done
    cases done
    exact .endfinally opcode
  | unknown =>
    rw [opcode] at done
    cases done

/-! ### Where control goes on -/

/-- Whether control can go on to the next instruction after an `Operation`. -/
def fallsThrough : Operation → Bool
  | .jump _ | .finish _ | .raise _ | .leave _ | .endFinally => false
  | _ => true

/-- The ways on after an `Operation` are those of an instruction. -/
def FlowsAs (instruction : Instruction) : Operation → Prop
  | .jump target => target ∈ instruction.branchTargets
  | .branch _ target => target ∈ instruction.branchTargets ∧ instruction.fallsThrough = true
  | .select _ targets => targets = instruction.branchTargets ∧ instruction.fallsThrough = true
  | .leave target => instruction.opcode = .leave ∧ instruction.operand = .target target
  | .endFinally => instruction.opcode = .endfinally
  | .finish _ => instruction.opcode = .ret
  | .raise _ => instruction.opcode = .throw
  | _ => instruction.fallsThrough = true

theorem mem_branchTargets {instruction : Instruction} {offset : Offset}
    (operand : instruction.operand = .target offset) : offset ∈ instruction.branchTargets := by
  unfold Instruction.branchTargets
  rw [operand]
  exact List.mem_singleton_self _

theorem fallsThrough_of_opcode {instruction : Instruction} {opcode : Opcode}
    (same : instruction.opcode = opcode) (falls : opcode.fallsThrough = true) :
    instruction.fallsThrough = true := by
  unfold Instruction.fallsThrough
  rw [same, falls]

theorem Combines.fallsThrough {instruction : Instruction} {stack after : List Value}
    (combines : Combines instruction stack after) : instruction.fallsThrough = true := by
  cases combines with
  | nop opcode => exact fallsThrough_of_opcode opcode rfl
  | constant pushes =>
    cases pushes with
    | shortInt opcode => exact fallsThrough_of_opcode opcode rfl
    | int opcode => exact fallsThrough_of_opcode opcode rfl
    | long opcode => exact fallsThrough_of_opcode opcode rfl
    | single opcode => exact fallsThrough_of_opcode opcode rfl
    | double opcode => exact fallsThrough_of_opcode opcode rfl
    | string opcode => exact fallsThrough_of_opcode opcode rfl
    | null opcode => exact fallsThrough_of_opcode opcode rfl
  | dup opcode => exact fallsThrough_of_opcode opcode rfl
  | pop opcode => exact fallsThrough_of_opcode opcode rfl
  | binary opcode => exact fallsThrough_of_opcode opcode rfl
  | compare opcode => exact fallsThrough_of_opcode opcode rfl
  | negate opcode => exact fallsThrough_of_opcode opcode rfl
  | bitNot opcode => exact fallsThrough_of_opcode opcode rfl

theorem Resolves.flowsAs {routine : Routine} {instruction : Instruction} {operation : Operation}
    {stack after : List Value} (resolves : Resolves routine instruction stack operation after) :
    operation.FlowsAs instruction := by
  cases resolves with
  | combine combines => exact combines.fallsThrough
  | ldarg opcode => exact fallsThrough_of_opcode opcode rfl
  | starg opcode => exact fallsThrough_of_opcode opcode rfl
  | ldloc opcode => exact fallsThrough_of_opcode opcode rfl
  | stloc opcode => exact fallsThrough_of_opcode opcode rfl
  | br opcode operand => exact mem_branchTargets operand
  | @test _ _ expected _ opcode operand =>
    refine ⟨mem_branchTargets operand, fallsThrough_of_opcode opcode ?_⟩
    cases expected <;> rfl
  | branch opcode operand => exact ⟨mem_branchTargets operand, fallsThrough_of_opcode opcode rfl⟩
  | switch opcode operand =>
    refine ⟨?_, fallsThrough_of_opcode opcode rfl⟩
    unfold Instruction.branchTargets
    rw [operand, opcode]
    rfl
  | @call _ _ isVirtual _ opcode =>
    refine fallsThrough_of_opcode opcode ?_
    cases isVirtual <;> rfl
  | newobj opcode => exact fallsThrough_of_opcode opcode rfl
  | ldfld opcode => exact fallsThrough_of_opcode opcode rfl
  | ldsfld opcode => exact fallsThrough_of_opcode opcode rfl
  | stfld opcode => exact fallsThrough_of_opcode opcode rfl
  | stsfld opcode => exact fallsThrough_of_opcode opcode rfl
  | retVoid opcode => exact opcode
  | ret opcode => exact opcode
  | throw opcode => exact opcode
  | leave opcode operand => exact ⟨opcode, operand⟩
  | endfinally opcode => exact opcode

end Operation

end BytecodeFlow

/-
This file compares the operand stacks of paths that share a node. Sharing asks
that the stacks agree (`Value.agrees`), and agreement is blind to the sign of a
floating-point zero and to nothing else. So the stack of the node and the top
of the arriving one are the same values, of the same types, up to such signs
(`Value.unsigned`). Every number on a stack was loaded by an instruction
(`MethodBody.LoadsFloat`), so a method that loads zeros of one sign only has
nothing replaced by something else where paths come together. In a method that
loads both, a path may be given the zero of the other sign.
-/

import BytecodeFlow.Proofs.Lowering.HandlerCopies
import BytecodeFlow.Proofs.Lowering.Sharing
import BytecodeFlow.Proofs.Walk.Contents

namespace BytecodeFlow

/-! ### Signs of zeros -/

namespace Binary64

/-- The number, with the sign of a zero dropped. -/
def unsigned (number : Binary64) : Binary64 := if number.isZero then zero false else number

theorem isZero_unsigned (number : Binary64) : number.unsigned.isZero = number.isZero := by
  unfold unsigned
  split
  · rename_i isZero
    rw [isZero]
    rfl
  · rfl

theorem isZero_eq_of_unsigned {left right : Binary64} (same : left.unsigned = right.unsigned) :
    left.isZero = right.isZero := by
  rw [← left.isZero_unsigned, same, isZero_unsigned]

theorem sameValue_iff {left right : Binary64} :
    left.sameValue right = true ↔ left.unsigned = right.unsigned := by
  constructor
  · intro same
    rcases Bool.or_eq_true_iff.mp same with zeros | equal
    · obtain ⟨leftZero, rightZero⟩ := Bool.and_eq_true_iff.mp zeros
      rw [unsigned, unsigned, if_pos leftZero, if_pos rightZero]
    · rw [eq_of_beq equal]
  · intro same
    unfold sameValue
    rw [isZero_eq_of_unsigned same]
    cases isZero : right.isZero with
    | true => rfl
    | false =>
      have equal : left = right := by
        rw [unsigned, unsigned, isZero_eq_of_unsigned same, isZero] at same
        exact same
      simp [equal]

end Binary64

namespace Const

def unsigned : Const → Const
  | .float number => .float number.unsigned
  | const => const

/-- The floating-point zeros in a constant. -/
def zeros : Const → List Binary64
  | .float number => if number.isZero then [number] else []
  | _ => []

theorem agrees_iff {left right : Const} :
    left.agrees right = true ↔ left.unsigned = right.unsigned := by
  cases left <;> cases right <;> simp [agrees, unsigned, Binary64.sameValue_iff]

theorem mem_zeros {const : Const} {number : Binary64} :
    number ∈ const.zeros ↔ const = .float number ∧ number.isZero = true := by
  cases const with
  | float other =>
    rw [zeros, Const.float.injEq]
    split
    · rename_i isZero
      rw [List.mem_singleton]
      exact ⟨fun same => ⟨same.symm, same ▸ isZero⟩, fun same => same.1.symm⟩
    · rename_i nonzero
      exact iff_of_false List.not_mem_nil fun same => nonzero (same.1 ▸ same.2)
  | _ => simp [zeros]

theorem length_zeros_unsigned (const : Const) :
    const.unsigned.zeros.length = const.zeros.length := by
  cases const with
  | float number =>
    rw [unsigned, zeros, zeros, Binary64.isZero_unsigned]
    split <;> rfl
  | _ => rfl

/-- A constant is known by what is left without its sign, and its zeros. -/
theorem eq_of_zeros {left right : Const} (same : left.unsigned = right.unsigned)
    (sameZeros : left.zeros = right.zeros) : left = right := by
  cases left with
  | float number =>
    cases right with
    | float other =>
      have numbers : number.unsigned = other.unsigned := Const.float.inj same
      have zero : number.isZero = other.isZero := Binary64.isZero_eq_of_unsigned numbers
      rw [zeros, zeros, zero] at sameZeros
      by_cases isZero : other.isZero = true
      · rw [if_pos isZero, if_pos isZero, List.singleton_inj] at sameZeros
        rw [sameZeros]
      · rw [Binary64.unsigned, Binary64.unsigned, zero, if_neg isZero, if_neg isZero] at numbers
        rw [numbers]
    | _ => cases same
  | _ =>
    cases right with
    | float other => cases same
    | _ => exact same

end Const

namespace Expr

/-- The expression, with the signs of its zeros dropped. -/
def unsigned : Expr → Expr
  | .var ident => .var ident
  | .address cell => .address cell
  | .field base member owner => .field base.unsigned member owner
  | .const value => .const value.unsigned
  | .binary operator left right => .binary operator left.unsigned right.unsigned
  | .unary operator operand => .unary operator operand.unsigned
  | .thrown value => .thrown value.unsigned
  | .sizeOf typ => .sizeOf typ

/-- The floating-point zeros in an expression, from left to right. -/
def zeros : Expr → List Binary64
  | .var _ | .address _ | .sizeOf _ => []
  | .field base _ _ => base.zeros
  | .const value => value.zeros
  | .binary _ left right => left.zeros ++ right.zeros
  | .unary _ operand => operand.zeros
  | .thrown value => value.zeros

/-- Expressions agree if they are the same when `unsigned`. -/
theorem agrees_iff {left right : Expr} :
    left.agrees right = true ↔ left.unsigned = right.unsigned := by
  induction left generalizing right with
  | const value => cases right <;> simp [agrees, unsigned, Const.agrees_iff]
  | _ => cases right <;> simp [agrees, unsigned, and_assoc, *]

theorem isZero_of_mem {expr : Expr} {number : Binary64} (member : number ∈ expr.zeros) :
    number.isZero = true := by
  induction expr with
  | const value => exact (Const.mem_zeros.mp member).2
  | binary operator left right leftHypothesis rightHypothesis =>
    exact (List.mem_append.mp member).elim leftHypothesis rightHypothesis
  | field _ _ _ inductionHypothesis | unary _ _ inductionHypothesis
  | thrown _ inductionHypothesis => exact inductionHypothesis member
  | var | address | sizeOf => cases member

theorem length_zeros_unsigned (expr : Expr) : expr.unsigned.zeros.length = expr.zeros.length := by
  induction expr with
  | const value => exact value.length_zeros_unsigned
  | _ => simp [unsigned, zeros, *]

theorem length_zeros {left right : Expr} (same : left.unsigned = right.unsigned) :
    left.zeros.length = right.zeros.length := by
  rw [← left.length_zeros_unsigned, same, length_zeros_unsigned]

/-- An expression is known by what is left without the signs of its zeros, and its zeros. -/
theorem eq_of_zeros {left right : Expr} (same : left.unsigned = right.unsigned)
    (sameZeros : left.zeros = right.zeros) : left = right := by
  induction left generalizing right with
  | const value =>
    cases right <;> simp only [unsigned, Expr.const.injEq, reduceCtorEq] at same
    rw [Const.eq_of_zeros same sameZeros]
  | binary operator first second firstHypothesis secondHypothesis =>
    cases right <;> simp only [unsigned, Expr.binary.injEq, reduceCtorEq] at same
    obtain ⟨rfl, firsts, seconds⟩ := same
    -- Operands that agree have equally many zeros, so the two lists split at the same place.
    obtain ⟨firstZeros, secondZeros⟩ := List.append_inj sameZeros (length_zeros firsts)
    rw [firstHypothesis firsts firstZeros, secondHypothesis seconds secondZeros]
  | field base member owner inductionHypothesis =>
    cases right <;> simp only [unsigned, Expr.field.injEq, reduceCtorEq] at same
    obtain ⟨bases, rfl, rfl⟩ := same
    rw [inductionHypothesis bases sameZeros]
  | unary operator operand inductionHypothesis =>
    cases right <;> simp only [unsigned, Expr.unary.injEq, reduceCtorEq] at same
    obtain ⟨rfl, operands⟩ := same
    rw [inductionHypothesis operands sameZeros]
  | thrown value inductionHypothesis =>
    cases right <;> simp only [unsigned, Expr.thrown.injEq, reduceCtorEq] at same
    rw [inductionHypothesis same sameZeros]
  | var | address | sizeOf =>
    cases right <;> simp only [unsigned, reduceCtorEq] at same
    exact same

end Expr

/-! ### Stacks that agree -/

/-- The value, with the signs of the `zeros` in its expression dropped. -/
def Value.unsigned (value : Value) : Value := ⟨value.expr.unsigned, value.typ⟩

/-- The floating-point zeros on an operand stack, from the top down. -/
def zerosOf (stack : List Value) : List Binary64 := stack.flatMap fun value => value.expr.zeros

theorem Value.agrees_iff {left right : Value} :
    left.agrees right = true ↔ left.unsigned = right.unsigned := by
  simp [agrees, unsigned, Expr.agrees_iff]

theorem Value.eq_of_zeros {left right : Value} (same : left.unsigned = right.unsigned)
    (sameZeros : left.expr.zeros = right.expr.zeros) : left = right := by
  obtain ⟨exprs, typs⟩ := Value.mk.inj same
  cases left
  cases right
  exact congr (congrArg Value.mk (Expr.eq_of_zeros exprs sameZeros)) typs

theorem Walk.exists_of_topAgrees {recorded stack : List Value}
    (agrees : topAgrees recorded stack = true) :
    ∃ top, top <+: stack ∧ recorded.map Value.unsigned = top.map Value.unsigned := by
  obtain ⟨top, within, agree⟩ := topAgrees_iff.mp agrees
  refine ⟨top, within, ?_⟩
  rw [← List.forall₂_eq_eq_eq, List.forall₂_map_left_iff, List.forall₂_map_right_iff]
  exact agree.imp fun _ _ => Value.agrees_iff.mp

section Stacks

variable {left right : List Value}

theorem length_zerosOf (same : left.map Value.unsigned = right.map Value.unsigned) :
    (zerosOf left).length = (zerosOf right).length := by
  have counted : ∀ stack : List Value, (zerosOf stack).length =
      ((stack.map Value.unsigned).map fun value => value.expr.zeros.length).sum := by
    intro stack
    rw [zerosOf, List.length_flatMap, List.map_map]
    refine congrArg List.sum (List.map_congr_left fun value _ => ?_)
    exact value.expr.length_zeros_unsigned.symm
  rw [counted, counted, same]

/-- Stacks that are the same when `unsigned` are the same if their `zerosOf` are. -/
theorem eq_of_zerosOf (same : left.map Value.unsigned = right.map Value.unsigned)
    (sameZeros : zerosOf left = zerosOf right) : left = right := by
  induction left generalizing right with
  | nil => exact (List.map_eq_nil_iff.mp same.symm).symm
  | cons value rest inductionHypothesis =>
    cases right with
    | nil => cases same
    | cons other others =>
      obtain ⟨values, rests⟩ := List.cons_eq_cons.mp same
      obtain ⟨first, later⟩ := List.append_inj sameZeros (Expr.length_zeros (Value.mk.inj values).1)
      rw [Value.eq_of_zeros values first, inductionHypothesis rests later]

theorem eq_of_alike (same : left.map Value.unsigned = right.map Value.unsigned)
    (alike : ∀ number ∈ zerosOf left, ∀ other ∈ zerosOf right, number = other) : left = right :=
  eq_of_zerosOf same (List.ext_getElem (length_zerosOf same) fun _ inLeft inRight =>
    alike _ (List.getElem_mem inLeft) _ (List.getElem_mem inRight))

end Stacks

/-! ### Numbers that are loaded -/

/-- An instruction of the body pushes a floating-point number. -/
def MethodBody.LoadsFloat (body : MethodBody) (number : Binary64) : Prop :=
  ∃ instruction ∈ body.instructions,
    (instruction.opcode = .ldcR4 ∨ instruction.opcode = .ldcR8) ∧
      Operation.float instruction = .ok number

theorem MethodBody.loadsFloat_of_mem {body : MethodBody} {stack : List Value} {number : Binary64}
    (loaded : ∀ value ∈ stack, ∀ number ∈ value.expr.zeros, body.LoadsFloat number)
    (member : number ∈ zerosOf stack) : body.LoadsFloat number ∧ number.isZero = true := by
  obtain ⟨value, held, inside⟩ := List.mem_flatMap.mp member
  exact ⟨loaded value held number inside, Expr.isZero_of_mem inside⟩

/-- The walks that a run comes to: those `Reached` between two turns and at its end, and where it
takes up a path with `arrive`. -/
inductive Walk.Occurs (routine : Routine) (limits : Limits) (start : Walk) : Walk → Prop
  | between {walk : Walk} (reached : Reached routine limits start walk) :
    Occurs routine limits start walk
  | arrived {walk : Walk} {pending : Pending} {rest : List Pending}
    (turns : Turns routine limits start walk) (waiting : walk.worklist = pending :: rest) :
    Occurs routine limits start (walk.arrive pending rest)

/-- What holds at the start and is kept by every turn, and when a path is taken up, holds of every
walk that `Occurs`. -/
theorem Walk.Occurs.keep {routine : Routine} {limits : Limits} (property : Walk → Prop)
    (kept : ∀ {before after : Walk} {pending : Pending} {outcome : Option Outcome},
      property before → TakesUp routine limits before pending after outcome → property after)
    (arrives : ∀ {walk : Walk} {pending : Pending} {rest : List Pending},
      property walk → walk.worklist = pending :: rest → property (walk.arrive pending rest))
    {start walk : Walk} (occurs : Occurs routine limits start walk) (holds : property start) :
    property walk := by
  cases occurs with
  | between reached => exact reached.keep property kept holds
  | arrived turns waiting => exact arrives (Reached.keep property kept (.inl turns) holds) waiting

namespace Lowered

variable {program : Program} {declaring : TypeDef} {method : MethodDef} {body : MethodBody}
  {limits : Limits} {walk : Walk}

theorem pervades_zeros :
    (Routine.ofBody declaring.name method body).Pervades fun value =>
      ∀ number ∈ value.expr.zeros, body.LoadsFloat number where
  temporary _ _ _ member := absurd member List.not_mem_nil
  constant offset instruction expr typ found pushes := by
    have listed := instructionAt?_mem found
    intro number member
    cases pushes with
    | single opcode operand =>
      obtain ⟨rfl⟩ := (Const.mem_zeros.mp member).1
      exact ⟨instruction, listed, .inl opcode, operand⟩
    | double opcode operand =>
      obtain ⟨rfl⟩ := (Const.mem_zeros.mp member).1
      exact ⟨instruction, listed, .inr opcode, operand⟩
    | shortInt | int | long | string | null => exact absurd member List.not_mem_nil
  binary _ _ _ _ left right number member := by
    rcases List.mem_append.mp member with inLeft | inRight
    · exact left number inLeft
    · exact right number inRight
  unary _ _ operand := operand

/-- Before the first turn there are no values. -/
theorem seeded_allValues (good : Value → Prop) :
    (seeded program declaring method body).AllValues good := by
  have bare : (seeded program declaring method body).stack = [] ∧
      (seeded program declaring method body).blockStack = [] := by
    unfold seeded prepared constructorPrologue Walk.seed
    dsimp only
    split <;> split <;> exact ⟨rfl, rfl⟩
  refine ⟨?_, ?_, fun pending member => ?_, fun offset record member => ?_⟩
  · rw [bare.1]
    exact fun _ member => absurd member List.not_mem_nil
  · rw [bare.2]
    exact fun _ member => absurd member List.not_mem_nil
  · obtain ⟨first, -, -, rfl⟩ := mem_seeded_worklist member
    exact ⟨fun _ member => absurd member List.not_mem_nil, fun _ _ deferred => by cases deferred⟩
  · rw [opened_seeded, Std.ExtTreeMap.getD_empty] at member
    cases member

/-- In every walk that `Occurs`, the zeros on all stacks are ones that the body `LoadsFloat`. -/
theorem zeros_loaded (occurs : Walk.Occurs (Routine.ofBody declaring.name method body) limits
      (seeded program declaring method body) walk) :
    walk.AllValues fun value => ∀ number ∈ value.expr.zeros, body.LoadsFloat number := by
  refine Walk.Occurs.keep _ (fun values takesUp => ?_) (fun values waiting => ?_) occurs
    (seeded_allValues _)
  · exact values.takesUp pervades_zeros takesUp
  · exact values.arrive waiting

/-- In every walk that `Occurs`, a node is recorded with one stack. -/
theorem recorded_once (occurs : Walk.Occurs (Routine.ofBody declaring.name method body) limits
      (seeded program declaring method body) walk) (offset : Offset) :
    ((walk.opened.getD offset []).map Prod.fst).Nodup := by
  cases occurs with
  | between reached => exact (entered_of_reached reached).once offset
  | arrived turns waiting => exact (entered_of_reached (.inl turns)).once offset

/-- Where a path may share a node (`Walk.reusableNode?`), the stack that is recorded for the node
and the top of the path's stack are the same, value by value and with the same types, up to the
signs of floating-point zeros (`Value.unsigned`). They are identical if and only if these zeros are
(`zerosOf`), and they are identical in every method whose instructions load no two different
zeros. -/
theorem shared_tops_same_up_to_zeros {node : NodeIndex}
    (occurs : Walk.Occurs (Routine.ofBody declaring.name method body) limits
      (seeded program declaring method body) walk)
    (shared : walk.reusableNode? (Routine.ofBody declaring.name method body) = some node) :
    ∃ recorded top, (∀ stack, (node, stack) ∈ walk.opened.getD walk.offset [] ↔ stack = recorded) ∧
      top <+: walk.stack ∧ top.length = recorded.length ∧
      recorded.map Value.unsigned = top.map Value.unsigned ∧
      (recorded = top ↔ zerosOf recorded = zerosOf top) ∧
      ((∀ left right, body.LoadsFloat left → body.LoadsFloat right → left.isZero = true →
        right.isZero = true → left = right) → recorded = top) := by
  obtain ⟨-, -, -, recorded, member, agrees⟩ := Walk.reusableNode?_eq_some shared
  obtain ⟨top, within, same⟩ := Walk.exists_of_topAgrees agrees
  refine ⟨recorded, top, fun stack => ⟨fun other => ?_, fun equal => equal ▸ member⟩, within, ?_,
    same, ⟨fun equal => by rw [equal], eq_of_zerosOf same⟩, fun alike => eq_of_alike same ?_⟩
  · have sameRecord := List.inj_on_of_nodup_map (recorded_once occurs walk.offset) other member rfl
    exact (Prod.mk.inj sameRecord).2
  · have lengths := congrArg List.length same
    rw [List.length_map, List.length_map] at lengths
    exact lengths.symm
  · intro number inRecorded other inTop
    have values := zeros_loaded occurs
    obtain ⟨loaded, isZero⟩ := MethodBody.loadsFloat_of_mem
      (values.recorded walk.offset _ member) inRecorded
    obtain ⟨otherLoaded, otherZero⟩ := MethodBody.loadsFloat_of_mem
      (fun value held => values.stack value (within.subset held)) inTop
    exact alike number other loaded otherLoaded isZero otherZero

/-- A method with a flag that stores minus zero, or else a zero of the given sign. -/
def chosenBody (negative : Bool) : MethodBody where
  locals := ["System.Double"]
  instructions :=
    [⟨0, "ldarg.0", .none, some 10⟩, ⟨1, "brtrue", .target 4, some 10⟩,
      ⟨2, "ldc.r8", .float (.zero negative), some 11⟩, ⟨3, "br", .target 5, some 11⟩,
      ⟨4, "ldc.r8", .float (.zero true), some 12⟩, ⟨5, "stloc.0", .none, some 13⟩,
      ⟨6, "ret", .none, some 14⟩]
  handlers := []

def chosenMethod (negative : Bool) : MethodDef :=
  ⟨"Run", [⟨"flag", "System.Boolean"⟩], voidName, true, false, some "W.cs",
    some (chosenBody negative)⟩

def chosenRoutine (negative : Bool) : Routine :=
  .ofBody plainType.name (chosenMethod negative) (chosenBody negative)

/-- The operand stack on which there is a zero of a sign. -/
def zeroStack (negative : Bool) : List Value :=
  [⟨.const (.float (.zero negative)), .float .double⟩]

/-- The walk over `chosenBody` when its second path takes up the store. -/
def chosenWalk (negative : Bool) : Walk :=
  ((seeded .empty plainType (chosenMethod negative) (chosenBody negative)).afterTurns
    (chosenRoutine negative) .standard 7).arrive
      ⟨5, 5, zeroStack negative, 1, .newBlock, none⟩ []

theorem occurs_chosenWalk (negative : Bool) :
    Walk.Occurs (chosenRoutine negative) .standard
      (seeded .empty plainType (chosenMethod negative) (chosenBody negative))
      (chosenWalk negative) := by
  refine .arrived (Walk.turns_afterTurns ..) ?_
  cases negative <;> decide +kernel

/-- Whatever the sign, the second path can share the node of the first one. -/
theorem shared_chosenWalk (negative : Bool) :
    (chosenWalk negative).reusableNode? (chosenRoutine negative) = some 6 ∧
      (chosenWalk negative).opened.getD 5 [] = [(6, zeroStack true)] := by
  cases negative <;> decide +kernel

/-- If both paths push minus zero, they come together with minus zero on top. -/
theorem shared_tops_same_up_to_zeros_alike :
    ∃ top, (6, top) ∈ (chosenWalk true).opened.getD 5 [] ∧ top.length = 1 ∧
      top <+: (chosenWalk true).stack := by
  have alike : ∀ number, (chosenBody true).LoadsFloat number → number = .zero true := by
    have operands : ∀ instruction ∈ (chosenBody true).instructions,
        instruction.opcode = .ldcR4 ∨ instruction.opcode = .ldcR8 →
          instruction.operand = .float (.zero true) := by decide +kernel
    rintro number ⟨instruction, listed, opcode, pushes⟩
    rw [Operation.float, operands instruction listed opcode] at pushes
    exact (Except.ok.inj pushes).symm
  obtain ⟨shared, opened⟩ := shared_chosenWalk true
  obtain ⟨recorded, top, records, within, -, -, -, identical⟩ :=
    shared_tops_same_up_to_zeros (occurs_chosenWalk true) shared
  have same : recorded = top := identical fun left right leftLoaded rightLoaded _ _ =>
    (alike left leftLoaded).trans (alike right rightLoaded).symm
  have held : (6, zeroStack true) ∈ (chosenWalk true).opened.getD 5 [] := by
    rw [opened]
    exact List.mem_singleton_self _
  have isTop : zeroStack true = top := ((records _).mp held).trans same
  exact ⟨top, isTop ▸ held, isTop ▸ rfl, within⟩

/-- If one path pushes minus zero and the other zero, they come together as well, and the second one
goes on with minus zero. -/
theorem shared_top_of_other_sign :
    ∃ walk recorded, Walk.Occurs (chosenRoutine false) .standard
        (seeded .empty plainType (chosenMethod false) (chosenBody false)) walk ∧
      walk.reusableNode? (chosenRoutine false) = some 6 ∧
      walk.opened.getD walk.offset [] = [(6, recorded)] ∧
      walk.stack.map (fun value => value.expr.text) = ["0"] ∧
      recorded.map (fun value => value.expr.text) = ["-0"] := by
  obtain ⟨shared, opened⟩ := shared_chosenWalk false
  exact ⟨_, _, occurs_chosenWalk false, shared, opened, rfl, rfl⟩

end Lowered

end BytecodeFlow

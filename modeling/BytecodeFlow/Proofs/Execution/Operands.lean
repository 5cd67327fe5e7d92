/-
This file compares the operands of the stack machine with the expressions that
the walk keeps in their place. An expression stands for the value it has with
the current temporaries (`Denotes`). It keeps this value as long as only later
temporaries are assigned, because it uses none of them (`Tame`).
-/

import BytecodeFlow.Proofs.Execution.Graph

namespace BytecodeFlow

variable {V W : Type}

/-! ### Expressions over earlier temporaries -/

namespace Expr

/-- An expression uses only temporaries below a stamp, and no floating-point constants. -/
def Tame (bound : Nat) : Expr → Prop
  | .var ident => ident.stamp < bound
  | .address _ => True
  | .field base _ _ => base.Tame bound
  | .const (.float _) => False
  | .const _ => True
  | .binary _ left right => left.Tame bound ∧ right.Tame bound
  | .unary _ operand => operand.Tame bound
  | .thrown value => value.Tame bound
  | .sizeOf _ => True

theorem Tame.mono {lower upper : Nat} (below : lower ≤ upper) {expr : Expr}
    (tame : expr.Tame lower) : expr.Tame upper := by
  induction expr with
  | var ident => exact Nat.lt_of_lt_of_le tame below
  | address cell => trivial
  | field base member owner inductionHypothesis => exact inductionHypothesis tame
  | const value => cases value <;> exact tame
  | binary operator left right leftHypothesis rightHypothesis =>
    exact ⟨leftHypothesis tame.1, rightHypothesis tame.2⟩
  | unary operator operand inductionHypothesis => exact inductionHypothesis tame
  | thrown value inductionHypothesis => exact inductionHypothesis tame
  | sizeOf typ => trivial

/-- Temporaries that a `Tame` expression cannot use do not matter. -/
theorem Tame.eval?_congr {interpretation : Interpretation V W} {idents others : Ident → V}
    {bound : Nat} (same : ∀ ident : Ident, ident.stamp < bound → others ident = idents ident)
    {expr : Expr} (tame : expr.Tame bound) :
    expr.eval? interpretation others = expr.eval? interpretation idents := by
  induction expr with
  | var ident => exact congrArg some (same ident tame)
  | binary operator left right leftHypothesis rightHypothesis =>
    rw [eval?, eval?, leftHypothesis tame.1, rightHypothesis tame.2]
  | unary operator operand inductionHypothesis => rw [eval?, eval?, inductionHypothesis tame]
  | address | field | const | thrown | sizeOf => rfl

/-- A `Tame` expression has no floating-point constants, so one that agrees with it is the same. -/
theorem Tame.eq_of_agrees {bound : Nat} {expr other : Expr} (tame : expr.Tame bound)
    (agrees : expr.agrees other = true) : expr = other := by
  induction expr generalizing other with
  | var ident =>
    cases other <;> simp only [Expr.agrees, beq_iff_eq, Bool.false_eq_true] at agrees
    rw [agrees]
  | address cell =>
    cases other <;> simp only [Expr.agrees, beq_iff_eq, Bool.false_eq_true] at agrees
    rw [agrees]
  | field base member owner inductionHypothesis =>
    cases other <;>
      simp only [Expr.agrees, Bool.and_eq_true, beq_iff_eq, Bool.false_eq_true] at agrees
    obtain ⟨⟨bases, members⟩, owners⟩ := agrees
    rw [inductionHypothesis tame bases, members, owners]
  | const value =>
    cases other <;> simp only [Expr.agrees, Bool.false_eq_true] at agrees
    cases value with
    | float => exact tame.elim
    | int | string | null | function =>
      simp only [Const.agrees, beq_iff_eq] at agrees
      rw [agrees]
  | binary operator left right leftHypothesis rightHypothesis =>
    cases other <;>
      simp only [Expr.agrees, Bool.and_eq_true, beq_iff_eq, Bool.false_eq_true] at agrees
    obtain ⟨⟨operators, lefts⟩, rights⟩ := agrees
    rw [operators, leftHypothesis tame.1 lefts, rightHypothesis tame.2 rights]
  | unary operator operand inductionHypothesis =>
    cases other <;>
      simp only [Expr.agrees, Bool.and_eq_true, beq_iff_eq, Bool.false_eq_true] at agrees
    rw [agrees.1, inductionHypothesis tame agrees.2]
  | thrown value inductionHypothesis =>
    cases other <;> simp only [Expr.agrees, Bool.false_eq_true] at agrees
    rw [inductionHypothesis tame agrees]
  | sizeOf typ =>
    cases other <;> simp only [Expr.agrees, beq_iff_eq, Bool.false_eq_true] at agrees
    rw [agrees]

end Expr

/-- All values of a symbolic operand stack are `Tame`. -/
def TameStack (bound : Nat) (stack : List Value) : Prop :=
  ∀ value ∈ stack, value.expr.Tame bound

theorem TameStack.mono {lower upper : Nat} (below : lower ≤ upper) {stack : List Value}
    (tame : TameStack lower stack) : TameStack upper stack :=
  fun value member => (tame value member).mono below

theorem TameStack.cons {bound : Nat} {stack : List Value} {value : Value}
    (first : value.expr.Tame bound) (tame : TameStack bound stack) :
    TameStack bound (value :: stack) := by
  intro other member
  rcases List.mem_cons.mp member with rfl | old
  · exact first
  · exact tame other old

theorem TameStack.head {bound : Nat} {stack : List Value} {value : Value}
    (tame : TameStack bound (value :: stack)) : value.expr.Tame bound :=
  tame value List.mem_cons_self

theorem TameStack.tail {bound : Nat} {stack : List Value} {value : Value}
    (tame : TameStack bound (value :: stack)) : TameStack bound stack :=
  fun other member => tame other (List.mem_cons_of_mem _ member)

/-- Where `topAgrees` holds of a recorded `TameStack`, this is the top of the other stack. -/
theorem TameStack.prefix_of_topAgrees {bound : Nat} {recorded stack : List Value}
    (tame : TameStack bound recorded) (agrees : Walk.topAgrees recorded stack = true) :
    recorded <+: stack := by
  induction recorded generalizing stack with
  | nil => exact List.nil_prefix
  | cons value recorded inductionHypothesis =>
    cases stack with
    | nil => cases agrees
    | cons top stack =>
      simp only [Walk.topAgrees, Value.agrees, Bool.and_eq_true, beq_iff_eq] at agrees
      obtain ⟨⟨exprs, types⟩, others⟩ := agrees
      have sameExpr := tame.head.eq_of_agrees exprs
      have same : value = top := by
        cases value
        cases top
        cases sameExpr
        cases types
        rfl
      rw [same]
      exact List.cons_prefix_cons.mpr ⟨rfl, inductionHypothesis tame.tail others⟩

/-! ### Operand stacks -/

variable (interpretation : Interpretation V W) (idents : Ident → V)

/-- A symbolic value stands for an operand: it evaluates to its value, and has its type. -/
def Denotes (value : Value) (operand : V × Typ) : Prop :=
  value.expr.eval? interpretation idents = some operand.1 ∧ value.typ = operand.2

/-- The values of a symbolic stack, one by one, are those that `Denotes` relates to the topmost
operands of a stack. -/
inductive Covers : List Value → List (V × Typ) → Prop
  | nil (stack : List (V × Typ)) : Covers [] stack
  | cons {value : Value} {operand : V × Typ} {symbolic : List Value} {stack : List (V × Typ)}
    (denotes : Denotes interpretation idents value operand) (covers : Covers symbolic stack) :
    Covers (value :: symbolic) (operand :: stack)

namespace Covers

variable {interpretation idents} {symbolic : List Value} {stack : List (V × Typ)}

theorem push {expr : Expr} {typ otherTyp : Typ} {value : V}
    (evaluates : expr.eval? interpretation idents = some value) (sameType : typ = otherTyp)
    (covers : Covers interpretation idents symbolic stack) :
    Covers interpretation idents (⟨expr, typ⟩ :: symbolic) ((value, otherTyp) :: stack) :=
  .cons ⟨evaluates, sameType⟩ covers

theorem of_prefix {recorded : List Value} (covers : Covers interpretation idents symbolic stack)
    (top : recorded <+: symbolic) : Covers interpretation idents recorded stack := by
  induction covers generalizing recorded with
  | nil stack =>
    rw [List.prefix_nil.mp top]
    exact .nil stack
  | cons denotes _ inductionHypothesis =>
    cases recorded with
    | nil => exact .nil _
    | cons first rest =>
      obtain ⟨rfl, rest⟩ := List.cons_prefix_cons.mp top
      exact .cons denotes (inductionHypothesis rest)

/-- The operands of a number of values on top of the stack. -/
theorem split {first second : List Value}
    (covers : Covers interpretation idents (first ++ second) stack) :
    ∃ operands rest, stack = operands ++ rest ∧
      List.Forall₂ (Denotes interpretation idents) first operands ∧
      Covers interpretation idents second rest := by
  induction first generalizing stack with
  | nil => exact ⟨[], stack, rfl, .nil, covers⟩
  | cons value first inductionHypothesis =>
    cases covers with
    | @cons _ operand _ stack denotes covers =>
      obtain ⟨operands, rest, rfl, all, others⟩ := inductionHypothesis covers
      exact ⟨operand :: operands, rest, rfl, .cons denotes all, others⟩

/-- Only temporaries that the values do not use may change. -/
theorem congr {others : Ident → V} {bound : Nat}
    (same : ∀ ident : Ident, ident.stamp < bound → others ident = idents ident)
    (tame : TameStack bound symbolic) (covers : Covers interpretation idents symbolic stack) :
    Covers interpretation others symbolic stack := by
  induction covers with
  | nil stack => exact .nil stack
  | cons denotes _ inductionHypothesis =>
    refine .cons ⟨?_, denotes.2⟩ (inductionHypothesis tame.tail)
    rw [tame.head.eval?_congr same]
    exact denotes.1

end Covers

/-- Arguments are evaluated to their operands. -/
theorem mapM_eval?_of_denotes {interpretation : Interpretation V W} {idents : Ident → V}
    {arguments : List Value} {operands : List (V × Typ)}
    (all : List.Forall₂ (Denotes interpretation idents) arguments operands) :
    (arguments.mapM fun argument => argument.expr.eval? interpretation idents) =
      some (operands.map Prod.fst) := by
  induction all with
  | nil => rfl
  | cons denotes _ inductionHypothesis =>
    rw [List.mapM_cons, denotes.1, inductionHypothesis]
    rfl

/-- Only temporaries that the arguments do not use may change. -/
theorem mapM_eval?_congr {interpretation : Interpretation V W} {idents others : Ident → V}
    {bound : Nat} (same : ∀ ident : Ident, ident.stamp < bound → others ident = idents ident)
    {arguments : List Value} (tame : TameStack bound arguments) :
    (arguments.mapM fun argument => argument.expr.eval? interpretation others) =
      arguments.mapM fun argument => argument.expr.eval? interpretation idents := by
  induction arguments with
  | nil => rfl
  | cons argument rest inductionHypothesis =>
    rw [List.mapM_cons, List.mapM_cons, tame.head.eval?_congr same, inductionHypothesis tame.tail]

end BytecodeFlow

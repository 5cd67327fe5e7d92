/-
This file executes what the operations of a block build. The commands of an
operation do to the `Store` of a procedure what its instruction does on the
stack machine (`CompletedBy`), and of the tests of a fork the one whose
condition holds is passed.
-/

import BytecodeFlow.Proofs.Execution.Mirroring
import BytecodeFlow.Proofs.Walk.Unguarded

namespace BytecodeFlow

variable {V W : Type}

namespace Store

/-- Execute commands one after the other with `Store.run?`. -/
def runAll? (interpretation : Interpretation V W) (store : Store V W) (commands : List Command) :
    Option (Store V W) :=
  commands.foldlM (fun store command => store.run? interpretation command) store

variable {interpretation : Interpretation V W} {store later : Store V W}

theorem runAll?_cons (command : Command) (commands : List Command) :
    store.runAll? interpretation (command :: commands) =
      (store.run? interpretation command).bind
        fun later => later.runAll? interpretation commands := rfl

theorem runAll?_singleton (command : Command) :
    store.runAll? interpretation [command] = store.run? interpretation command := by
  rw [runAll?_cons]
  cases store.run? interpretation command <;> rfl

/-- Only later temporaries are assigned. -/
theorem assign_below (store : Store V W) (stamp : Nat) (outcome : V × Scene String V W) :
    ∀ ident : Ident, ident.stamp < stamp →
      (store.assign ⟨stamp⟩ outcome).idents ident = store.idents ident := by
  intro ident below
  refine Function.update_of_ne ?_ _ _
  rintro rfl
  exact Nat.lt_irrefl _ below

end Store

namespace Procedure

variable {interpretation : Interpretation V W} {procedure : Procedure}

/-- Commands of a node on which `runAll?` succeeds are executed in `Steps`. -/
theorem steps_commands {node : NodeIndex} {earlier commands : List Command}
    {store later : Store V W} (held : earlier ++ commands <+: procedure.commandsOf node)
    (runs : store.runAll? interpretation commands = some later) :
    procedure.Steps interpretation ⟨node, earlier.length, store⟩
      ⟨node, (earlier ++ commands).length, later⟩ := by
  induction commands generalizing earlier store with
  | nil =>
    cases runs
    rw [List.append_nil]
  | cons command rest inductionHypothesis =>
    rw [Store.runAll?_cons] at runs
    obtain ⟨between, ran, runs⟩ := Option.bind_eq_some_iff.mp runs
    rw [List.append_cons] at held ⊢
    have found : (procedure.commandsOf node)[earlier.length]? = some command := by
      obtain ⟨others, same⟩ := held
      rw [← same, List.append_assoc, List.append_assoc]
      simp
    have onward := inductionHypothesis held runs
    rw [List.length_append] at onward
    exact .head (.command found ran) onward

end Procedure

/-! ### Operations that go straight on -/

namespace Walk

variable {interpretation : Interpretation V W} {routine : Routine}
  {earlier : List (Effect String V)} {store : Store V W} {walk : Walk} {operation : Operation}
  {commands : List Command} {transition : Transition V W}

/-- A new temporary on top of the stack stands for what is assigned to it. -/
theorem covers_assign {symbolic : List Value} {operands : List (V × Typ)} {stamp : Nat}
    (tame : TameStack stamp symbolic)
    (covers : Covers interpretation store.idents symbolic operands)
    (outcome : V × Scene String V W) (typ : Typ) :
    Covers interpretation (store.assign ⟨stamp⟩ outcome).idents (⟨.var ⟨stamp⟩, typ⟩ :: symbolic)
      ((outcome.1, typ) :: operands) :=
  .push (congrArg some (Function.update_self ..)) rfl
    (covers.congr (store.assign_below stamp outcome) tame)

/-- The new object is not among the arguments of its constructor. -/
theorem runAll?_construct {callee : MethodRef} {arguments : List Value} {values : List V}
    {object result : V} {middle outer : Scene String V W} {stamp : Nat}
    (tame : TameStack stamp arguments)
    (allocates : store.scene.allocate interpretation
      (Typ.ofName callee.declaringType).stripPointer = (object, middle))
    (evaluates : (arguments.mapM fun argument =>
      argument.expr.eval? interpretation store.idents) = some values)
    (calls : middle.call interpretation callee.fullName (object :: values) false = (result, outer))
    (typ : Typ) (location : Location) :
    store.runAll? interpretation
        [.call ⟨stamp⟩ typ (.function allocateFunction)
            [⟨.sizeOf (Typ.ofName callee.declaringType).stripPointer, .void⟩] false location,
          .call ⟨stamp + 1⟩ .void (.function callee.fullName) (⟨.var ⟨stamp⟩, typ⟩ :: arguments)
            false location] =
      some ((store.assign ⟨stamp⟩ (object, middle)).assign ⟨stamp + 1⟩ (result, outer)) := by
  let allocated := store.assign ⟨stamp⟩ (object, middle)
  have first : store.run? interpretation (.call ⟨stamp⟩ typ (.function allocateFunction)
      [⟨.sizeOf (Typ.ofName callee.declaringType).stripPointer, .void⟩] false location) =
        some allocated := by
    simp only [Store.run?, Store.call?, Expr.function, if_pos, allocates]
    rfl
  have others : (arguments.mapM fun argument =>
      argument.expr.eval? interpretation allocated.idents) = some values := by
    rw [← evaluates]
    exact mapM_eval?_congr (store.assign_below stamp _) tame
  have all : ((⟨.var ⟨stamp⟩, typ⟩ :: arguments).mapM fun argument : Value =>
      argument.expr.eval? interpretation allocated.idents) = some (object :: values) := by
    have own : allocated.idents ⟨stamp⟩ = object := Function.update_self ..
    rw [List.mapM_cons, others, Expr.eval?, own]
    rfl
  have second : allocated.run? interpretation (.call ⟨stamp + 1⟩ .void
      (.function callee.fullName) (⟨.var ⟨stamp⟩, typ⟩ :: arguments) false location) =
        some (allocated.assign ⟨stamp + 1⟩ (result, outer)) := by
    rw [Store.run?, call?_method all, show allocated.scene = middle from rfl, calls]
    rfl
  rw [Store.runAll?_cons, first, Option.bind_some, Store.runAll?_singleton, second]

/-- The commands of a `Straight` operation do what its instruction does. -/
theorem Straight.runs {target : Offset} {stack : List Value} {nextStamp : Nat}
    (straight : Straight routine walk operation commands target stack nextStamp)
    (mirrored : operation.Mirrored interpretation routine earlier store walk.offset walk.stack
      transition)
    (tame : TameStack walk.nextStamp walk.stack)
    (tameArguments : ∀ callee arguments, operation = .construct callee arguments →
      TameStack walk.nextStamp arguments) :
    ∃ operands scene later, transition = .next target operands scene ∧
      store.runAll? interpretation commands = some later ∧
      Covers interpretation later.idents stack operands ∧
      scene.Mirrors routine earlier later.scene ∧ later.result = store.result := by
  cases straight with
  | load following =>
    cases mirrored with
    | @load _ _ _ _ value _ outer known loads covers mirrors =>
      cases following.symm.trans known
      refine ⟨_, _, store.assign walk.nextIdent (value, outer), rfl, ?_,
        covers_assign tame covers (value, outer) _, mirrors, rfl⟩
      rw [Store.runAll?_singleton, Store.run?, loads]
      rfl
  | store following =>
    cases mirrored with
    | store known stores covers mirrors =>
      cases following.symm.trans known
      exact ⟨_, _, _, rfl, (Store.runAll?_singleton _).trans stores, covers, mirrors, rfl⟩
  | @invoke callee _ _ _ following =>
    cases mirrored with
    | @invoke _ _ _ _ _ result _ outer known calls covers mirrors =>
      cases following.symm.trans known
      refine ⟨_, _, store.assign walk.nextIdent (result, outer), rfl, ?_, ?_, mirrors, rfl⟩
      · rw [Store.runAll?_singleton, Store.run?, calls]
        rfl
      · split
        · exact covers.congr (store.assign_below _ _) tame
        · exact covers_assign tame covers (result, outer) _
  | construct following =>
    cases mirrored with
    | @construct _ _ _ _ object result values _ middle outer known allocates evaluates calls covers
        mirrors =>
      cases following.symm.trans known
      refine ⟨_, _, (store.assign walk.nextIdent (object, middle)).assign ⟨walk.nextStamp + 1⟩
        (result, outer), rfl, ?_, ?_, mirrors, rfl⟩
      · exact runAll?_construct (tameArguments _ _ rfl) allocates evaluates calls _ _
      · refine Covers.congr (Store.assign_below _ _ _) ?_
          (covers_assign tame covers (object, middle) _)
        exact .cons (Nat.lt_succ_self _) (tame.mono (Nat.le_succ _))
  | jump =>
    cases mirrored with
    | jump covers mirrors => exact ⟨_, _, store, rfl, rfl, covers, mirrors, rfl⟩
  | leave =>
    cases mirrored with
    | leave mirrors => exact ⟨_, _, store, rfl, rfl, .nil _, mirrors, rfl⟩

/-- The commands of a `Closing` operation leave its result. -/
theorem Closing.runs {destination : NodeIndex}
    (closing : Closing routine walk operation commands destination)
    (mirrored : operation.Mirrored interpretation routine earlier store walk.offset walk.stack
      transition)
    (blank : store.result = .returned none) :
    ∃ result scene later, transition = .ended result scene ∧
      store.runAll? interpretation commands = some later ∧
      scene.Mirrors routine earlier later.scene ∧ later.result = result := by
  cases closing with
  | finish =>
    cases mirrored with
    | finish mirrors => exact ⟨_, _, store, rfl, rfl, mirrors, blank⟩
  | @finishWith value =>
    cases mirrored with
    | finishWith evaluates mirrors =>
      refine ⟨_, _, { store with result := .returned (some _) }, rfl, ?_, mirrors, rfl⟩
      rw [Store.runAll?_singleton]
      cases value with
      | thrown => cases evaluates
      | _ =>
        simp only [Store.run?, Store.store?, Expr.returnSlot, Expr.frame, Expr.result?]
        rw [Store.eval?] at evaluates
        rw [evaluates]
        rfl
  | @raise exception =>
    cases mirrored with
    | raise evaluates mirrors =>
      refine ⟨_, _, { store with result := .thrown _ }, rfl, ?_, mirrors, rfl⟩
      rw [Store.runAll?_singleton]
      simp only [Store.run?, Store.store?, Expr.returnSlot, Expr.frame, Expr.result?]
      rw [Store.eval?] at evaluates
      rw [evaluates]
      rfl

end Walk

/-! ### Forks -/

/-- The target of the first arm whose condition evaluates to something true. -/
def Store.chosen? (interpretation : Interpretation V W) (store : Store V W)
    (arms : List (Expr × Offset)) : Option Offset :=
  (arms.find? fun arm => (store.eval? interpretation arm.1).any interpretation.truth).map Prod.snd

section Forks

variable {interpretation : Interpretation V W} {routine : Routine}
  {earlier : List (Effect String V)} {store : Store V W}

theorem chosen?_cons {condition : Expr} {value : V}
    (evaluates : store.eval? interpretation condition = some value) (target : Offset)
    (arms : List (Expr × Offset)) :
    store.chosen? interpretation ((condition, target) :: arms) =
      if interpretation.truth value then some target else store.chosen? interpretation arms := by
  unfold Store.chosen?
  cases truth : interpretation.truth value <;> simp [evaluates, truth]

theorem eval?_position {value : Expr} {operand : V}
    (evaluates : store.eval? interpretation value = some operand) (position : Nat) :
    store.eval? interpretation (.binary .equal value (.int position)) =
      some (interpretation.binary .equal operand (interpretation.constant (.int position))) :=
  Expr.eval?_binary evaluates rfl .equal

/-- The positions in `armsFrom` a value are tested in order. -/
theorem chosen?_armsFrom {value : Expr} {operand : V}
    (evaluates : store.eval? interpretation value = some operand) (position : Nat)
    (targets : List Offset) :
    store.chosen? interpretation (Operation.armsFrom value position targets) =
      Bytecode.caseOf? interpretation operand position targets := by
  induction targets generalizing position with
  | nil => rfl
  | cons target rest inductionHypothesis =>
    rw [Operation.armsFrom, chosen?_cons (eval?_position evaluates position),
      inductionHypothesis (position + 1)]
    rfl

theorem eval?_armsFrom {value : Expr} {operand : V}
    (evaluates : store.eval? interpretation value = some operand) (position : Nat)
    (targets : List Offset) :
    ∀ arm ∈ Operation.armsFrom value position targets,
      ∃ outcome, store.eval? interpretation arm.1 = some outcome := by
  induction targets generalizing position with
  | nil => exact fun _ member => absurd member List.not_mem_nil
  | cons target rest inductionHypothesis =>
    intro arm member
    rcases List.mem_cons.mp member with rfl | later
    · exact ⟨_, eval?_position evaluates position⟩
    · exact inductionHypothesis (position + 1) arm later

/-- A `Forking` operation goes on at the target of the first condition that is true. -/
theorem Operation.Forking.chosen {operation : Operation} {kind : BranchKind}
    {arms : List (Expr × Offset)} {offset : Offset} {symbolic : List Value}
    {transition : Transition V W} (forking : operation.Forking kind arms)
    (mirrored : operation.Mirrored interpretation routine earlier store offset symbolic
      transition) :
    ∃ next operands scene, routine.nextOffset? offset = some next ∧
      transition = .next ((store.chosen? interpretation arms).getD next) operands scene ∧
      Covers interpretation store.idents symbolic operands ∧
      scene.Mirrors routine earlier store.scene ∧
      ∀ arm ∈ arms, ∃ outcome, store.eval? interpretation arm.1 = some outcome := by
  cases forking with
  | branch condition target =>
    cases mirrored with
    | @branch _ _ next outcome _ _ following evaluates covers mirrors =>
      refine ⟨next, _, _, following, ?_, covers, mirrors, ?_⟩
      · rw [chosen?_cons evaluates]
        cases interpretation.truth outcome <;> rfl
      · intro arm member
        rw [List.mem_singleton.mp member]
        exact ⟨outcome, evaluates⟩
  | select value targets =>
    cases mirrored with
    | @select _ _ next _ _ _ following evaluates covers mirrors =>
      refine ⟨next, _, _, following, ?_, covers, mirrors, eval?_armsFrom evaluates 0 targets⟩
      rw [chosen?_armsFrom evaluates]

end Forks

namespace Procedure

/-- What a procedure becomes in the end: nodes with a way out get no more commands. -/
structure CompletedBy (first second : Procedure) : Prop where
  commands : ∀ index, first.commandsOf index <+: second.commandsOf index
  closed : ∀ index, first.successorsOf index ≠ [] →
    second.commandsOf index = first.commandsOf index
  edges : ∀ source target, target ∈ first.successorsOf source →
    target ∈ second.successorsOf source

variable {interpretation : Interpretation V W} {first second : Procedure} {store : Store V W}

/-- A node with a way out is left along it in the procedure that it is `CompletedBy`. -/
theorem CompletedBy.step (completed : first.CompletedBy second) {source target : NodeIndex}
    (edge : target ∈ first.successorsOf source) :
    second.Step interpretation ⟨source, (first.commandsOf source).length, store⟩
      ⟨target, 0, store⟩ := by
  rw [← completed.closed source (List.ne_nil_of_mem edge)]
  exact .edge (completed.edges source target edge)

/-- A prune whose condition is true is passed. -/
theorem CompletedBy.pass (completed : first.CompletedBy second) {source target : NodeIndex}
    {condition : Expr} {branch : Bool} {kind : BranchKind} {location : Location} {value : V}
    (edge : target ∈ first.successorsOf source)
    (prune : first.commandsOf target = [.prune condition branch kind location])
    (evaluates : store.eval? interpretation condition = some value)
    (truth : interpretation.truth value = true) :
    second.Steps interpretation ⟨source, (first.commandsOf source).length, store⟩
      ⟨target, (first.commandsOf target).length, store⟩ := by
  have runs : store.runAll? interpretation [.prune condition branch kind location] =
      some store := by
    rw [Store.runAll?_singleton, Store.run?, evaluates]
    exact if_pos truth
  have held : [] ++ [Command.prune condition branch kind location] <+:
      second.commandsOf target := prune ▸ completed.commands target
  rw [prune]
  exact .head (completed.step edge) (steps_commands held runs)

/-- Of several tests the first one whose condition is true is passed. -/
theorem Tests.steps {kind : BranchKind} {source last : NodeIndex} {arms : List (Expr × Offset)}
    {ways : List (NodeIndex × Offset)} (tests : first.Tests kind source arms last ways)
    (completed : first.CompletedBy second)
    (evaluates : ∀ arm ∈ arms, ∃ outcome, store.eval? interpretation arm.1 = some outcome)
    (next : Offset) :
    ∃ way ∈ ways ++ [(last, next)],
      way.2 = (store.chosen? interpretation arms).getD next ∧
      (way.1 = source ∨ 0 < (first.commandsOf way.1).length) ∧
      second.Steps interpretation ⟨source, (first.commandsOf source).length, store⟩
        ⟨way.1, (first.commandsOf way.1).length, store⟩ := by
  induction tests with
  | done source => exact ⟨(source, next), List.mem_singleton_self _, rfl, .inl rfl, .refl⟩
  | @test source taken notTaken last condition target arms ways location otherLocation branches
      holds fails rest inductionHypothesis =>
    obtain ⟨outcome, evaluated⟩ := evaluates _ List.mem_cons_self
    rw [chosen?_cons evaluated]
    cases truth : interpretation.truth outcome with
    | true =>
      refine ⟨(taken, target), List.mem_cons_self, rfl, .inr ?_, ?_⟩
      · rw [holds]
        exact Nat.one_pos
      · exact completed.pass (by simp [branches]) holds evaluated truth
    | false =>
      obtain ⟨way, member, leads, passed, steps⟩ := inductionHypothesis fun arm later =>
        evaluates arm (List.mem_cons_of_mem _ later)
      refine ⟨way, List.mem_cons_of_mem _ member, leads, .inr ?_, .trans ?_ steps⟩
      · rcases passed with same | passed
        · rw [same, fails]
          exact Nat.one_pos
        · exact passed
      · refine completed.pass (by simp [branches]) fails (Expr.eval?_unary evaluated .not) ?_
        rw [interpretation.truth_not, truth]
        rfl

end Procedure

end BytecodeFlow

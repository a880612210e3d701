import StackPrimer.Compilation.Statement
import StackPrimer.Proofs.Relocation.Action

/-!
# Statements behind other code

Each production stays in step with itself. Within the code of a statement a jump may wait for its
target; behind the statement none does that did not wait in front of it.

Results:
* `expressionsMovable`: the productions of expressions stay in step.
* `statementsMovable`: so do those of statements.
-/

namespace StackPrimer.Compilation

variable {old : Log} {b : Nat}

/-! ## Expressions -/

/-- Every production of expressions stays in step with itself. -/
structure ExpressionsMovable (old : Log) (b : Nat) : Prop where
  expression : Movable old (expressionWithin b)
  sum : Movable old (sumWithin b)
  term : Movable old (termWithin b)
  product : Movable old (productWithin b)
  factor : Movable old (factorWithin b)

namespace ExpressionsMovable

theorem expression_succ (ih : ExpressionsMovable old b) :
    Movable old (expressionWithin (b + 1)) := by
  rw [expressionWithin]
  refine movable_currentKind.bind fun k => ?_
  split
  · exact movable_advance.bind fun _ => (movable_expectSign _).bind fun _ =>
      (movable_expectSign _).bind fun _ => movable_emitPlain _
  · exact ih.term.bind fun _ => ih.sum

theorem sum_succ (ih : ExpressionsMovable old b) : Movable old (sumWithin (b + 1)) := by
  rw [sumWithin]
  refine movable_currentKind.bind fun k => ?_
  cases additive? k with
  | none => exact .pure _
  | some op => exact movable_advance.bind fun _ => ih.term.bind fun _ =>
      (movable_emitPlain op).bind fun _ => ih.sum

theorem term_succ (ih : ExpressionsMovable old b) : Movable old (termWithin (b + 1)) := by
  rw [termWithin]
  exact ih.factor.bind fun _ => ih.product

theorem product_succ (ih : ExpressionsMovable old b) : Movable old (productWithin (b + 1)) := by
  rw [productWithin]
  refine movable_currentKind.bind fun k => ?_
  cases multiplicative? k with
  | none => exact .pure _
  | some op => exact movable_advance.bind fun _ => ih.factor.bind fun _ =>
      (movable_emitPlain op).bind fun _ => ih.product

theorem factor_succ (ih : ExpressionsMovable old b) : Movable old (factorWithin (b + 1)) := by
  rw [factorWithin]
  refine movable_current.bind fun t => ?_
  split
  · exact movable_advance.bind fun _ => movable_load t
  · exact movable_advance.bind fun _ => movable_constant t
  · exact movable_advance.bind fun _ => ih.expression.bind fun _ => movable_expectSign _
  · exact .throw _

end ExpressionsMovable

/-- The productions of expressions stay in step. -/
theorem expressionsMovable (old : Log) (b : Nat) : ExpressionsMovable old b := by
  induction b with
  | zero => exact ⟨.throw _, .throw _, .throw _, .throw _, .throw _⟩
  | succ b ih =>
    exact ⟨ih.expression_succ, ih.sum_succ, ih.term_succ, ih.product_succ, ih.factor_succ⟩

theorem movable_expression (b : Nat) : Movable old (expressionWithin b) :=
  (expressionsMovable old b).expression

theorem movable_condition (b : Nat) : Movable old (conditionWithin b) := by
  unfold conditionWithin
  refine (movable_expression b).bind fun _ => movable_current.bind fun t => ?_
  cases relation? t.kind with
  | none => exact .throw _
  | some op => exact movable_advance.bind fun _ => (movable_expression b).bind fun _ =>
      movable_emitPlain op

/-! ## Single statements -/

theorem movable_moreArguments (b : Nat) : Movable old (moreArgumentsWithin b) := by
  induction b with
  | zero => exact .throw _
  | succ b ih =>
    rw [moreArgumentsWithin]
    refine movable_currentKind.bind fun k => ?_
    split
    · exact movable_advance.bind fun _ => (movable_expression b).bind fun _ => ih
    · exact .pure _

theorem movable_arguments (b : Nat) : Movable old (argumentsWithin b) := by
  unfold argumentsWithin
  refine movable_currentKind.bind fun k => ?_
  split
  · exact .pure _
  · exact (movable_expression b).bind fun _ => movable_moreArguments b

theorem movable_assignment (b : Nat) (name : Token) : Movable old (assignmentWithin b name) := by
  unfold assignmentWithin
  have hrest : Movable old (do expressionWithin b; store name) :=
    (movable_expression b).bind fun _ => movable_store name
  refine movable_advance.bind fun _ => (movable_declares name).bind fun known => ?_
  split
  · exact hrest
  · exact (movable_declare name).bind fun _ => hrest

/-- The return address waits from the first instruction of a call to the one behind the call. -/
theorem movable_call (b : Nat) (name : Token) : Movable old (callWithin b name) := by
  intro w
  unfold callWithin
  refine (moves_entry name).bind ?_
  rintro entry _ rfl
  cases entry with
  | none => exact Movable.throw _ w
  | some entry =>
    refine .waiting rfl fun back hback => ?_
    refine .after movable_advance fun _ => .after (movable_arguments b) fun _ => ?_
    refine .after (movable_expectSign _) fun _ => ?_
    exact (moves_emitInt rfl rfl).bind fun _ _ _ => moves_land hback

theorem movable_named (b : Nat) : Movable old (namedWithin b) := by
  unfold namedWithin
  refine (movable_expect _ _).bind fun name => movable_current.bind fun t => ?_
  split
  · exact movable_assignment b name
  · exact movable_call b name
  · exact .throw _

theorem movable_printing (b : Nat) : Movable old (printingWithin b) := by
  unfold printingWithin
  exact movable_advance.bind fun _ => (movable_expectSign _).bind fun _ =>
    (movable_expression b).bind fun _ => (movable_expectSign _).bind fun _ => movable_emitPlain _

theorem movable_goesOn (place : Place) : Movable old (goesOn place) := by
  unfold goesOn
  have hrest : Movable old (do skipIndents; return (← currentKind).startsStatement) :=
    movable_skipIndents.bind fun _ => movable_currentKind.bind fun _ => .pure _
  cases place with
  | topLevel => exact hrest
  | block =>
    refine movable_currentKind.bind fun k => ?_
    split
    · exact .pure _
    · exact hrest

/-! ## Statements -/

/-- Every production of statements stays in step with itself. -/
structure StatementsMovable (old : Log) (b : Nat) : Prop where
  statement : Movable old (statementWithin b)
  choice : Movable old (choiceWithin b)
  loop : Movable old (loopWithin b)
  block : Movable old (blockWithin b)
  statements (place : Place) : Movable old (statementsWithin b place)
  more (place : Place) : Movable old (moreStatementsWithin b place)

namespace StatementsMovable

theorem statement_succ (ih : StatementsMovable old b) : Movable old (statementWithin (b + 1)) := by
  rw [statementWithin]
  refine movable_currentKind.bind fun k => ?_
  split
  · exact movable_printing b
  · exact ih.choice
  · exact ih.loop
  · exact movable_named b

theorem choice_succ (ih : StatementsMovable old b) : Movable old (choiceWithin (b + 1)) := by
  intro w
  rw [choiceWithin]
  refine .after (movable_expect _ _) fun _ => .after (movable_condition b) fun _ => ?_
  refine .after (movable_expectSign _) fun _ => .waiting rfl fun past hpast => ?_
  refine .after ih.block fun _ => .after movable_currentKind fun k => ?_
  split
  · refine .waiting rfl fun skip hskip => ?_
    -- the first of the two jumps lands before the second one
    rw [Set.mem_insert_iff, not_or] at hskip
    rw [Set.insert_comm]
    have hpast' : past ∉ insert skip w := by
      rw [Set.mem_insert_iff, not_or]
      exact ⟨Ne.symm hskip.1, hpast⟩
    refine (moves_land hpast').bind fun _ _ _ => .after movable_advance fun _ => ?_
    exact .after (movable_expectSign _) fun _ => .after ih.block fun _ => moves_land hskip.2
  · exact moves_land hpast

theorem loop_succ (ih : StatementsMovable old b) : Movable old (loopWithin (b + 1)) := by
  intro w
  rw [loopWithin]
  refine .after (movable_expect _ _) fun _ => moves_here.bind fun top top' htop => ?_
  refine .after (movable_condition b) fun _ => .after (movable_expectSign _) fun _ => ?_
  refine .waiting rfl fun past hpast => .after ih.block fun _ => ?_
  exact (moves_emitInt rfl htop).bind fun _ _ _ => moves_land hpast

theorem block_succ (ih : StatementsMovable old b) : Movable old (blockWithin (b + 1)) := by
  rw [blockWithin]
  exact (movable_expect _ _).bind fun _ => ih.statements .block

theorem statements_succ (ih : StatementsMovable old b) (place : Place) :
    Movable old (statementsWithin (b + 1) place) := by
  rw [statementsWithin]
  refine movable_skipIndents.bind fun _ => movable_currentKind.bind fun k => ?_
  split
  · exact ih.statement.bind fun _ => ih.more place
  · exact .pure _

theorem more_succ (ih : StatementsMovable old b) (place : Place) :
    Movable old (moreStatementsWithin (b + 1) place) := by
  rw [moreStatementsWithin]
  refine (movable_goesOn place).bind fun more => ?_
  split
  · exact ih.statement.bind fun _ => ih.more place
  · exact .pure _

end StatementsMovable

/-- The productions of statements stay in step. -/
theorem statementsMovable (old : Log) (b : Nat) : StatementsMovable old b := by
  induction b with
  | zero =>
    exact ⟨.throw _, .throw _, .throw _, .throw _, fun _ => .throw _, fun _ => .throw _⟩
  | succ b ih =>
    exact ⟨ih.statement_succ, ih.choice_succ, ih.loop_succ, ih.block_succ, ih.statements_succ,
      ih.more_succ⟩

end StackPrimer.Compilation

import StackPrimer.Proofs.InStep.Expression

/-!
# Statements in step

Statements begin behind indentation of any depth. A block needs some in front of it, so that there
both streams have to have some; where it ends both streams stand at the same token, and that is no
indentation. The same holds behind the statements of a program.

Results:
* `statementsInStep`: the productions of statements are in step.
-/

namespace StackPrimer.Compilation

variable {c : Pairing}

/-! ## Statements without blocks -/

theorem inStep_expectName (e : Expectation) :
    InStep c (Streams c) (expect .name e) (expect .name e)
      (fun t u => c.same t u ∧ t.kind = .name) (Streams c) :=
  (inStep_expect rfl e).strengthen Behind.streams

theorem inStep_moreArguments (b : Nat) :
    InStep c (Streams c) (moreArgumentsWithin b) (moreArgumentsWithin b) Eq (Streams c) := by
  induction b with
  | zero => exact .unlucky
  | succ b ih =>
    rw [moreArgumentsWithin]
    refine .byKind (fun t u ht => ?_) fun k l hk hl => ?_
    · split
      · exact (inStep_pass ht).bind fun _ _ _ => (inStep_expression b).bind fun _ _ _ => ih
      · exact (InStep.pure rfl).weaken Facing.streams
    · rw [if_neg (not_isSoft hk rfl), if_neg (not_isSoft hl rfl)]
      exact .pure rfl

theorem inStep_arguments (b : Nat) :
    InStep c (Streams c) (argumentsWithin b) (argumentsWithin b) Eq (Streams c) := by
  have hfirst : InStep c (Streams c) (do expressionWithin b; moreArgumentsWithin b)
      (do expressionWithin b; moreArgumentsWithin b) Eq (Streams c) :=
    (inStep_expression b).bind fun _ _ _ => inStep_moreArguments b
  unfold argumentsWithin
  refine .byKind (fun t u ht => ?_) fun k l hk hl => ?_
  · split
    · exact (InStep.pure rfl).weaken Facing.streams
    · exact hfirst.weaken Facing.streams
  · rw [if_neg (not_isSoft hk rfl), if_neg (not_isSoft hl rfl)]
    exact hfirst

theorem inStep_assignment (b : Nat) {t u x y : Token} (ht : t.kind.isSoft = false) (h : c.same x y)
    (hx : x.kind = .name) :
    InStep c (Facing c t u) (assignmentWithin b x) (assignmentWithin b y) Eq (Streams c) := by
  have hrest : InStep c (Streams c) (do expressionWithin b; store x)
      (do expressionWithin b; store y) Eq (Streams c) :=
    (inStep_expression b).bind fun _ _ _ => inStep_store h hx
  unfold assignmentWithin
  refine (inStep_pass ht).bind fun _ _ _ => (inStep_declares h hx).bind ?_
  rintro known _ rfl
  exact .ite rfl hrest ((inStep_declare h hx).bind fun _ _ _ => hrest)

theorem inStep_call (b : Nat) {t u x y : Token} (ht : t.kind.isSoft = false) (h : c.same x y)
    (hx : x.kind = .name) :
    InStep c (Facing c t u) (callWithin b x) (callWithin b y) Eq (Streams c) := by
  unfold callWithin
  refine (inStep_entry h hx).bind ?_
  rintro entry _ rfl
  cases entry with
  | none => exact .throw (.undeclared .function h)
  | some entry =>
    refine (inStep_emitInt _ _).bind ?_
    rintro back _ rfl
    exact (inStep_pass ht).bind fun _ _ _ => (inStep_arguments b).bind fun _ _ _ =>
      (inStep_passSign _).bind fun _ _ _ => (inStep_emitInt _ _).bind fun _ _ _ => inStep_land back

theorem inStep_named (b : Nat) :
    InStep c (Streams c) (namedWithin b) (namedWithin b) Eq (Streams c) := by
  unfold namedWithin
  refine (inStep_expectName _).bind ?_
  rintro x y ⟨h, hx⟩
  refine .byToken (fun t u ht hsame => ?_) fun t u ht hu hheads => ?_
  · rw [c.kind_eq hsame]
    split
    · exact inStep_assignment b ht h hx
    · exact inStep_call b ht h hx
    · exact .throw (.unexpected (.inl hsame) _)
  · have htassign := not_isSoft (l := .sign .assign) ht rfl
    have htopening := not_isSoft (l := .sign .opening) ht rfl
    have huassign := not_isSoft (l := .sign .assign) hu rfl
    have huopening := not_isSoft (l := .sign .opening) hu rfl
    split <;> first | contradiction | exact .throw (.unexpected hheads _)

theorem inStep_printing (b : Nat) {t u : Token} (ht : t.kind.isSoft = false) :
    InStep c (Facing c t u) (printingWithin b) (printingWithin b) Eq (Streams c) := by
  unfold printingWithin
  exact (inStep_pass ht).bind fun _ _ _ => (inStep_passSign _).bind fun _ _ _ =>
    (inStep_expression b).bind fun _ _ _ => (inStep_passSign _).bind fun _ _ _ =>
    inStep_emitPlain _

/-! ## Whether statements go on -/

/-- Behind indentation the streams are settled, and the token there says whether a statement
follows. -/
theorem inStep_afterIndents :
    InStep c (Loose c) (do skipIndents; return (← currentKind).startsStatement)
      (do skipIndents; return (← currentKind).startsStatement) Eq (Settled c) :=
  inStep_skipIndents.bind fun _ _ _ => .settledKind fun t u ht =>
    (InStep.pure rfl).weaken fun h => ⟨t, u, ht, h⟩

theorem skipIndents_of_ne {s : State} (h : s.token.kind ≠ .indent) : skipIndents s = .ok () s :=
  skipIndents_cons (afterIndents_cons h)

theorem goesOn_block_of_ne {s : State} (h : s.token.kind ≠ .indent) :
    goesOn .block s = .ok false s := by
  unfold goesOn
  rw [bind_of_ok (currentKind_ok s), if_pos ⟨rfl, h⟩]
  rfl

/-- Where indentation, an `else` or the end is in front, passing the indentation tells whether a block
goes on. -/
theorem goesOn_block_of_isSoft {s : State} (h : s.token.kind.isSoft = true) :
    goesOn .block s = (do skipIndents; return (← currentKind).startsStatement : Action Bool) s := by
  by_cases hk : s.token.kind = .indent
  · unfold goesOn
    rw [bind_of_ok (currentKind_ok s), if_neg (by simp [hk])]
  · have hstarts : s.token.kind.startsStatement = false := by
      cases hkind : s.token.kind with
      | word w => cases w <;> first | rfl | simp [hkind, Kind.isSoft] at h
      | name => simp [hkind, Kind.isSoft] at h
      | _ => rfl
    rw [goesOn_block_of_ne hk, bind_of_ok (skipIndents_of_ne hk), bind_of_ok (currentKind_ok s),
      hstarts]
    rfl

/-- In a block the streams may differ in whether an `else` or the end is indented: the block ends in
front of it in either case. -/
theorem inStep_goesOn (place : Place) :
    InStep c (Streams c) (goesOn place) (goesOn place) Eq (Settled c) := by
  intro s s' h
  have hloose : c.States (Loose c) s s' := h.mono Streams.loose
  cases place with
  | topLevel => exact inStep_afterIndents s s' hloose
  | block =>
    rcases InStep.streams_heads h with ⟨t, u, rfl, rfl, ht, hfacing⟩ | ⟨hk, hl, -⟩
    · obtain ⟨-, -, -, -, hsame, -⟩ := hfacing.tokens
      have hkind : s.token.kind ≠ .indent := (not_isSoft (k := .indent) rfl ht).symm
      rw [goesOn_block_of_ne hkind, goesOn_block_of_ne (by rwa [c.kind_eq hsame])]
      exact .ok rfl (hfacing.mono fun hf => ⟨_, _, hkind, hf⟩)
    · rw [goesOn_block_of_isSoft hk, goesOn_block_of_isSoft hl]
      exact inStep_afterIndents s s' hloose

/-! ## Statements with blocks -/

/-- Every production of statements is in step with itself. -/
structure StatementsInStep (c : Pairing) (b : Nat) : Prop where
  statement : InStep c (Streams c) (statementWithin b) (statementWithin b) Eq (Streams c)
  choice : InStep c (Streams c) (choiceWithin b) (choiceWithin b) Eq (Streams c)
  loop : InStep c (Streams c) (loopWithin b) (loopWithin b) Eq (Streams c)
  block : InStep c (Aligned c) (blockWithin b) (blockWithin b) Eq (Settled c)
  statements (place : Place) :
    InStep c (Loose c) (statementsWithin b place) (statementsWithin b place) Eq (Settled c)
  more (place : Place) :
    InStep c (Streams c) (moreStatementsWithin b place) (moreStatementsWithin b place) Eq (Settled c)

/-- The sign in front of a block leaves tokens of the same kind in front. -/
theorem inStep_expectColon :
    InStep c (Streams c) (expectSign .colon) (expectSign .colon) Eq (Aligned c) :=
  (inStep_expectSign .colon).strengthen fun h => ⟨h.1, h.2 rfl⟩

namespace StatementsInStep

variable {b : Nat}

theorem statement_succ (ih : StatementsInStep c b) :
    InStep c (Streams c) (statementWithin (b + 1)) (statementWithin (b + 1)) Eq (Streams c) := by
  rw [statementWithin]
  refine .byKind (fun t u ht => ?_) fun k l hk hl => ?_
  · split
    · exact inStep_printing b ht
    · exact ih.choice.weaken Facing.streams
    · exact ih.loop.weaken Facing.streams
    · exact (inStep_named b).weaken Facing.streams
  · have hrefuse : ∀ {k : Kind}, k.isSoft = true → k ≠ .word .printWord ∧ k ≠ .word .ifWord ∧
        k ≠ .word .whileWord :=
      fun hk => ⟨not_isSoft hk rfl, not_isSoft hk rfl, not_isSoft hk rfl⟩
    obtain ⟨hkprint, hkif, hkwhile⟩ := hrefuse hk
    obtain ⟨hlprint, hlif, hlwhile⟩ := hrefuse hl
    split <;> first | contradiction | skip
    exact inStep_named b

theorem choice_succ (ih : StatementsInStep c b) :
    InStep c (Streams c) (choiceWithin (b + 1)) (choiceWithin (b + 1)) Eq (Streams c) := by
  rw [choiceWithin]
  refine ((inStep_expect rfl _).strengthen Behind.streams).bind fun _ _ _ => ?_
  refine (inStep_condition b).bind fun _ _ _ => inStep_expectColon.bind fun _ _ _ => ?_
  refine (inStep_emitInt _ _).bind ?_
  rintro past _ rfl
  refine ih.block.bind fun _ _ _ => .settledKind fun t u ht => ?_
  split
  · rename_i helse
    refine (inStep_emitInt _ _).bind ?_
    rintro skip _ rfl
    refine (inStep_land past).bind fun _ _ _ => ?_
    refine ((inStep_advance (by simp [helse])).strengthen Behind.streams).bind fun _ _ _ => ?_
    exact inStep_expectColon.bind fun _ _ _ => ih.block.bind fun _ _ _ =>
      (inStep_land skip).strengthen Settled.streams
  · exact (inStep_land past).weaken Facing.streams

theorem loop_succ (ih : StatementsInStep c b) :
    InStep c (Streams c) (loopWithin (b + 1)) (loopWithin (b + 1)) Eq (Streams c) := by
  rw [loopWithin]
  refine ((inStep_expect rfl _).strengthen Behind.streams).bind fun _ _ _ => ?_
  refine inStep_here.bind ?_
  rintro top _ rfl
  refine (inStep_condition b).bind fun _ _ _ => inStep_expectColon.bind fun _ _ _ => ?_
  refine (inStep_emitInt _ _).bind ?_
  rintro past _ rfl
  exact ih.block.bind fun _ _ _ => (inStep_emitInt _ _).bind fun _ _ _ =>
    (inStep_land past).strengthen Settled.streams

theorem block_succ (ih : StatementsInStep c b) :
    InStep c (Aligned c) (blockWithin (b + 1)) (blockWithin (b + 1)) Eq (Settled c) := by
  rw [blockWithin]
  exact inStep_expectIndent.bind fun _ _ _ => ih.statements .block

theorem statements_succ (ih : StatementsInStep c b) (place : Place) :
    InStep c (Loose c) (statementsWithin (b + 1) place) (statementsWithin (b + 1) place) Eq
      (Settled c) := by
  rw [statementsWithin]
  refine inStep_skipIndents.bind fun _ _ _ => .settledKind fun t u ht => ?_
  refine .ite rfl ?_ ((InStep.pure rfl).weaken fun h => ⟨t, u, ht, h⟩)
  exact (ih.statement.weaken Facing.streams).bind fun _ _ _ => ih.more place

theorem more_succ (ih : StatementsInStep c b) (place : Place) :
    InStep c (Streams c) (moreStatementsWithin (b + 1) place) (moreStatementsWithin (b + 1) place) Eq
      (Settled c) := by
  rw [moreStatementsWithin]
  refine (inStep_goesOn place).bind ?_
  rintro more _ rfl
  exact .ite rfl ((ih.statement.weaken Settled.streams).bind fun _ _ _ => ih.more place) (.pure rfl)

end StatementsInStep

/-- The productions of statements are in step. -/
theorem statementsInStep (c : Pairing) (b : Nat) : StatementsInStep c b := by
  induction b with
  | zero => exact ⟨.unlucky, .unlucky, .unlucky, .unlucky, fun _ => .unlucky, fun _ => .unlucky⟩
  | succ b ih =>
    exact ⟨ih.statement_succ, ih.choice_succ, ih.loop_succ, ih.block_succ, ih.statements_succ,
      ih.more_succ⟩

end StackPrimer.Compilation

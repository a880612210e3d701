import StackPrimer.Proofs.InStep.Action

/-!
# Expressions in step

No production of expressions passes indentation, and where the streams differ in it each of them ends
or refuses what it finds.

Results:
* `expressionsInStep`: the productions of expressions are in step.
* `inStep_condition`: so are conditions.
-/

namespace StackPrimer.Compilation

variable {c : Pairing}

theorem Behind.streams {k : Kind} {ts us : List Token} (h : Behind c k ts us) : Streams c ts us := h.1

/-- Every production of expressions is in step with itself. -/
structure ExpressionsInStep (c : Pairing) (b : Nat) : Prop where
  expression : InStep c (Streams c) (expressionWithin b) (expressionWithin b) Eq (Streams c)
  sum : InStep c (Streams c) (sumWithin b) (sumWithin b) Eq (Streams c)
  term : InStep c (Streams c) (termWithin b) (termWithin b) Eq (Streams c)
  product : InStep c (Streams c) (productWithin b) (productWithin b) Eq (Streams c)
  factor : InStep c (Streams c) (factorWithin b) (factorWithin b) Eq (Streams c)

/-- A token that ends whatever is no statement is of none of the kinds that expressions ask for. -/
theorem not_isSoft {k l : Kind} (hk : k.isSoft = true) (hl : l.isSoft = false) : k ≠ l := by
  rintro rfl
  rw [hk] at hl
  cases hl

theorem additive?_of_isSoft {k : Kind} (hk : k.isSoft = true) : additive? k = none := by
  unfold additive?
  split <;> first | rfl | cases hk

theorem multiplicative?_of_isSoft {k : Kind} (hk : k.isSoft = true) : multiplicative? k = none := by
  unfold multiplicative?
  split <;> first | rfl | cases hk

theorem relation?_of_isSoft {k : Kind} (hk : k.isSoft = true) : relation? k = none := by
  unfold relation?
  split <;> first | rfl | cases hk

theorem ne_finish_of_isSoft {k : Kind} (hk : k.isSoft = false) : k ≠ .finish := by
  rintro rfl
  cases hk

/-- Passing a token, where nothing hangs on which one it was. -/
theorem inStep_pass {t u : Token} (ht : t.kind.isSoft = false) :
    InStep c (Facing c t u) advance advance Eq (Streams c) :=
  (inStep_advance (ne_finish_of_isSoft ht)).strengthen Behind.streams

theorem inStep_passSign (x : Sign) :
    InStep c (Streams c) (expectSign x) (expectSign x) Eq (Streams c) :=
  (inStep_expectSign x).strengthen Behind.streams

namespace ExpressionsInStep

variable {b : Nat}

theorem expression_succ (ih : ExpressionsInStep c b) :
    InStep c (Streams c) (expressionWithin (b + 1)) (expressionWithin (b + 1)) Eq (Streams c) := by
  rw [expressionWithin]
  have hsum : InStep c (Streams c) (do termWithin b; sumWithin b) (do termWithin b; sumWithin b) Eq
      (Streams c) :=
    ih.term.bind fun _ _ _ => ih.sum
  refine .byKind (fun t u ht => ?_) fun k l hk hl => ?_
  · split
    · exact (inStep_pass ht).bind fun _ _ _ => (inStep_passSign _).bind fun _ _ _ =>
        (inStep_passSign _).bind fun _ _ _ => inStep_emitPlain _
    · exact hsum.weaken Facing.streams
  · rw [if_neg (not_isSoft hk rfl), if_neg (not_isSoft hl rfl)]
    exact hsum

theorem sum_succ (ih : ExpressionsInStep c b) :
    InStep c (Streams c) (sumWithin (b + 1)) (sumWithin (b + 1)) Eq (Streams c) := by
  rw [sumWithin]
  refine .byKind (fun t u ht => ?_) fun k l hk hl => ?_
  · cases additive? t.kind with
    | none => exact (InStep.pure rfl).weaken Facing.streams
    | some op => exact (inStep_pass ht).bind fun _ _ _ => ih.term.bind fun _ _ _ =>
        (inStep_emitPlain op).bind fun _ _ _ => ih.sum
  · rw [additive?_of_isSoft hk, additive?_of_isSoft hl]
    exact .pure rfl

theorem term_succ (ih : ExpressionsInStep c b) :
    InStep c (Streams c) (termWithin (b + 1)) (termWithin (b + 1)) Eq (Streams c) := by
  rw [termWithin]
  exact ih.factor.bind fun _ _ _ => ih.product

theorem product_succ (ih : ExpressionsInStep c b) :
    InStep c (Streams c) (productWithin (b + 1)) (productWithin (b + 1)) Eq (Streams c) := by
  rw [productWithin]
  refine .byKind (fun t u ht => ?_) fun k l hk hl => ?_
  · cases multiplicative? t.kind with
    | none => exact (InStep.pure rfl).weaken Facing.streams
    | some op => exact (inStep_pass ht).bind fun _ _ _ => ih.factor.bind fun _ _ _ =>
        (inStep_emitPlain op).bind fun _ _ _ => ih.product
  · rw [multiplicative?_of_isSoft hk, multiplicative?_of_isSoft hl]
    exact .pure rfl

theorem factor_succ (ih : ExpressionsInStep c b) :
    InStep c (Streams c) (factorWithin (b + 1)) (factorWithin (b + 1)) Eq (Streams c) := by
  have hrefuse : ∀ {k : Kind}, k.isSoft = true →
      k ≠ .name ∧ k ≠ .number ∧ k ≠ .sign .opening :=
    fun hk => ⟨not_isSoft hk rfl, not_isSoft hk rfl, not_isSoft hk rfl⟩
  rw [factorWithin]
  refine .byToken (fun t u ht hsame => ?_) fun t u ht hu hheads => ?_
  · rw [c.kind_eq hsame]
    split
    · rename_i hname
      exact (inStep_pass ht).bind fun _ _ _ => inStep_load hsame hname
    · rename_i hnumber
      exact (inStep_pass ht).bind fun _ _ _ => inStep_constant hsame hnumber
    · exact (inStep_pass ht).bind fun _ _ _ => ih.expression.bind fun _ _ _ => inStep_passSign _
    · exact .throw (.unexpected (.inl hsame) _)
  · obtain ⟨htname, htnumber, htopening⟩ := hrefuse ht
    obtain ⟨huname, hunumber, huopening⟩ := hrefuse hu
    split <;> first | contradiction | exact .throw (.unexpected hheads _)

end ExpressionsInStep

/-- The productions of expressions are in step. -/
theorem expressionsInStep (c : Pairing) (b : Nat) : ExpressionsInStep c b := by
  induction b with
  | zero => exact ⟨.unlucky, .unlucky, .unlucky, .unlucky, .unlucky⟩
  | succ b ih =>
    exact ⟨ih.expression_succ, ih.sum_succ, ih.term_succ, ih.product_succ, ih.factor_succ⟩

theorem inStep_expression (b : Nat) :
    InStep c (Streams c) (expressionWithin b) (expressionWithin b) Eq (Streams c) :=
  (expressionsInStep c b).expression

theorem inStep_condition (b : Nat) :
    InStep c (Streams c) (conditionWithin b) (conditionWithin b) Eq (Streams c) := by
  unfold conditionWithin
  refine (inStep_expression b).bind fun _ _ _ => ?_
  refine .byToken (fun t u ht hsame => ?_) fun t u ht hu hheads => ?_
  · rw [c.kind_eq hsame]
    cases relation? t.kind with
    | none => exact .throw (.unexpected (.inl hsame) _)
    | some op => exact (inStep_pass ht).bind fun _ _ _ => (inStep_expression b).bind fun _ _ _ =>
        inStep_emitPlain op
  · rw [relation?_of_isSoft ht, relation?_of_isSoft hu]
    exact .throw (.unexpected hheads _)

end StackPrimer.Compilation

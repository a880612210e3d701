import StackPrimer.Proofs.OnePass.Expression
import StackPrimer.Proofs.OnePass.Success

/-!
# Failures that a stream can cause

A stream of tokens that has an end makes a compilation fail in three ways: a token is not what the
grammar asks for, a name denotes nothing, or a function is declared twice. A fourth one needs a number
that cannot be read. No stream gets the address book or the instruction log to refuse anything, leaves
a variable unbound, or uses up the budget.

The budget lasts because five are left for every token that is still to come, and no more than four
productions lie between one token and the next.

Results:
* `expressionsAnnounce`: all productions of expressions fail in these ways only.
-/

namespace StackPrimer

namespace Grammar

theorem AddSign.takesOperand_opcode (x : AddSign) : x.opcode.takesOperand = false := by
  cases x <;> rfl

theorem MulSign.takesOperand_opcode (x : MulSign) : x.opcode.takesOperand = false := by
  cases x <;> rfl

theorem Comparison.takesOperand_opcode (x : Comparison) : x.opcode.takesOperand = false := by
  cases x <;> rfl

end Grammar

namespace Compilation

open Grammar

/-- A failure that these tokens can cause. -/
inductive Failure.Announced (tokens : List Token) : Failure → Prop
  | unexpected (t : Token) (e : Expectation) : Announced tokens (.unexpected t e)
  | undeclared (role : Role) (t : Token) : Announced tokens (.undeclared role t)
  | redefined (t : Token) : Announced tokens (.redefined t)
  | badNumber {t : Token} : t ∈ tokens → t.kind = .number → Number.readFloat? t.lexeme = none →
      Announced tokens (.badNumber t.lexeme)

/-- A token is missing in none of these cases. -/
theorem Failure.Announced.ne_outOfTokens {tokens : List Token} {e : Failure}
    (h : e.Announced tokens) : e ≠ .outOfTokens := by
  rintro rfl
  cases h

theorem Failure.Announced.mono {tokens tokens' : List Token} {e : Failure} (h : e.Announced tokens)
    (hsub : tokens ⊆ tokens') : e.Announced tokens' := by
  cases h with
  | unexpected t e => exact .unexpected t e
  | undeclared role t => exact .undeclared role t
  | redefined t => exact .redefined t
  | badNumber ht hk hread => exact .badNumber (hsub ht) hk hread

/-- From this state, the action fails only in a way that the tokens left can cause. -/
def Announces {α : Type} (x : Action α) (s : State) : Prop :=
  ∀ e s', x s = .error e s' → e.Announced s.tokens

variable {s s' : State}

/-! ## Sequences -/

theorem Advances.subset {ts : List Terminal} {is : List Instruction} (h : Advances s s' ts is) :
    s'.tokens ⊆ s.tokens := by
  obtain ⟨passed, hp, -, -⟩ := h.tokens
  rw [hp]
  exact List.subset_append_right ..

namespace Announces

variable {α β : Type} {x : Action α} {f : α → Action β}

theorem of_ok (h : ∃ a s', x s = .ok a s') : Announces x s := by
  obtain ⟨a, s', h⟩ := h
  intro e s'' he
  rw [h] at he
  cases he

theorem throw {e : Failure} (h : e.Announced s.tokens) : Announces (throw e : Action α) s := by
  intro e' s' he
  cases he
  exact h

theorem pure (a : α) : Announces (Pure.pure a : Action α) s := of_ok ⟨a, s, rfl⟩

/-- A first part that only reads the state. -/
theorem read {a : α} (hx : x s = .ok a s) (hf : Announces (f a) s) : Announces (x >>= f) s := by
  intro e s' he
  rw [bind_of_ok hx] at he
  exact hf e s' he

theorem bind (hx : Announces x s)
    (hf : ∀ a s₁, x s = .ok a s₁ → s₁.tokens ⊆ s.tokens ∧ Announces (f a) s₁) :
    Announces (x >>= f) s := by
  intro e s' he
  rcases bind_eq_error.mp he with he | ⟨a, s₁, ha, he⟩
  · exact hx e s' he
  · obtain ⟨hsub, hannounces⟩ := hf a s₁ ha
    exact (hannounces e s' he).mono hsub

end Announces

/-! ## The budget -/

/-- The stream has an end, and the budget is five for each token behind the one looked at and some
in reserve. -/
structure Supplied (budget reserve : Nat) (s : State) : Prop where
  ends : ∃ t ∈ s.tokens, t.kind = .finish
  budget : 5 * s.upcoming.length + reserve ≤ budget

namespace Supplied

variable {budget reserve : Nat} {ts : List Terminal} {is : List Instruction}

/-- A token that has been passed leaves five more in reserve. -/
theorem advances (h : Supplied budget reserve s) (hadv : Advances s s' ts is) :
    Supplied budget (reserve + 5 * ts.length) s' := by
  obtain ⟨passed, hp, hts, hk⟩ := hadv.tokens
  obtain ⟨t, ht, hfinish⟩ := h.ends
  have hlength : s.upcoming.length = ts.length + s'.upcoming.length := by
    have hall := congrArg List.length hp
    simp only [State.tokens, List.length_append, List.length_cons] at hall
    rw [← hts, List.length_map]
    omega
  refine ⟨⟨t, ?_, hfinish⟩, ?_⟩
  · rw [hp, List.mem_append] at ht
    exact ht.resolve_left fun hmem => hk t hmem hfinish
  · have hbudget := h.budget
    omega

theorem mono {reserve' : Nat} (h : Supplied budget reserve s) (hr : reserve' ≤ reserve) :
    Supplied budget reserve' s := by
  have hbudget := h.budget
  exact ⟨h.ends, by omega⟩

theorem pred {reserve' : Nat} (h : Supplied (budget + 1) reserve s) (hr : reserve' + 1 ≤ reserve) :
    Supplied budget reserve' s := by
  have hbudget := h.budget
  exact ⟨h.ends, by omega⟩

theorem of_tokens (h : Supplied budget reserve s) (ht : s'.tokens = s.tokens) :
    Supplied budget reserve s' := by
  have hbudget := h.budget
  rw [← (List.cons.inj ht).2] at hbudget
  exact ⟨by rw [ht]; exact h.ends, hbudget⟩

theorem not_zero (h : Supplied 0 (reserve + 1) s) : False := by
  have hbudget := h.budget
  omega

/-- Something stands behind a token that is not the end. -/
theorem upcoming_ne_nil (h : Supplied budget reserve s) (hk : s.token.kind ≠ .finish) :
    s.upcoming ≠ [] := by
  intro hnil
  obtain ⟨t, ht, hfinish⟩ := h.ends
  rw [State.tokens, hnil, List.mem_singleton] at ht
  exact hk (ht ▸ hfinish)

end Supplied

/-! ## Single actions -/

section Actions

variable {budget reserve : Nat}

theorem announces_advance (h : Supplied budget reserve s) : Announces advance s := by
  by_cases hk : s.token.kind = .finish
  · exact .of_ok ⟨(), s, advance_finish hk⟩
  · obtain ⟨s', hadv⟩ := exists_advance (h.upcoming_ne_nil hk)
    exact .of_ok ⟨(), s', hadv⟩

theorem announces_expect (h : Supplied budget reserve s) (k : Kind) (e : Expectation) :
    Announces (expect k e) s := by
  unfold expect
  refine .read (current_ok s) ?_
  split
  · intro e' s' he
    rcases bind_eq_error.mp he with he | ⟨a, s₁, -, he⟩
    · exact announces_advance h e' s' he
    · cases he
  · exact .throw (.unexpected s.token e)

theorem announces_expectSign (h : Supplied budget reserve s) (x : Sign) :
    Announces (expectSign x) s := by
  intro e s' he
  rcases bind_eq_error.mp he with he | ⟨a, s₁, -, he⟩
  · exact announces_expect h _ _ e s' he
  · cases he

theorem announces_skipIndents (h : Supplied budget reserve s) : Announces skipIndents s := by
  obtain ⟨t, ht, hk⟩ := h.ends
  obtain ⟨s', hskip⟩ := exists_skipIndents ⟨t, ht, by simp [hk]⟩
  exact .of_ok ⟨(), s', hskip⟩

theorem announces_emitInt {op : Opcode} (h : op.takesOperand = true) (n : Int) :
    Announces (emitInt op n) s :=
  .of_ok (exists_emitInt op h n s)

theorem announces_emitPlain {op : Opcode} (h : op.takesOperand = false) :
    Announces (emitPlain op) s := by
  obtain ⟨s', hemit⟩ := exists_emitPlain h s
  exact .of_ok ⟨(), s', hemit⟩

theorem announces_load (t : Token) (hs : s.book.Sound) : Announces (load t) s := by
  cases hscope : s.book.names.scope? t.lexeme with
  | none =>
    have hfind := s.book.find?_eq hs t.lexeme
    rw [hscope] at hfind
    have hlookup : lookup t s = .ok none s := by rw [lookup, hfind]
    exact .read hlookup (.throw (.undeclared .variable t))
  | some scope =>
    obtain ⟨s', hload⟩ := exists_load hs (by rw [hscope]; rfl)
    exact .of_ok ⟨(), s', hload⟩

/-- A number fails only by its own lexeme. -/
theorem constant_error {t : Token} {e : Failure} (h : constant t s = .error e s') :
    Number.readFloat? t.lexeme = none ∧ e = .badNumber t.lexeme := by
  unfold constant at h
  cases hread : Number.readFloat? t.lexeme with
  | none =>
    rw [hread] at h
    cases h
    exact ⟨rfl, rfl⟩
  | some v =>
    rw [hread] at h
    obtain ⟨a, s₁, hemit⟩ := exists_emit .constant (some (.float v)) rfl s
    simp only [bind_of_ok hemit] at h
    cases h

end Actions

/-! ## Expressions -/

/-- Every production of expressions within this budget fails in the announced ways only. -/
structure ExpressionsAnnounce (budget : Nat) : Prop where
  expression : ∀ {s : State}, s.book.Sound → Supplied budget 3 s →
    Announces (expressionWithin budget) s
  sum : ∀ {s : State}, s.book.Sound → Supplied budget 1 s → Announces (sumWithin budget) s
  term : ∀ {s : State}, s.book.Sound → Supplied budget 2 s → Announces (termWithin budget) s
  product : ∀ {s : State}, s.book.Sound → Supplied budget 1 s → Announces (productWithin budget) s
  factor : ∀ {s : State}, s.book.Sound → Supplied budget 1 s → Announces (factorWithin budget) s

namespace ExpressionsAnnounce

variable {budget : Nat}

theorem expression_succ (ih : ExpressionsAnnounce budget) (hs : s.book.Sound)
    (h : Supplied (budget + 1) 3 s) : Announces (expressionWithin (budget + 1)) s := by
  rw [expressionWithin]
  refine .read (currentKind_ok s) ?_
  split
  · rename_i hk
    refine .bind (announces_advance h) fun _ s₁ h₁ => ?_
    have hw₁ := advance_mark h₁ hk (by simp) (by simp) (by simp)
    have hsupplied₁ := h.advances hw₁.toAdvances
    refine ⟨hw₁.subset, .bind (announces_expectSign hsupplied₁ _) fun _ s₂ h₂ => ?_⟩
    have hw₂ := expectSign_ok h₂
    have hsupplied₂ := hsupplied₁.advances hw₂.toAdvances
    refine ⟨hw₂.subset, .bind (announces_expectSign hsupplied₂ _) fun _ s₃ h₃ => ?_⟩
    exact ⟨(expectSign_ok h₃).subset, announces_emitPlain rfl⟩
  · have hsupplied : Supplied budget 2 s := h.pred (by omega)
    refine .bind (ih.term hs hsupplied) fun _ s₁ h₁ => ?_
    obtain ⟨t, -, hw₁⟩ := (expressionsRead budget).term hs h₁
    exact ⟨hw₁.subset, ih.sum (hw₁.sound hs) ((hsupplied.advances hw₁.toAdvances).mono (by omega))⟩

theorem sum_succ (ih : ExpressionsAnnounce budget) (hs : s.book.Sound)
    (h : Supplied (budget + 1) 1 s) : Announces (sumWithin (budget + 1)) s := by
  rw [sumWithin]
  refine .read (currentKind_ok s) ?_
  cases hop : additive? s.token.kind with
  | none => exact .pure ()
  | some op =>
    obtain ⟨x, hk, rfl⟩ := additive?_eq_some hop
    refine .bind (announces_advance h) fun _ s₁ h₁ => ?_
    have hw₁ := advance_mark h₁ hk (by simp) (by simp) (by simp)
    have hsupplied₁ : Supplied budget 5 s₁ := (h.advances hw₁.toAdvances).pred (by simp)
    refine ⟨hw₁.subset, .bind (ih.term (hw₁.sound hs) (hsupplied₁.mono (by omega))) fun _ s₂ h₂ => ?_⟩
    obtain ⟨t, -, hw₂⟩ := (expressionsRead budget).term (hw₁.sound hs) h₂
    refine ⟨hw₂.subset, .bind (announces_emitPlain x.takesOperand_opcode) fun _ s₃ h₃ => ?_⟩
    have hw₃ := hw₂.trans (emitPlain_ok h₃)
    exact ⟨(emitPlain_ok h₃).subset, ih.sum (hw₃.sound (hw₁.sound hs))
      ((hsupplied₁.advances hw₃.toAdvances).mono (by omega))⟩

theorem term_succ (ih : ExpressionsAnnounce budget) (hs : s.book.Sound)
    (h : Supplied (budget + 1) 2 s) : Announces (termWithin (budget + 1)) s := by
  rw [termWithin]
  have hsupplied : Supplied budget 1 s := h.pred (by omega)
  refine .bind (ih.factor hs hsupplied) fun _ s₁ h₁ => ?_
  obtain ⟨f, -, hw₁⟩ := (expressionsRead budget).factor hs h₁
  exact ⟨hw₁.subset, ih.product (hw₁.sound hs) ((hsupplied.advances hw₁.toAdvances).mono (by omega))⟩

theorem product_succ (ih : ExpressionsAnnounce budget) (hs : s.book.Sound)
    (h : Supplied (budget + 1) 1 s) : Announces (productWithin (budget + 1)) s := by
  rw [productWithin]
  refine .read (currentKind_ok s) ?_
  cases hop : multiplicative? s.token.kind with
  | none => exact .pure ()
  | some op =>
    obtain ⟨x, hk, rfl⟩ := multiplicative?_eq_some hop
    refine .bind (announces_advance h) fun _ s₁ h₁ => ?_
    have hw₁ := advance_mark h₁ hk (by simp) (by simp) (by simp)
    have hsupplied₁ : Supplied budget 5 s₁ := (h.advances hw₁.toAdvances).pred (by simp)
    refine ⟨hw₁.subset, .bind (ih.factor (hw₁.sound hs) (hsupplied₁.mono (by omega))) fun _ s₂ h₂ => ?_⟩
    obtain ⟨f, -, hw₂⟩ := (expressionsRead budget).factor (hw₁.sound hs) h₂
    refine ⟨hw₂.subset, .bind (announces_emitPlain x.takesOperand_opcode) fun _ s₃ h₃ => ?_⟩
    have hw₃ := hw₂.trans (emitPlain_ok h₃)
    exact ⟨(emitPlain_ok h₃).subset, ih.product (hw₃.sound (hw₁.sound hs))
      ((hsupplied₁.advances hw₃.toAdvances).mono (by omega))⟩

theorem factor_succ (ih : ExpressionsAnnounce budget) (hs : s.book.Sound)
    (h : Supplied (budget + 1) 1 s) : Announces (factorWithin (budget + 1)) s := by
  rw [factorWithin]
  refine .read (current_ok s) ?_
  cases hk : s.token.kind with
  | name =>
    refine .bind (announces_advance h) fun _ s₁ h₁ => ?_
    have hw₁ := advance_ok h₁ (by rw [hk]; simp)
    exact ⟨hw₁.subset, announces_load _ (hw₁.sound hs)⟩
  | number =>
    intro e s' he
    rcases bind_eq_error.mp he with he | ⟨_, s₁, -, he⟩
    · exact announces_advance h e s' he
    · -- the token has been passed, but it is one of those in front of which the factor began
      obtain ⟨hread, rfl⟩ := constant_error he
      exact .badNumber (List.mem_cons_self ..) hk hread
  | sign x =>
    by_cases hx : x = .opening
    · subst hx
      refine .bind (announces_advance h) fun _ s₁ h₁ => ?_
      have hw₁ := advance_mark h₁ hk (by simp) (by simp) (by simp)
      have hsupplied₁ : Supplied budget 5 s₁ := (h.advances hw₁.toAdvances).pred (by simp)
      refine ⟨hw₁.subset,
        .bind (ih.expression (hw₁.sound hs) (hsupplied₁.mono (by omega))) fun _ s₂ h₂ => ?_⟩
      obtain ⟨e, -, hw₂⟩ := (expressionsRead budget).expression (hw₁.sound hs) h₂
      exact ⟨hw₂.subset, announces_expectSign (hsupplied₁.advances hw₂.toAdvances) _⟩
    · cases x <;> first | exact absurd rfl hx | exact .throw (.unexpected s.token .operand)
  | _ => exact .throw (.unexpected s.token .operand)

end ExpressionsAnnounce

/-- All productions of expressions fail in the announced ways only. -/
theorem expressionsAnnounce (budget : Nat) : ExpressionsAnnounce budget := by
  induction budget with
  | zero =>
    constructor
    · exact fun _ h => h.not_zero.elim
    · exact fun _ h => h.not_zero.elim
    · exact fun _ h => h.not_zero.elim
    · exact fun _ h => h.not_zero.elim
    · exact fun _ h => h.not_zero.elim
  | succ budget ih =>
    exact ⟨ih.expression_succ, ih.sum_succ, ih.term_succ, ih.product_succ, ih.factor_succ⟩

theorem announces_condition {budget : Nat} (hs : s.book.Sound) (h : Supplied budget 3 s) :
    Announces (conditionWithin budget) s := by
  unfold conditionWithin
  refine .bind ((expressionsAnnounce budget).expression hs h) fun _ s₁ h₁ => ?_
  obtain ⟨left, -, hw₁⟩ := expressionWithin_ok h₁ hs
  have hsupplied₁ := h.advances hw₁.toAdvances
  refine ⟨hw₁.subset, .read (current_ok s₁) ?_⟩
  cases hop : relation? s₁.token.kind with
  | none => exact .throw (.unexpected s₁.token .comparison)
  | some op =>
    obtain ⟨x, hk, rfl⟩ := relation?_eq_some hop
    refine .bind (announces_advance hsupplied₁) fun _ s₂ h₂ => ?_
    have hw₂ := advance_mark h₂ hk (by simp) (by simp) (by simp)
    have hs₂ := hw₂.sound (hw₁.sound hs)
    have hsupplied₂ := hsupplied₁.advances hw₂.toAdvances
    refine ⟨hw₂.subset, .bind ((expressionsAnnounce budget).expression hs₂
      (hsupplied₂.mono (by omega))) fun _ s₃ h₃ => ?_⟩
    obtain ⟨right, -, hw₃⟩ := expressionWithin_ok h₃ hs₂
    exact ⟨hw₃.subset, announces_emitPlain x.takesOperand_opcode⟩

end Compilation

end StackPrimer

import StackPrimer.Proofs.OnePass.Action

/-!
# Expressions in one pass

An expression that is compiled has a tree, and the instructions written are the code of that tree.
The loops for sums and terms carry the tree of what stands to the left of them.

Results:
* `expressionWithin_succ_ok`, `sumWithin_succ_ok`, `termWithin_succ_ok`, `productWithin_succ_ok`,
  `comparison_of_conditionWithin_ok`: what a production has passed where it succeeds.
* `expressionWithin_ok`, `conditionWithin_ok`: a success belongs to a tree.
-/

namespace StackPrimer.Compilation

open Grammar

/-- From one state to the other, this expression has been passed and its code been written. -/
def Reads (s s' : State) {l : Level} (e : Expr l) : Prop :=
  e.Scoped s.book.names ∧ Writes s s' e.terminals (e.code s.book.names)

variable {s s' : State}

namespace Reads

variable {s₀ s₁ s₂ s₃ : State}

theorem writes {l : Level} {e : Expr l} (h : Reads s s' e) :
    Writes s s' e.terminals (e.code s.book.names) := h.2

theorem input (h₁ : Writes s s₁ [.word .inputWord] []) (h₂ : Writes s₁ s₂ [.sign .opening] [])
    (h₃ : Writes s₂ s₃ [.sign .closing] []) (h₄ : Writes s₃ s' [] [plain .read]) :
    Reads s s' Expr.input :=
  ⟨trivial, ((h₁.trans h₂).trans h₃).trans h₄⟩

theorem ofSum {e : Expr .sum} (h : Reads s s' e) : Reads s s' (Expr.ofSum e) := h

theorem ofTerm {e : Expr .term} (h : Reads s s' e) : Reads s s' (Expr.ofTerm e) := h

theorem ofFactor {e : Expr .factor} (h : Reads s s' e) : Reads s s' (Expr.ofFactor e) := h

/-- One more term behind the terms read since `s₀`. -/
theorem add {left : Expr .sum} {x : AddSign} {right : Expr .term} (hl : Reads s₀ s left)
    (h₁ : Writes s s₁ [.sign x.sign] []) (hr : Reads s₁ s₂ right)
    (h₂ : Writes s₂ s' [] [plain x.opcode]) : Reads s₀ s' (Expr.add left x right) := by
  obtain ⟨hleft, hwl⟩ := hl
  obtain ⟨hright, hwr⟩ := hr
  rw [h₁.names, hwl.names] at hright hwr
  refine ⟨⟨hleft, hright⟩, ?_⟩
  simpa [Expr.terminals, Expr.code] using ((hwl.trans h₁).trans hwr).trans h₂

/-- One more factor behind the factors read since `s₀`. -/
theorem multiply {left : Expr .term} {x : MulSign} {right : Expr .factor} (hl : Reads s₀ s left)
    (h₁ : Writes s s₁ [.sign x.sign] []) (hr : Reads s₁ s₂ right)
    (h₂ : Writes s₂ s' [] [plain x.opcode]) : Reads s₀ s' (Expr.multiply left x right) := by
  obtain ⟨hleft, hwl⟩ := hl
  obtain ⟨hright, hwr⟩ := hr
  rw [h₁.names, hwl.names] at hright hwr
  refine ⟨⟨hleft, hright⟩, ?_⟩
  simpa [Expr.terminals, Expr.code] using ((hwl.trans h₁).trans hwr).trans h₂

theorem name {x : String} (h₁ : Writes s s₁ [.name x] [])
    (hx : (s₁.book.names.scope? x).isSome) (h₂ : Writes s₁ s' [] (s₁.book.names.load x)) :
    Reads s s' (Expr.name x) := by
  rw [h₁.names] at hx h₂
  exact ⟨hx, h₁.trans h₂⟩

theorem number {x : Literal} (h₁ : Writes s s₁ [.number x.lexeme] [])
    (h₂ : Writes s₁ s' [] [.of .constant (some (.float x.value))]) : Reads s s' (Expr.number x) :=
  ⟨trivial, h₁.trans h₂⟩

theorem group {e : Expression} (h₁ : Writes s s₁ [.sign .opening] []) (he : Reads s₁ s₂ e)
    (h₂ : Writes s₂ s' [.sign .closing] []) : Reads s s' (Expr.group e) := by
  obtain ⟨hscoped, hw⟩ := he
  rw [h₁.names] at hscoped hw
  refine ⟨hscoped, ?_⟩
  simpa [Expr.terminals, Expr.code] using (h₁.trans hw).trans h₂

end Reads

theorem additive?_eq_some {k : Kind} {op : Opcode} (h : additive? k = some op) :
    ∃ x : AddSign, k = .sign x.sign ∧ op = x.opcode := by
  unfold additive? at h
  split at h
  · cases h
    exact ⟨.plus, rfl, rfl⟩
  · cases h
    exact ⟨.minus, rfl, rfl⟩
  · cases h

theorem multiplicative?_eq_some {k : Kind} {op : Opcode} (h : multiplicative? k = some op) :
    ∃ x : MulSign, k = .sign x.sign ∧ op = x.opcode := by
  unfold multiplicative? at h
  split at h
  · cases h
    exact ⟨.times, rfl, rfl⟩
  · cases h
    exact ⟨.divide, rfl, rfl⟩
  · cases h

theorem relation?_eq_some {k : Kind} {op : Opcode} (h : relation? k = some op) :
    ∃ x : Comparison, k = .sign x.sign ∧ op = x.opcode := by
  unfold relation? at h
  split at h
  · cases h
    exact ⟨.equal, rfl, rfl⟩
  · cases h
    exact ⟨.notEqual, rfl, rfl⟩
  · cases h
    exact ⟨.atLeast, rfl, rfl⟩
  · cases h
    exact ⟨.atMost, rfl, rfl⟩
  · cases h
    exact ⟨.greater, rfl, rfl⟩
  · cases h
    exact ⟨.less, rfl, rfl⟩
  · cases h

theorem constant_ok {t : Token} (h : constant t s = .ok () s') :
    ∃ x, Number.readFloat? t.lexeme = some x ∧
      Writes s s' [] [.of .constant (some (.float x))] := by
  unfold constant at h
  cases hx : Number.readFloat? t.lexeme with
  | none =>
    rw [hx] at h
    exact absurd h throw_ne_ok
  | some x =>
    rw [hx] at h
    simp only [bind_eq_ok, pure_eq_ok] at h
    obtain ⟨a, s₁, h, -, rfl⟩ := h
    exact ⟨x, rfl, (emit_ok h).2⟩

/-- Passing a token that is no name and no number. -/
theorem advance_mark {k : Kind} (h : advance s = .ok () s') (hs : s.token.kind = k)
    (hn : k ≠ .name) (hd : k ≠ .number) (hf : k ≠ .finish) : Writes s s' [.mark k] [] := by
  have hw := advance_ok h (by rw [hs]; exact hf)
  rwa [ofToken_eq_mark hs hn hd] at hw

/-! ## What a success has passed -/

section Successes

variable {budget : Nat}

/-- An expression reads a number, or is a term and the terms behind it. -/
theorem expressionWithin_succ_ok (h : expressionWithin (budget + 1) s = .ok () s') :
    Reads s s' Expr.input ∨
      ∃ s₁, termWithin budget s = .ok () s₁ ∧ sumWithin budget s₁ = .ok () s' := by
  rw [expressionWithin] at h
  simp only [bind_eq_ok, currentKind_eq_ok] at h
  obtain ⟨_, _, ⟨rfl, rfl⟩, h⟩ := h
  split at h
  · rename_i hk
    simp only [bind_eq_ok] at h
    obtain ⟨_, s₁, h₁, _, s₂, h₂, _, s₃, h₃, h₄⟩ := h
    exact .inl (.input (advance_mark h₁ hk (by simp) (by simp) (by simp)) (expectSign_ok h₂)
      (expectSign_ok h₃) (emitPlain_ok h₄))
  · simp only [bind_eq_ok] at h
    obtain ⟨_, s₁, h₁, h₂⟩ := h
    exact .inr ⟨s₁, h₁, h₂⟩

/-- The terms of an expression end, or one more is read. -/
theorem sumWithin_succ_ok (h : sumWithin (budget + 1) s = .ok () s') :
    (additive? s.token.kind = none ∧ s' = s) ∨
      ∃ (x : AddSign) (s₁ s₂ s₃ : State), Writes s s₁ [.sign x.sign] [] ∧
        termWithin budget s₁ = .ok () s₂ ∧ Writes s₂ s₃ [] [plain x.opcode] ∧
        sumWithin budget s₃ = .ok () s' := by
  rw [sumWithin] at h
  simp only [bind_eq_ok, currentKind_eq_ok] at h
  obtain ⟨_, _, ⟨rfl, rfl⟩, h⟩ := h
  cases hop : additive? s.token.kind with
  | none =>
    rw [hop, pure_eq_ok] at h
    exact .inl ⟨rfl, h.2.symm⟩
  | some op =>
    obtain ⟨x, hk, rfl⟩ := additive?_eq_some hop
    rw [hop] at h
    simp only [bind_eq_ok] at h
    obtain ⟨_, s₁, h₁, _, s₂, h₂, _, s₃, h₃, h₄⟩ := h
    exact .inr ⟨x, s₁, s₂, s₃, advance_mark h₁ hk (by simp) (by simp) (by simp), h₂,
      emitPlain_ok h₃, h₄⟩

theorem termWithin_succ_ok (h : termWithin (budget + 1) s = .ok () s') :
    ∃ s₁, factorWithin budget s = .ok () s₁ ∧ productWithin budget s₁ = .ok () s' := by
  rw [termWithin, bind_eq_ok] at h
  obtain ⟨_, s₁, h₁, h₂⟩ := h
  exact ⟨s₁, h₁, h₂⟩

/-- The factors of a term end, or one more is read. -/
theorem productWithin_succ_ok (h : productWithin (budget + 1) s = .ok () s') :
    (multiplicative? s.token.kind = none ∧ s' = s) ∨
      ∃ (x : MulSign) (s₁ s₂ s₃ : State), Writes s s₁ [.sign x.sign] [] ∧
        factorWithin budget s₁ = .ok () s₂ ∧ Writes s₂ s₃ [] [plain x.opcode] ∧
        productWithin budget s₃ = .ok () s' := by
  rw [productWithin] at h
  simp only [bind_eq_ok, currentKind_eq_ok] at h
  obtain ⟨_, _, ⟨rfl, rfl⟩, h⟩ := h
  cases hop : multiplicative? s.token.kind with
  | none =>
    rw [hop, pure_eq_ok] at h
    exact .inl ⟨rfl, h.2.symm⟩
  | some op =>
    obtain ⟨x, hk, rfl⟩ := multiplicative?_eq_some hop
    rw [hop] at h
    simp only [bind_eq_ok] at h
    obtain ⟨_, s₁, h₁, _, s₂, h₂, _, s₃, h₃, h₄⟩ := h
    exact .inr ⟨x, s₁, s₂, s₃, advance_mark h₁ hk (by simp) (by simp) (by simp), h₂,
      emitPlain_ok h₃, h₄⟩

/-- A condition is two expressions with the sign of a comparison between them. -/
theorem comparison_of_conditionWithin_ok (h : conditionWithin budget s = .ok () s') :
    ∃ (x : Comparison) (s₁ s₂ s₃ : State), expressionWithin budget s = .ok () s₁ ∧
      Writes s₁ s₂ [.sign x.sign] [] ∧ expressionWithin budget s₂ = .ok () s₃ ∧
      Writes s₃ s' [] [plain x.opcode] := by
  unfold conditionWithin at h
  simp only [bind_eq_ok, current_eq_ok] at h
  obtain ⟨_, s₁, h₁, _, _, ⟨rfl, rfl⟩, h⟩ := h
  cases hop : relation? s₁.token.kind with
  | none =>
    rw [hop] at h
    exact absurd h throw_ne_ok
  | some op =>
    obtain ⟨x, hk, rfl⟩ := relation?_eq_some hop
    rw [hop] at h
    simp only [bind_eq_ok] at h
    obtain ⟨_, s₂, h₂, _, s₃, h₃, h₄⟩ := h
    exact ⟨x, s₁, s₂, s₃, h₁, advance_mark h₂ hk (by simp) (by simp) (by simp), h₃, emitPlain_ok h₄⟩

end Successes

/-- Every production within this budget belongs to a tree. -/
structure ExpressionsRead (budget : Nat) : Prop where
  expression : ∀ {s s' : State}, s.book.Sound → expressionWithin budget s = .ok () s' →
    ∃ e : Expression, Reads s s' e
  sum : ∀ {s₀ s s' : State} {left : Expr .sum}, s.book.Sound → Reads s₀ s left →
    sumWithin budget s = .ok () s' → ∃ e : Expr .sum, Reads s₀ s' e
  term : ∀ {s s' : State}, s.book.Sound → termWithin budget s = .ok () s' →
    ∃ e : Expr .term, Reads s s' e
  product : ∀ {s₀ s s' : State} {left : Expr .term}, s.book.Sound → Reads s₀ s left →
    productWithin budget s = .ok () s' → ∃ e : Expr .term, Reads s₀ s' e
  factor : ∀ {s s' : State}, s.book.Sound → factorWithin budget s = .ok () s' →
    ∃ e : Expr .factor, Reads s s' e

namespace ExpressionsRead

variable {budget : Nat}

theorem expression_succ (ih : ExpressionsRead budget) (hs : s.book.Sound)
    (h : expressionWithin (budget + 1) s = .ok () s') : ∃ e : Expression, Reads s s' e := by
  rcases expressionWithin_succ_ok h with hinput | ⟨s₁, h₁, h₂⟩
  · exact ⟨.input, hinput⟩
  · obtain ⟨t, ht⟩ := ih.term hs h₁
    obtain ⟨e, he⟩ := ih.sum (ht.writes.sound hs) ht.ofTerm h₂
    exact ⟨.ofSum e, he.ofSum⟩

theorem sum_succ (ih : ExpressionsRead budget) {s₀ : State} {left : Expr .sum}
    (hs : s.book.Sound) (hl : Reads s₀ s left) (h : sumWithin (budget + 1) s = .ok () s') :
    ∃ e : Expr .sum, Reads s₀ s' e := by
  rcases sumWithin_succ_ok h with ⟨-, rfl⟩ | ⟨x, s₁, s₂, s₃, hw₁, h₂, hw₃, h₄⟩
  · exact ⟨left, hl⟩
  · obtain ⟨t, ht⟩ := ih.term (hw₁.sound hs) h₂
    exact ih.sum (hw₃.sound (ht.writes.sound (hw₁.sound hs))) (hl.add hw₁ ht hw₃) h₄

theorem term_succ (ih : ExpressionsRead budget) (hs : s.book.Sound)
    (h : termWithin (budget + 1) s = .ok () s') : ∃ e : Expr .term, Reads s s' e := by
  obtain ⟨s₁, h₁, h₂⟩ := termWithin_succ_ok h
  obtain ⟨f, hf⟩ := ih.factor hs h₁
  exact ih.product (hf.writes.sound hs) hf.ofFactor h₂

theorem product_succ (ih : ExpressionsRead budget) {s₀ : State} {left : Expr .term}
    (hs : s.book.Sound) (hl : Reads s₀ s left) (h : productWithin (budget + 1) s = .ok () s') :
    ∃ e : Expr .term, Reads s₀ s' e := by
  rcases productWithin_succ_ok h with ⟨-, rfl⟩ | ⟨x, s₁, s₂, s₃, hw₁, h₂, hw₃, h₄⟩
  · exact ⟨left, hl⟩
  · obtain ⟨f, hf⟩ := ih.factor (hw₁.sound hs) h₂
    exact ih.product (hw₃.sound (hf.writes.sound (hw₁.sound hs))) (hl.multiply hw₁ hf hw₃) h₄

theorem factor_succ (ih : ExpressionsRead budget) (hs : s.book.Sound)
    (h : factorWithin (budget + 1) s = .ok () s') : ∃ e : Expr .factor, Reads s s' e := by
  rw [factorWithin] at h
  simp only [bind_eq_ok, current_eq_ok] at h
  obtain ⟨_, _, ⟨rfl, rfl⟩, h⟩ := h
  cases hk : s.token.kind with
  | name =>
    rw [hk] at h
    simp only [bind_eq_ok] at h
    obtain ⟨_, s₁, h₁, h₂⟩ := h
    have hw := advance_ok h₁ (by rw [hk]; simp)
    rw [ofToken_eq_name hk] at hw
    obtain ⟨hx, hload⟩ := load_ok h₂ (hw.sound hs)
    exact ⟨.name s.token.lexeme, .name hw hx hload⟩
  | number =>
    rw [hk] at h
    simp only [bind_eq_ok] at h
    obtain ⟨_, s₁, h₁, h₂⟩ := h
    have hw := advance_ok h₁ (by rw [hk]; simp)
    rw [ofToken_eq_number hk] at hw
    obtain ⟨x, hx, hx'⟩ := constant_ok h₂
    exact ⟨.number ⟨s.token.lexeme, x, hx⟩, .number hw hx'⟩
  | sign x =>
    rw [hk] at h
    by_cases hx : x = .opening
    · subst hx
      simp only [bind_eq_ok] at h
      obtain ⟨_, s₁, h₁, _, s₂, h₂, h₃⟩ := h
      have hw₁ := advance_mark h₁ hk (by simp) (by simp) (by simp)
      obtain ⟨e, he⟩ := ih.expression (hw₁.sound hs) h₂
      exact ⟨.group e, .group hw₁ he (expectSign_ok h₃)⟩
    · cases x <;> first | exact absurd rfl hx | exact absurd h throw_ne_ok
  | _ =>
    rw [hk] at h
    exact absurd h throw_ne_ok

end ExpressionsRead

/-- All productions of expressions belong to trees. -/
theorem expressionsRead (budget : Nat) : ExpressionsRead budget := by
  induction budget with
  | zero =>
    constructor
    · intro s s' _ h
      exact absurd h throw_ne_ok
    · intro s₀ s s' _ _ _ h
      exact absurd h throw_ne_ok
    · intro s s' _ h
      exact absurd h throw_ne_ok
    · intro s₀ s s' _ _ _ h
      exact absurd h throw_ne_ok
    · intro s s' _ h
      exact absurd h throw_ne_ok
  | succ budget ih =>
    exact ⟨ih.expression_succ, ih.sum_succ, ih.term_succ, ih.product_succ, ih.factor_succ⟩

/-- An expression that is compiled has a tree, whose code is written. -/
theorem expressionWithin_ok {budget : Nat} (h : expressionWithin budget s = .ok () s')
    (hs : s.book.Sound) : ∃ e : Expression, Reads s s' e :=
  (expressionsRead budget).expression hs h

/-- From one state to the other, this condition has been passed and its code been written. -/
def ReadsCondition (s s' : State) (c : Condition) : Prop :=
  c.Scoped s.book.names ∧ Writes s s' c.terminals (c.code s.book.names)

theorem ReadsCondition.writes {c : Condition} (h : ReadsCondition s s' c) :
    Writes s s' c.terminals (c.code s.book.names) := h.2

theorem Reads.compare {s₁ s₂ s₃ : State} {left right : Expression} {x : Comparison}
    (hl : Reads s s₁ left) (h₁ : Writes s₁ s₂ [.sign x.sign] []) (hr : Reads s₂ s₃ right)
    (h₂ : Writes s₃ s' [] [plain x.opcode]) : ReadsCondition s s' ⟨left, x, right⟩ := by
  obtain ⟨hleft, hwl⟩ := hl
  obtain ⟨hright, hwr⟩ := hr
  rw [h₁.names, hwl.names] at hright hwr
  refine ⟨⟨hleft, hright⟩, ?_⟩
  simpa [Condition.terminals, Condition.code] using ((hwl.trans h₁).trans hwr).trans h₂

/-- A condition that is compiled has a tree, whose code is written. -/
theorem conditionWithin_ok {budget : Nat} (h : conditionWithin budget s = .ok () s')
    (hs : s.book.Sound) : ∃ c : Condition, ReadsCondition s s' c := by
  obtain ⟨x, s₁, s₂, s₃, h₁, hw₂, h₃, hw₄⟩ := comparison_of_conditionWithin_ok h
  obtain ⟨left, hleft⟩ := expressionWithin_ok h₁ hs
  obtain ⟨right, hright⟩ := expressionWithin_ok h₃ (hw₂.sound (hleft.writes.sound hs))
  exact ⟨⟨left, x, right⟩, hleft.compare hw₂ hright hw₄⟩

end StackPrimer.Compilation

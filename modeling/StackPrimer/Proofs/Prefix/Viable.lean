import StackPrimer.Proofs.OnePass.Program

/-!
# What stands in front of an unexpected token

Where a token is not what the grammar asks for, there is something that the grammar does ask for: what
has been passed up to that token can be completed. Of a production this is said with the set of all
that it may read. The set for what is left of a production, after some of it has been read, is what
completes that part.

Results:
* `expressionsViable`: what is passed of an expression in front of an unexpected token begins an
  expression.
-/

namespace StackPrimer.Compilation

open Grammar

/-- The terminals can be completed with tokens. -/
def Begins (C : List Terminal → Prop) (ts : List Terminal) : Prop :=
  ∃ rest : List Token, C (ts ++ rest.map Terminal.ofToken)

theorem Begins.of_imp {C C' : List Terminal → Prop} {ts : List Terminal} (h : Begins C ts)
    (himp : ∀ us, C us → Begins C' us) : Begins C' ts := by
  obtain ⟨rest, hrest⟩ := h
  obtain ⟨rest', hrest'⟩ := himp _ hrest
  refine ⟨rest ++ rest', ?_⟩
  rwa [List.map_append, ← List.append_assoc]

/-- What is complete can be completed. -/
theorem Begins.done {C : List Terminal → Prop} {ts : List Terminal} (h : C ts) : Begins C ts :=
  ⟨[], by rwa [List.map_nil, List.append_nil]⟩

/-- From one state to the other, tokens with these terminals have been passed. -/
def Passes (s s' : State) (ts : List Terminal) : Prop :=
  ∃ passed, s.tokens = passed ++ s'.tokens ∧ passed.map Terminal.ofToken = ts

theorem Advances.passes {s s' : State} {ts : List Terminal} {is : List Instruction}
    (h : Advances s s' ts is) : Passes s s' ts := by
  obtain ⟨passed, hpassed, hts, -⟩ := h.tokens
  exact ⟨passed, hpassed, hts⟩

theorem Passes.of_tokens {s s' : State} (h : s'.tokens = s.tokens) : Passes s s' [] :=
  ⟨[], h.symm, rfl⟩

/-- In front of a token that the action does not expect, it has passed what can be completed. -/
def Viable {α : Type} (x : Action α) (s : State) (C : List Terminal → Prop) : Prop :=
  ∀ t e s', x s = .error (.unexpected t e) s' →
    s'.token = t ∧ ∃ passed, s.tokens = passed ++ s'.tokens ∧ Begins C (passed.map Terminal.ofToken)

/-- The action never meets a token that it does not expect. -/
def Quiet {α : Type} (x : Action α) : Prop := ∀ s t e s', x s ≠ .error (.unexpected t e) s'

variable {s s' : State} {C C' : List Terminal → Prop}

/-! ## Sequences -/

namespace Quiet

variable {α β : Type} {x : Action α} {f : α → Action β}

theorem bind (hx : Quiet x) (hf : ∀ a, Quiet (f a)) : Quiet (x >>= f) := by
  intro s t e s' h
  rcases bind_eq_error.mp h with h | ⟨a, s₁, -, h⟩
  · exact hx s t e s' h
  · exact hf a s₁ t e s' h

theorem pure (a : α) : Quiet (Pure.pure a : Action α) := fun _ _ _ _ h => by cases h

theorem viable (hx : Quiet x) : Viable x s C := fun t e s' h => absurd h (hx s t e s')

end Quiet

namespace Viable

variable {α β : Type} {x : Action α} {f : α → Action β}

/-- Where nothing has been passed, something is asked for. -/
theorem throw (e : Expectation) (h : Begins C []) :
    Viable (MonadExcept.throw (.unexpected s.token e) : Action α) s C := by
  intro t e' s' he
  cases he
  exact ⟨rfl, [], rfl, h⟩

/-- A first part that only reads the state. -/
theorem read {a : α} (hx : x s = .ok a s) (hf : Viable (f a) s C) : Viable (x >>= f) s C := by
  intro t e s' he
  rw [bind_of_ok hx] at he
  exact hf t e s' he

/-- What the second part passes completes what the first part has passed. -/
theorem bind (hx : Viable x s C)
    (hf : ∀ a s₁, x s = .ok a s₁ →
      ∃ ts, Passes s s₁ ts ∧ Viable (f a) s₁ fun us => C (ts ++ us)) :
    Viable (x >>= f) s C := by
  intro t e s' he
  rcases bind_eq_error.mp he with he | ⟨a, s₁, ha, he⟩
  · exact hx t e s' he
  · obtain ⟨ts, ⟨before, hbefore, rfl⟩, hviable⟩ := hf a s₁ ha
    obtain ⟨ht, passed, hpassed, rest, hrest⟩ := hviable t e s' he
    refine ⟨ht, before ++ passed, by rw [hbefore, hpassed, List.append_assoc], rest, ?_⟩
    rwa [List.map_append, List.append_assoc]

/-- A first part that passes nothing. -/
theorem stay (hx : Quiet x)
    (hf : ∀ a s₁, x s = .ok a s₁ → s₁.tokens = s.tokens ∧ Viable (f a) s₁ C) :
    Viable (x >>= f) s C := by
  refine .bind hx.viable fun a s₁ h => ?_
  obtain ⟨htokens, hviable⟩ := hf a s₁ h
  exact ⟨[], .of_tokens htokens, hviable⟩

theorem of_imp (hx : Viable x s C) (h : ∀ us, C us → Begins C' us) : Viable x s C' := by
  intro t e s' he
  obtain ⟨ht, passed, hpassed, hbegins⟩ := hx t e s' he
  exact ⟨ht, passed, hpassed, hbegins.of_imp h⟩

end Viable

/-! ## Single actions -/

theorem quiet_advance : Quiet advance := by
  intro s t e s'
  unfold advance
  split
  · simp
  · split <;> simp

theorem quiet_skipIndents : Quiet skipIndents := by
  intro s t e s'
  unfold skipIndents
  split <;> simp

theorem quiet_emit (op : Opcode) (x : Option Operand) : Quiet (emit op x) := by
  intro s t e s'
  unfold emit
  split <;> simp

theorem quiet_emitInt (op : Opcode) (n : Int) : Quiet (emitInt op n) := quiet_emit op _

theorem quiet_emitPlain (op : Opcode) : Quiet (emitPlain op) :=
  (quiet_emit op none).bind fun _ => .pure ()

theorem quiet_land (address : Int) : Quiet (land address) := by
  intro s t e s'
  unfold land
  split <;> simp

theorem quiet_load (t : Token) : Quiet (load t) := by
  unfold load
  refine Quiet.bind (fun s t e s' h => by cases h) fun v => ?_
  cases v with
  | none => exact fun s t e s' h => by cases h
  | some v => exact (quiet_emitInt _ _).bind fun _ => .pure ()

theorem quiet_store (t : Token) : Quiet (store t) := by
  unfold store
  refine Quiet.bind (fun s t e s' h => by cases h) fun v => ?_
  cases v with
  | none => exact fun s t e s' h => by cases h
  | some v => exact (quiet_emitInt _ _).bind fun _ => .pure ()

theorem quiet_constant (t : Token) : Quiet (constant t) := by
  unfold constant
  cases Number.readFloat? t.lexeme with
  | none => exact fun s t e s' h => by cases h
  | some x => exact (quiet_emit _ _).bind fun _ => .pure ()

theorem quiet_addVariable (t : Token) : Quiet (addVariable t) := fun s t e s' h => by cases h

theorem quiet_declare (t : Token) : Quiet (declare t) :=
  (quiet_addVariable t).bind fun _ => (quiet_emitInt _ _).bind fun _ => .pure ()

theorem viable_expect {k : Kind} {e : Expectation} (h : Begins C []) : Viable (expect k e) s C := by
  unfold expect
  refine .read (current_ok s) ?_
  split
  · exact (quiet_advance.bind fun _ => .pure _).viable
  · exact .throw e h

theorem viable_expectSign {x : Sign} (h : Begins C []) : Viable (expectSign x) s C := by
  intro t e s' he
  rcases bind_eq_error.mp he with he | ⟨a, s₁, -, he⟩
  · exact viable_expect h t e s' he
  · cases he

/-- A sign and what follows it. -/
theorem Viable.expectSign {α : Type} {x : Sign} {f : Unit → Action α} (h : Begins C [])
    (hf : ∀ s₁, Writes s s₁ [.sign x] [] → Viable (f ()) s₁ fun us => C (.sign x :: us)) :
    Viable (Compilation.expectSign x >>= f) s C :=
  .bind (viable_expectSign h) fun _ s₁ h₁ =>
    ⟨_, (expectSign_ok h₁).passes, hf s₁ (expectSign_ok h₁)⟩

/-- A token that is no name and no number, and what follows it. -/
theorem Viable.advance {α : Type} {k : Kind} {f : Unit → Action α} (hk : s.token.kind = k)
    (hmark : k ≠ .name ∧ k ≠ .number ∧ k ≠ .finish)
    (hf : ∀ s₁, Writes s s₁ [.mark k] [] → Viable (f ()) s₁ fun us => C (.mark k :: us)) :
    Viable (Compilation.advance >>= f) s C := by
  refine .bind quiet_advance.viable fun _ s₁ h₁ => ?_
  have hw₁ := advance_mark h₁ hk hmark.1 hmark.2.1 hmark.2.2
  exact ⟨_, hw₁.passes, hf s₁ hw₁⟩

/-- An instruction without operand, and what follows it. -/
theorem Viable.emitPlain {α : Type} {op : Opcode} {f : Unit → Action α}
    (hf : ∀ s₁, Writes s s₁ [] [plain op] → Viable (f ()) s₁ C) :
    Viable (Compilation.emitPlain op >>= f) s C :=
  .stay (quiet_emitPlain op) fun _ s₁ h₁ =>
    ⟨(emitPlain_ok h₁).tokens_eq, hf s₁ (emitPlain_ok h₁)⟩

/-- An instruction with an address or a count, and what follows it. -/
theorem Viable.emitInt {α : Type} {op : Opcode} {n : Int} {f : Int → Action α}
    (hf : ∀ a s₁, Compilation.emitInt op n s = .ok a s₁ → Viable (f a) s₁ C) :
    Viable (Compilation.emitInt op n >>= f) s C :=
  .stay (quiet_emitInt op n) fun a s₁ h₁ => ⟨(emitInt_ok h₁).2.tokens_eq, hf a s₁ h₁⟩

/-! ## Expressions -/

/-- What an expression of the nonterminal may be, where these are the names. -/
def IsExpr (l : Level) (n : Names) (ts : List Terminal) : Prop :=
  ∃ e : Expr l, e.terminals = ts ∧ e.Scoped n

/-- The tokens of the expression that reads a number. -/
def inputTokens : List Token :=
  [token (.word .inputWord) "input", token (.sign .opening) "(", token (.sign .closing) ")"]

@[simp] theorem ofToken_token_sign (x : Sign) (lexeme : String) :
    Terminal.ofToken (token (.sign x) lexeme) = .sign x := rfl

theorem begins_factor (n : Names) : Begins (IsExpr .factor n) [] :=
  ⟨token (.sign .opening) "(" :: inputTokens ++ [token (.sign .closing) ")"],
    .group .input, rfl, trivial⟩

/-- What every production of expressions within this budget passes can be completed. -/
structure ExpressionsViable (budget : Nat) : Prop where
  expression : ∀ {s : State}, s.book.Sound →
    Viable (expressionWithin budget) s (IsExpr .expression s.book.names)
  sum : ∀ {s : State} (left : Expr .sum), s.book.Sound → left.Scoped s.book.names →
    Viable (sumWithin budget) s fun us => IsExpr .sum s.book.names (left.terminals ++ us)
  term : ∀ {s : State}, s.book.Sound → Viable (termWithin budget) s (IsExpr .term s.book.names)
  product : ∀ {s : State} (left : Expr .term), s.book.Sound → left.Scoped s.book.names →
    Viable (productWithin budget) s fun us => IsExpr .term s.book.names (left.terminals ++ us)
  factor : ∀ {s : State}, s.book.Sound →
    Viable (factorWithin budget) s (IsExpr .factor s.book.names)

namespace ExpressionsViable

variable {budget : Nat}

theorem expression_succ (ih : ExpressionsViable budget) (hs : s.book.Sound) :
    Viable (expressionWithin (budget + 1)) s (IsExpr .expression s.book.names) := by
  rw [expressionWithin]
  refine .read (currentKind_ok s) ?_
  have hinput : IsExpr .expression s.book.names (inputTokens.map Terminal.ofToken) :=
    ⟨.input, rfl, trivial⟩
  split
  · rename_i hk
    refine .advance hk (by simp) fun s₁ hw₁ => ?_
    refine .expectSign ⟨inputTokens.drop 1, hinput⟩ fun s₂ hw₂ => ?_
    refine .expectSign ⟨inputTokens.drop 2, hinput⟩ fun s₃ hw₃ => ?_
    exact (quiet_emitPlain _).viable
  · refine .bind ((ih.term hs).of_imp ?_) fun _ s₁ h₁ => ?_
    · rintro us ⟨t, rfl, ht⟩
      exact .done ⟨.ofSum (.ofTerm t), rfl, ht⟩
    · obtain ⟨t, ht, hw₁⟩ := (expressionsRead budget).term hs h₁
      have hsum := ih.sum (.ofTerm t) (hw₁.sound hs) (by rw [hw₁.names]; exact ht)
      rw [hw₁.names] at hsum
      refine ⟨_, hw₁.passes, hsum.of_imp ?_⟩
      rintro us ⟨e, he, hscoped⟩
      exact .done ⟨.ofSum e, he, hscoped⟩

theorem sum_succ (ih : ExpressionsViable budget) (left : Expr .sum) (hs : s.book.Sound)
    (hleft : left.Scoped s.book.names) :
    Viable (sumWithin (budget + 1)) s
      fun us => IsExpr .sum s.book.names (left.terminals ++ us) := by
  rw [sumWithin]
  refine .read (currentKind_ok s) ?_
  cases hop : additive? s.token.kind with
  | none => exact (Quiet.pure ()).viable
  | some op =>
    obtain ⟨x, hk, rfl⟩ := additive?_eq_some hop
    refine .advance hk (by simp) fun s₁ hw₁ => ?_
    have hs₁ := hw₁.sound hs
    refine .bind ((ih.term hs₁).of_imp ?_) fun _ s₂ h₂ => ?_
    · rintro us ⟨t, rfl, ht⟩
      rw [hw₁.names] at ht
      exact .done ⟨.add left x t, rfl, hleft, ht⟩
    · obtain ⟨t, ht, hw₂⟩ := (expressionsRead budget).term hs₁ h₂
      rw [hw₁.names] at ht
      refine ⟨_, hw₂.passes, .emitPlain fun s₃ hw₃ => ?_⟩
      have hnames : s₃.book.names = s.book.names := ((hw₁.trans hw₂).trans hw₃).names
      have hsum := ih.sum (.add left x t) (hw₃.sound (hw₂.sound hs₁))
        (by rw [hnames]; exact ⟨hleft, ht⟩)
      rw [hnames] at hsum
      refine hsum.of_imp fun us hus => .done ?_
      simpa [Expr.terminals] using hus

theorem term_succ (ih : ExpressionsViable budget) (hs : s.book.Sound) :
    Viable (termWithin (budget + 1)) s (IsExpr .term s.book.names) := by
  rw [termWithin]
  refine .bind ((ih.factor hs).of_imp ?_) fun _ s₁ h₁ => ?_
  · rintro us ⟨f, rfl, hf⟩
    exact .done ⟨.ofFactor f, rfl, hf⟩
  · obtain ⟨f, hf, hw₁⟩ := (expressionsRead budget).factor hs h₁
    have hproduct := ih.product (.ofFactor f) (hw₁.sound hs) (by rw [hw₁.names]; exact hf)
    rw [hw₁.names] at hproduct
    exact ⟨_, hw₁.passes, hproduct⟩

theorem product_succ (ih : ExpressionsViable budget) (left : Expr .term) (hs : s.book.Sound)
    (hleft : left.Scoped s.book.names) :
    Viable (productWithin (budget + 1)) s
      fun us => IsExpr .term s.book.names (left.terminals ++ us) := by
  rw [productWithin]
  refine .read (currentKind_ok s) ?_
  cases hop : multiplicative? s.token.kind with
  | none => exact (Quiet.pure ()).viable
  | some op =>
    obtain ⟨x, hk, rfl⟩ := multiplicative?_eq_some hop
    refine .advance hk (by simp) fun s₁ hw₁ => ?_
    have hs₁ := hw₁.sound hs
    refine .bind ((ih.factor hs₁).of_imp ?_) fun _ s₂ h₂ => ?_
    · rintro us ⟨f, rfl, hf⟩
      rw [hw₁.names] at hf
      exact .done ⟨.multiply left x f, rfl, hleft, hf⟩
    · obtain ⟨f, hf, hw₂⟩ := (expressionsRead budget).factor hs₁ h₂
      rw [hw₁.names] at hf
      refine ⟨_, hw₂.passes, .emitPlain fun s₃ hw₃ => ?_⟩
      have hnames : s₃.book.names = s.book.names := ((hw₁.trans hw₂).trans hw₃).names
      have hproduct := ih.product (.multiply left x f) (hw₃.sound (hw₂.sound hs₁))
        (by rw [hnames]; exact ⟨hleft, hf⟩)
      rw [hnames] at hproduct
      refine hproduct.of_imp fun us hus => .done ?_
      simpa [Expr.terminals] using hus

theorem factor_succ (ih : ExpressionsViable budget) (hs : s.book.Sound) :
    Viable (factorWithin (budget + 1)) s (IsExpr .factor s.book.names) := by
  rw [factorWithin]
  refine .read (current_ok s) ?_
  have hthrow : Viable (throw (.unexpected s.token .operand) : Action Unit) s
      (IsExpr .factor s.book.names) := .throw _ (begins_factor _)
  cases hk : s.token.kind with
  | name => exact (quiet_advance.bind fun _ => quiet_load _).viable
  | number => exact (quiet_advance.bind fun _ => quiet_constant _).viable
  | sign x =>
    by_cases hx : x = .opening
    · subst hx
      refine .advance hk (by simp) fun s₁ hw₁ => ?_
      have hs₁ := hw₁.sound hs
      refine .bind ((ih.expression hs₁).of_imp ?_) fun _ s₂ h₂ => ?_
      · rintro us ⟨e, rfl, he⟩
        rw [hw₁.names] at he
        exact ⟨[token (.sign .closing) ")"], .group e, rfl, he⟩
      · obtain ⟨e, he, hw₂⟩ := (expressionsRead budget).expression hs₁ h₂
        rw [hw₁.names] at he
        refine ⟨_, hw₂.passes, viable_expectSign ⟨[token (.sign .closing) ")"], ?_⟩⟩
        exact ⟨.group e, by simp [Expr.terminals], he⟩
    · cases x <;> first | exact absurd rfl hx | exact hthrow
  | _ => exact hthrow

end ExpressionsViable

/-- What is passed of an expression in front of an unexpected token begins an expression. -/
theorem expressionsViable (budget : Nat) : ExpressionsViable budget := by
  induction budget with
  | zero =>
    have hout : ∀ {s : State} {C : List Terminal → Prop},
        Viable (throw .outOfTokens : Action Unit) s C := fun _ _ _ h => by cases h
    exact ⟨fun _ => hout, fun _ _ _ => hout, fun _ => hout, fun _ _ _ => hout, fun _ => hout⟩
  | succ budget ih =>
    exact ⟨ih.expression_succ, ih.sum_succ, ih.term_succ, ih.product_succ, ih.factor_succ⟩

/-- What a condition may be, where these are the names. -/
def IsCondition (n : Names) (ts : List Terminal) : Prop :=
  ∃ c : Condition, c.terminals = ts ∧ c.Scoped n

theorem viable_condition {budget : Nat} (hs : s.book.Sound) :
    Viable (conditionWithin budget) s (IsCondition s.book.names) := by
  unfold conditionWithin
  refine .bind (((expressionsViable budget).expression hs).of_imp ?_) fun _ s₁ h₁ => ?_
  · rintro us ⟨e, rfl, he⟩
    exact ⟨token (.sign .equal) "==" :: inputTokens, ⟨e, .equal, .input⟩, rfl, he, trivial⟩
  · obtain ⟨left, hleft, hw₁⟩ := expressionWithin_ok h₁ hs
    refine ⟨_, hw₁.passes, .read (current_ok s₁) ?_⟩
    cases hop : relation? s₁.token.kind with
    | none =>
      exact .throw _ ⟨token (.sign .equal) "==" :: inputTokens, ⟨left, .equal, .input⟩, rfl, hleft,
        trivial⟩
    | some op =>
      obtain ⟨x, hk, rfl⟩ := relation?_eq_some hop
      refine .advance hk (by simp) fun s₂ hw₂ => ?_
      have hs₂ := hw₂.sound (hw₁.sound hs)
      refine .bind (((expressionsViable budget).expression hs₂).of_imp ?_) fun _ s₃ h₃ => ?_
      · rintro us ⟨right, rfl, hright⟩
        rw [(hw₁.trans hw₂).names] at hright
        exact .done ⟨⟨left, x, right⟩, rfl, hleft, hright⟩
      · obtain ⟨right, -, hw₃⟩ := expressionWithin_ok h₃ hs₂
        exact ⟨_, hw₃.passes, (quiet_emitPlain _).viable⟩

end StackPrimer.Compilation

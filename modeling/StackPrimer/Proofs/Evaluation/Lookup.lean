import StackPrimer.Compilation.Expression
import StackPrimer.Proofs.OnePass.Book
import StackPrimer.Proofs.Sequence

/-!
# What expressions have to do with the address book

An expression looks variables up in the address book, and that is all that it does with the book.
Functions make no difference to it, and it does not fail for anything that is declared.

Results:
* `AddressBook.Arises.sound`: the variables of every address book have their places for addresses.
* `expressionsConsult`, `consults_condition`: expressions only look variables up.
-/

namespace StackPrimer

/-! ## Address books as they arise -/

namespace AddressBook

/-- What can become of an empty book. Whatever is given for the entry address of a function is kept. -/
inductive Arises : AddressBook → Prop
  | empty : Arises {}
  | addVariable {book : AddressBook} (h : Arises book) (m : Mention) : Arises (book.addVariable m).2
  | addFunction {book book' : AddressBook} (h : Arises book) (m : Mention) (entry : Int)
      (hok : book.addFunction m entry = .ok book') : Arises book'
  | enter {book book' : AddressBook} (h : Arises book) (hok : book.enter = .ok book') : Arises book'
  | exit {book book' : AddressBook} (h : Arises book) (hok : book.exit = .ok book') : Arises book'

variable {book : AddressBook}

/-- A name is bound if looking it up finds a variable. -/
theorem isSome_scope?_iff (h : book.variablesOnly.Sound) (x : String) :
    (book.names.scope? x).isSome ↔ (book.find? x).isSome := by
  have hfind := find?_eq h x
  rw [find?_variablesOnly, names_variablesOnly] at hfind
  cases hscope : book.names.scope? x with
  | none =>
    rw [hscope] at hfind
    simp [hfind]
  | some scope =>
    rw [hscope] at hfind
    obtain ⟨v, hv, -⟩ := hfind
    simp [hv]

/-- In every book, the address of a variable is the place of its name. -/
theorem Arises.sound (h : book.Arises) : book.variablesOnly.Sound := by
  induction h with
  | empty => exact sound_empty
  | @addVariable book _ m ih =>
    have hadded := addVariable_eq ih m
    rw [addVariable_variablesOnly] at hadded
    exact hadded.sound
  | addFunction _ m entry hok ih => rwa [addFunction_variablesOnly hok]
  | enter _ hok ih => exact (enter_ok ih (enter_variablesOnly hok)).2.2.2
  | exit _ hok ih => exact (exit_ok ih (exit_variablesOnly hok)).2.2

end AddressBook

namespace Compilation

/-! ## Looking up -/

/-- The failures that an expression can come to. -/
def Failure.OfExpression : Failure → Prop
  | .unexpected .. | .undeclared .variable _ | .outOfTokens | .badNumber _ | .log _ => True
  | _ => False

/-- The same with another book. -/
def withBook {α : Type} (book : AddressBook) :
    EStateM.Result Failure State α → EStateM.Result Failure State α
  | .ok a s => .ok a { s with book }
  | .error e s => .error e { s with book }

/-- The action does nothing to the book and asks it for nothing but variables by their names. -/
structure Consults {α : Type} (x : Action α) : Prop where
  book : ∀ (s : State) (book : AddressBook), (∀ name, book.find? name = s.book.find? name) →
    x { s with book } = withBook book (x s)
  failure : ∀ s e s', x s = .error e s' → e.OfExpression

namespace Consults

variable {α β : Type} {x : Action α} {s s' : State}

/-- The book stays as it is. -/
theorem book_eq (h : Consults x) {a : α} (hx : x s = .ok a s') : s'.book = s.book := by
  have hsame := h.book s s.book fun _ => rfl
  rw [show ({ s with book := s.book } : State) = s from rfl, hx, withBook] at hsame
  injection hsame with _ hs
  rw [hs]

/-- What succeeds with a book succeeds with any other one that finds the same variables. -/
theorem exists_ok (h : Consults x) {book : AddressBook} {a : α}
    (hbook : ∀ name, book.find? name = s.book.find? name) (hx : x { s with book } = .ok a s') :
    ∃ s₁, x s = .ok a s₁ ∧ s₁.book = s.book ∧ s' = { s₁ with book } := by
  rw [h.book s book hbook] at hx
  cases hs : x s with
  | ok b s₁ =>
    rw [hs] at hx
    cases hx
    exact ⟨s₁, rfl, h.book_eq hs, rfl⟩
  | error e s₁ =>
    rw [hs] at hx
    cases hx

/-- What fails with a book fails with any other one that finds the same variables. -/
theorem exists_error (h : Consults x) {book : AddressBook} {e : Failure}
    (hbook : ∀ name, book.find? name = s.book.find? name) (hx : x { s with book } = .error e s') :
    ∃ s₁, x s = .error e s₁ := by
  rw [h.book s book hbook] at hx
  cases hs : x s with
  | ok b s₁ =>
    rw [hs] at hx
    cases hx
  | error e' s₁ =>
    rw [hs] at hx
    cases hx
    exact ⟨s₁, rfl⟩

theorem bind {f : α → Action β} (hx : Consults x) (hf : ∀ a, Consults (f a)) :
    Consults (x >>= f) := by
  constructor
  · intro s book hbook
    cases hs : x s with
    | ok a s₁ =>
      have hs' : x { s with book } = .ok a { s₁ with book } := by
        rw [hx.book s book hbook, hs, withBook]
      rw [bind_of_ok hs, bind_of_ok hs']
      exact (hf a).book s₁ book fun name => by rw [hbook, hx.book_eq hs]
    | error e s₁ =>
      have hs' : x { s with book } = .error e { s₁ with book } := by
        rw [hx.book s book hbook, hs, withBook]
      rw [bind_eq_error.mpr (.inl hs), bind_eq_error.mpr (.inl hs'), withBook]
  · intro s e s' h
    rcases bind_eq_error.mp h with h | ⟨a, s₁, -, h⟩
    · exact hx.failure s e s' h
    · exact (hf a).failure s₁ e s' h

theorem pure (a : α) : Consults (Pure.pure a : Action α) :=
  ⟨fun _ _ _ => rfl, fun _ _ _ h => by cases h⟩

theorem throw {e : Failure} (h : e.OfExpression) : Consults (MonadExcept.throw e : Action α) :=
  ⟨fun _ _ _ => rfl, fun _ _ _ h' => by cases h'; exact h⟩

theorem ite {p : Prop} [Decidable p] {y : Action α} (hx : Consults x) (hy : Consults y) :
    Consults (if p then x else y) := by
  split
  · exact hx
  · exact hy

end Consults

/-! ## Single actions -/

theorem consults_current : Consults current := ⟨fun _ _ _ => rfl, fun _ _ _ h => by cases h⟩

theorem consults_currentKind : Consults currentKind := ⟨fun _ _ _ => rfl, fun _ _ _ h => by cases h⟩

theorem consults_advance : Consults advance := by
  constructor
  · rintro ⟨t, upcoming, _, log⟩ book -
    unfold advance
    dsimp only
    split
    · rfl
    · cases upcoming <;> rfl
  · intro s e s' h
    unfold advance at h
    split at h
    · cases h
    · split at h <;> cases h
      trivial

theorem consults_expect (k : Kind) (expected : Expectation) : Consults (expect k expected) := by
  refine consults_current.bind fun t => .ite (consults_advance.bind fun _ => .pure t) ?_
  have hunexpected : (Failure.unexpected t expected).OfExpression := trivial
  exact .throw hunexpected

theorem consults_expectSign (x : Sign) : Consults (expectSign x) :=
  (consults_expect _ _).bind fun _ => .pure ()

theorem consults_emit (op : Opcode) (x : Option Operand) : Consults (emit op x) := by
  constructor
  · intro s book _
    unfold emit
    rcases s.log.emit (.listed op) x with ⟨_ | a, log⟩ <;> rfl
  · intro s e s' h
    unfold emit at h
    rcases hemit : s.log.emit (.listed op) x with ⟨_ | a, log⟩ <;> rw [hemit] at h <;> cases h
    trivial

theorem consults_emitPlain (op : Opcode) : Consults (emitPlain op) :=
  (consults_emit op none).bind fun _ => .pure ()

theorem consults_load (t : Token) : Consults (load t) := by
  have hlookup : Consults (lookup t) := by
    refine ⟨fun s book hbook => ?_, fun _ _ _ h => by cases h⟩
    simp only [lookup, hbook]
    rfl
  refine hlookup.bind fun v => ?_
  cases v with
  | none => exact .throw trivial
  | some v => exact (consults_emit _ _).bind fun _ => .pure ()

theorem consults_constant (t : Token) : Consults (constant t) := by
  unfold constant
  cases Number.readFloat? t.lexeme with
  | none => exact .throw trivial
  | some x => exact (consults_emit _ _).bind fun _ => .pure ()

/-! ## Expressions -/

/-- Every production of expressions within this budget only looks variables up. -/
structure ExpressionsConsult (budget : Nat) : Prop where
  expression : Consults (expressionWithin budget)
  sum : Consults (sumWithin budget)
  term : Consults (termWithin budget)
  product : Consults (productWithin budget)
  factor : Consults (factorWithin budget)

namespace ExpressionsConsult

variable {budget : Nat}

theorem expression_succ (ih : ExpressionsConsult budget) : Consults (expressionWithin (budget + 1)) := by
  rw [expressionWithin]
  refine consults_currentKind.bind fun k => .ite ?_ (ih.term.bind fun _ => ih.sum)
  exact consults_advance.bind fun _ => (consults_expectSign _).bind fun _ =>
    (consults_expectSign _).bind fun _ => consults_emitPlain _

theorem sum_succ (ih : ExpressionsConsult budget) : Consults (sumWithin (budget + 1)) := by
  rw [sumWithin]
  refine consults_currentKind.bind fun k => ?_
  cases additive? k with
  | none => exact .pure ()
  | some op => exact consults_advance.bind fun _ => ih.term.bind fun _ =>
      (consults_emitPlain op).bind fun _ => ih.sum

theorem term_succ (ih : ExpressionsConsult budget) : Consults (termWithin (budget + 1)) := by
  rw [termWithin]
  exact ih.factor.bind fun _ => ih.product

theorem product_succ (ih : ExpressionsConsult budget) : Consults (productWithin (budget + 1)) := by
  rw [productWithin]
  refine consults_currentKind.bind fun k => ?_
  cases multiplicative? k with
  | none => exact .pure ()
  | some op => exact consults_advance.bind fun _ => ih.factor.bind fun _ =>
      (consults_emitPlain op).bind fun _ => ih.product

theorem factor_succ (ih : ExpressionsConsult budget) : Consults (factorWithin (budget + 1)) := by
  rw [factorWithin]
  refine consults_current.bind fun t => ?_
  split
  · exact consults_advance.bind fun _ => consults_load t
  · exact consults_advance.bind fun _ => consults_constant t
  · exact consults_advance.bind fun _ => ih.expression.bind fun _ => consults_expectSign _
  · exact .throw trivial

end ExpressionsConsult

theorem expressionsConsult (budget : Nat) : ExpressionsConsult budget := by
  induction budget with
  | zero => exact ⟨.throw trivial, .throw trivial, .throw trivial, .throw trivial, .throw trivial⟩
  | succ budget ih =>
    exact ⟨ih.expression_succ, ih.sum_succ, ih.term_succ, ih.product_succ, ih.factor_succ⟩

theorem consults_condition (budget : Nat) : Consults (conditionWithin budget) := by
  have hexpression := (expressionsConsult budget).expression
  refine hexpression.bind fun _ => consults_current.bind fun t => ?_
  cases relation? t.kind with
  | none => exact .throw trivial
  | some op => exact consults_advance.bind fun _ => hexpression.bind fun _ => consults_emitPlain op

end Compilation

end StackPrimer

import StackPrimer.Compilation.Program
import StackPrimer.Proofs.OnePass.Success

/-!
# What a result depends on

A compilation looks at one token at a time. What it answers depends on the tokens that it has looked
at and not on those behind, and it does not depend on the budget, as long as the budget lasts.

Both are said of two runs at once: the second one has a stream that goes on differently behind what
the first one has looked at, and it has at least the budget of the first one.

Results:
* `local_program`: two such runs have the same result.
-/

namespace StackPrimer.Compilation

/-! ## Streams that go on -/

/-- The state with these tokens behind those to come. -/
def State.before (s : State) (u : List Token) : State := { s with upcoming := s.upcoming ++ u }

/-- What an action comes to. -/
abbrev Outcome (α : Type) := EStateM.Result Failure State α

namespace Outcome

variable {α : Type}

/-- The state that the action leaves. -/
def state : Outcome α → State
  | .ok _ s => s
  | .error _ s => s

/-- The same with these tokens behind those to come. -/
def before (r : Outcome α) (u : List Token) : Outcome α :=
  match r with
  | .ok a s => .ok a (s.before u)
  | .error e s => .error e (s.before u)

/-- The same with these tokens to come. -/
def onward (r : Outcome α) (u : List Token) : Outcome α :=
  match r with
  | .ok a s => .ok a { s with upcoming := u }
  | .error e s => .error e { s with upcoming := u }

/-- There were tokens and budget enough. -/
def Complete (r : Outcome α) : Prop := ∀ s, r ≠ .error .outOfTokens s

@[simp] theorem upcoming_before (r : Outcome α) (u : List Token) :
    (r.before u).state.upcoming = r.state.upcoming ++ u := by
  cases r <;> rfl

@[simp] theorem upcoming_onward (r : Outcome α) (u : List Token) :
    (r.onward u).state.upcoming = u := by
  cases r <;> rfl

theorem onward_append (r : Outcome α) (u : List Token) :
    r.onward (r.state.upcoming ++ u) = r.before u := by
  cases r <;> rfl

end Outcome

theorem State.before_inj {s s' : State} {u : List Token} (h : s.before u = s'.before u) : s = s' := by
  obtain ⟨t, m, book, log⟩ := s
  obtain ⟨t', m', book', log'⟩ := s'
  simp only [State.before, State.mk.injEq] at h
  obtain ⟨rfl, hm, rfl, rfl⟩ := h
  rw [List.append_cancel_right hm]

theorem Outcome.before_inj {α : Type} {r r' : Outcome α} {u : List Token}
    (h : r.before u = r'.before u) : r = r' := by
  cases r <;> cases r' <;> simp only [before, EStateM.Result.ok.injEq,
    EStateM.Result.error.injEq, reduceCtorEq] at h
  · rw [h.1, State.before_inj h.2]
  · rw [h.1, State.before_inj h.2]

/-- What a stream has to come in front of `u` is no part of `u`. -/
theorem Outcome.ne_before {α : Type} {r : Outcome α} {s : State} {a : α} {u : List Token}
    (h : s.upcoming.length < u.length) : (.ok a s : Outcome α) ≠ r.before u := by
  intro heq
  have hupcoming : s.upcoming = r.state.upcoming ++ u := by
    rw [← Outcome.upcoming_before, ← heq]
    rfl
  rw [hupcoming, List.length_append] at h
  omega

theorem Outcome.not_complete_of_before {α : Type} {r : Outcome α} {s : State} {u : List Token}
    (h : (.error .outOfTokens s : Outcome α) = r.before u) : ¬r.Complete := by
  cases r with
  | ok a s' => cases h
  | error e s' =>
    have he : e = .outOfTokens := by
      injection h with he
      exact he.symm
    exact fun hr => hr s' (by rw [he])

@[simp] theorem State.before_nil (s : State) : s.before [] = s := by
  rw [State.before, List.append_nil]

@[simp] theorem Outcome.before_nil {α : Type} (r : Outcome α) : r.before [] = r := by
  cases r <;> simp [before]

/-- A state with enough tokens to come is one with the rest of them behind. -/
theorem State.exists_before {s : State} {m u : List Token} (h : m ++ u <:+ s.upcoming) :
    ∃ s' : State, s = s'.before u := by
  obtain ⟨w, hw⟩ := h
  refine ⟨{ s with upcoming := w ++ m }, ?_⟩
  rw [State.before, List.append_assoc, hw]

theorem State.tokens_before (s : State) (u : List Token) : (s.before u).tokens = s.tokens ++ u := rfl

/-- A state with tokens left in front of others is one with those others behind. -/
theorem State.exists_before_of_tokens {s : State} {ts u : List Token} (hts : ts ≠ [])
    (h : s.tokens = ts ++ u) : ∃ s' : State, s = s'.before u ∧ s'.tokens = ts := by
  obtain ⟨t, upcoming, book, log⟩ := s
  cases ts with
  | nil => contradiction
  | cons t' ts =>
    obtain ⟨rfl, rfl⟩ := List.cons.inj h
    exact ⟨⟨t, ts, book, log⟩, rfl, rfl⟩

/-! ## Local actions -/

/-- The second action does what the first one does, also where the stream goes on differently behind
the tokens that the first one has looked at. -/
structure Local {α : Type} (x y : Action α) : Prop where
  suffix : ∀ s, (Outcome.state (x s)).upcoming <:+ s.upcoming
  same : ∀ (s : State) (r : Outcome α) (u v : List Token), x (s.before u) = r.before u →
    r.Complete → y (s.before v) = r.before v

namespace Local

variable {α β : Type} {x y : Action α}

theorem bind {f g : α → Action β} (hx : Local x y) (hf : ∀ a, Local (f a) (g a)) :
    Local (x >>= f) (y >>= g) := by
  constructor
  · intro s
    have hsuffix := hx.suffix s
    cases h : x s with
    | ok a s₁ =>
      rw [h] at hsuffix
      rw [bind_of_ok h]
      exact ((hf a).suffix s₁).trans hsuffix
    | error e s₁ =>
      rw [h] at hsuffix
      rw [bind_eq_error.mpr (.inl h)]
      exact hsuffix
  · intro s r u v h hr
    cases hxs : x (s.before u) with
    | ok a s₁ =>
      rw [bind_of_ok hxs] at h
      have hsuffix := (hf a).suffix s₁
      rw [h, Outcome.upcoming_before] at hsuffix
      obtain ⟨s₁, rfl⟩ := State.exists_before hsuffix
      have hy := hx.same s (.ok a s₁) u v hxs fun _ => by simp
      exact (bind_of_ok hy).trans ((hf a).same s₁ r u v h hr)
    | error e s₁ =>
      rw [bind_eq_error.mpr (.inl hxs)] at h
      cases r with
      | ok b s' => cases h
      | error e' s' =>
        obtain ⟨rfl, rfl⟩ : e = e' ∧ s₁ = s'.before u := by simpa [Outcome.before] using h
        have hy := hx.same s (.error e s') u v hxs fun s hs => hr s (by cases hs; rfl)
        exact bind_eq_error.mpr (.inl hy)

/-- An action that does not look at the tokens to come. -/
theorem of_blind (h : ∀ s u, x { s with upcoming := u } = Outcome.onward (x s) u) : Local x x := by
  have hupcoming : ∀ s, (Outcome.state (x s)).upcoming = s.upcoming := by
    intro s
    have hs := h s s.upcoming
    rw [show x { s with upcoming := s.upcoming } = x s from rfl] at hs
    rw [hs, Outcome.upcoming_onward]
  have hbefore : ∀ s u, x (s.before u) = Outcome.before (x s) u := by
    intro s u
    rw [State.before, h, ← hupcoming s, Outcome.onward_append]
  refine ⟨fun s => by simp only [hupcoming s, List.suffix_rfl], fun s r u v hxs _ => ?_⟩
  rw [hbefore] at hxs
  rw [hbefore, Outcome.before_inj hxs]

/-- An action that passes tokens: either there are enough of them, or those behind decide. -/
theorem of_passing
    (h : ∀ s : State,
      (∃ (a : α) (s' : State), s'.upcoming <:+ s.upcoming ∧
        ∀ u, x (s.before u) = .ok a (s'.before u)) ∨
      ∀ u : List Token, x (s.before u) = .error .outOfTokens (s.before u) ∨
        ∃ (a : α) (s' : State), s'.upcoming.length < u.length ∧ x (s.before u) = .ok a s') :
    Local x x := by
  refine ⟨fun s => ?_, fun s r u v hxs hr => ?_⟩
  · rcases h s with ⟨a, s', hsuffix, hok⟩ | hfew
    · have hs := hok []
      rw [State.before_nil, State.before_nil] at hs
      rw [hs]
      exact hsuffix
    · rcases hfew [] with hout | ⟨a, s', hlt, -⟩
      · rw [State.before_nil] at hout
        rw [hout]
        exact List.suffix_rfl
      · cases hlt
  · rcases h s with ⟨a, s', -, hok⟩ | hfew
    · rw [hok u] at hxs
      rw [hok v, ← Outcome.before_inj (r := .ok a s') hxs]
      rfl
    · rcases hfew u with hout | ⟨a, s', hlt, hok⟩
      · rw [hout] at hxs
        exact absurd hr (Outcome.not_complete_of_before hxs)
      · rw [hok] at hxs
        exact absurd hxs (Outcome.ne_before hlt)

theorem pure (a : α) : Local (Pure.pure a : Action α) (Pure.pure a) :=
  of_blind fun _ _ => rfl

theorem throw (e : Failure) : Local (MonadExcept.throw e : Action α) (MonadExcept.throw e) :=
  of_blind fun _ _ => rfl

/-- Where the budget does not last, nothing is said. -/
theorem out (y : Action α) : Local (MonadExcept.throw .outOfTokens) y :=
  ⟨fun _ => List.suffix_rfl, fun _ _ _ _ h hr => absurd hr (Outcome.not_complete_of_before h)⟩

theorem ite {c : Prop} [Decidable c] {x' y' : Action α} (h : Local x y) (h' : Local x' y') :
    Local (if c then x else x') (if c then y else y') := by
  split
  · exact h
  · exact h'

end Local

/-! ## Single actions -/

theorem local_current : Local current current := .of_blind fun _ _ => rfl

theorem local_currentKind : Local currentKind currentKind :=
  .of_blind fun _ _ => rfl

theorem advance_nil {s : State} (hk : s.token.kind ≠ .finish) (h : s.upcoming = []) :
    advance s = .error .outOfTokens s := by
  rw [advance, if_neg hk, h]

theorem advance_cons {s : State} {t : Token} {rest : List Token} (hk : s.token.kind ≠ .finish)
    (h : s.upcoming = t :: rest) : advance s = .ok () { s with token := t, upcoming := rest } := by
  rw [advance, if_neg hk, h]

theorem local_advance : Local advance advance := by
  refine .of_passing fun s => ?_
  by_cases hk : s.token.kind = .finish
  · exact .inl ⟨(), s, List.suffix_rfl, fun u => advance_finish (s := s.before u) hk⟩
  · cases hm : s.upcoming with
    | nil =>
      refine .inr fun u => ?_
      have hm' : (s.before u).upcoming = u := by rw [State.before, hm, List.nil_append]
      cases u with
      | nil => exact .inl (advance_nil (s := s.before []) hk hm')
      | cons t u => exact .inr ⟨(), _, by simp, advance_cons (s := s.before (t :: u)) hk hm'⟩
    | cons t m =>
      refine .inl ⟨(), { s with token := t, upcoming := m }, List.suffix_cons t m, fun u => ?_⟩
      have hm' : (s.before u).upcoming = t :: (m ++ u) := by rw [State.before, hm, List.cons_append]
      exact advance_cons (s := s.before u) hk hm'

theorem skipIndents_nil {s : State}
    (h : s.tokens.dropWhile (fun t => decide (t.kind = .indent)) = []) :
    skipIndents s = .error .outOfTokens s := by
  rw [State.tokens] at h
  rw [skipIndents, h]

theorem skipIndents_cons {s : State} {t : Token} {rest : List Token}
    (h : s.tokens.dropWhile (fun t => decide (t.kind = .indent)) = t :: rest) :
    skipIndents s = .ok () { s with token := t, upcoming := rest } := by
  rw [State.tokens] at h
  rw [skipIndents, h]

theorem local_skipIndents : Local skipIndents skipIndents := by
  refine .of_passing fun s => ?_
  have happend : ∀ u, (s.before u).tokens = s.tokens ++ u := fun u => rfl
  cases hd : s.tokens.dropWhile (fun t => decide (t.kind = .indent)) with
  | nil =>
    -- all tokens to come are indentation, and those behind decide
    refine .inr fun u => ?_
    have hu : (s.before u).tokens.dropWhile (fun t => decide (t.kind = .indent)) =
        u.dropWhile (fun t => decide (t.kind = .indent)) := by
      rw [happend, List.dropWhile_append, hd]
      rfl
    cases hdu : u.dropWhile (fun t => decide (t.kind = .indent)) with
    | nil => exact .inl (skipIndents_nil (hu.trans hdu))
    | cons t rest =>
      have hle := (List.dropWhile_suffix (fun t : Token => decide (t.kind = .indent)) (l := u)).length_le
      rw [hdu, List.length_cons] at hle
      exact .inr ⟨(), { s.before u with token := t, upcoming := rest }, hle,
        skipIndents_cons (hu.trans hdu)⟩
  | cons t rest =>
    have hsuffix := List.dropWhile_suffix (fun t : Token => decide (t.kind = .indent)) (l := s.tokens)
    rw [hd] at hsuffix
    refine .inl ⟨(), { s with token := t, upcoming := rest }, ?_, fun u => ?_⟩
    · rcases List.suffix_cons_iff.mp hsuffix with heq | hsuffix
      · exact (List.cons.inj heq).2 ▸ List.suffix_rfl
      · exact (List.suffix_cons t rest).trans hsuffix
    · refine skipIndents_cons (s := s.before u) ?_
      rw [happend, List.dropWhile_append, hd]
      rfl

/-! ## Code and names -/

theorem local_here : Local here here := .of_blind fun _ _ => rfl

theorem local_emit (op : Opcode) (x : Option Operand) : Local (emit op x) (emit op x) := by
  refine .of_blind fun s u => ?_
  unfold emit
  rcases s.log.emit (.listed op) x with ⟨_ | a, log⟩ <;> rfl

theorem local_emitPlain (op : Opcode) : Local (emitPlain op) (emitPlain op) :=
  (local_emit op none).bind fun _ => .pure ()

theorem local_emitInt (op : Opcode) (n : Int) : Local (emitInt op n) (emitInt op n) :=
  local_emit op _

theorem local_land (address : Int) : Local (land address) (land address) := by
  refine .of_blind fun s u => ?_
  unfold land
  rcases s.log.patch address (some (.int s.log.size)) with ⟨_ | a, log⟩ <;> rfl

theorem local_addVariable (t : Token) : Local (addVariable t) (addVariable t) :=
  .of_blind fun _ _ => rfl

theorem local_declares (t : Token) : Local (declares t) (declares t) := .of_blind fun _ _ => rfl

theorem local_entry (t : Token) : Local ( entry? t) ( entry? t) := .of_blind fun _ _ => rfl

theorem local_lookup (t : Token) : Local (lookup t) (lookup t) := .of_blind fun _ _ => rfl

theorem local_addFunction (t : Token) : Local (addFunction t) (addFunction t) := by
  refine .of_blind fun s u => ?_
  unfold addFunction
  rcases s.book.addFunction (.ofToken t) s.log.size with (_ | _) | book <;> rfl

theorem local_enterFunction : Local enterFunction enterFunction := by
  refine .of_blind fun s u => ?_
  unfold enterFunction
  rcases s.book.enter with e | book <;> rfl

theorem local_exitFunction : Local exitFunction exitFunction := by
  refine .of_blind fun s u => ?_
  unfold exitFunction
  rcases s.book.exit with e | book <;> rfl

theorem local_expect (k : Kind) (e : Expectation) : Local (expect k e) (expect k e) :=
  local_current.bind fun t =>
    .ite (local_advance.bind fun _ => .pure t) (.throw (.unexpected t e))

theorem local_expectSign (x : Sign) : Local (expectSign x) (expectSign x) :=
  (local_expect _ _).bind fun _ => .pure ()

theorem local_load (t : Token) : Local (load t) (load t) := by
  refine (local_lookup t).bind fun v => ?_
  cases v with
  | none => exact .throw _
  | some v => exact (local_emitInt _ _).bind fun _ => .pure ()

theorem local_store (t : Token) : Local (store t) (store t) := by
  refine (local_lookup t).bind fun v => ?_
  cases v with
  | none => exact .throw _
  | some v => exact (local_emitInt _ _).bind fun _ => .pure ()

theorem local_declare (t : Token) : Local (declare t) (declare t) :=
  (local_addVariable t).bind fun _ => (local_emitInt .allocate 1).bind fun _ => .pure ()

theorem local_constant (t : Token) : Local (constant t) (constant t) := by
  unfold constant
  cases Number.readFloat? t.lexeme with
  | none => exact .throw _
  | some x => exact (local_emit _ _).bind fun _ => .pure ()

/-! ## Expressions -/

/-- Every production of expressions is local, where the second budget is not less than the first. -/
structure ExpressionsLocal (b c : Nat) : Prop where
  expression : Local (expressionWithin b) (expressionWithin c)
  sum : Local (sumWithin b) (sumWithin c)
  term : Local (termWithin b) (termWithin c)
  product : Local (productWithin b) (productWithin c)
  factor : Local (factorWithin b) (factorWithin c)

namespace ExpressionsLocal

variable {b c : Nat}

theorem expression_succ (ih : ExpressionsLocal b c) :
    Local (expressionWithin (b + 1)) (expressionWithin (c + 1)) := by
  rw [expressionWithin, expressionWithin]
  refine local_currentKind.bind fun k => .ite ?_ (ih.term.bind fun _ => ih.sum)
  exact local_advance.bind fun _ => (local_expectSign _).bind fun _ =>
    (local_expectSign _).bind fun _ => local_emitPlain _

theorem sum_succ (ih : ExpressionsLocal b c) : Local (sumWithin (b + 1)) (sumWithin (c + 1)) := by
  rw [sumWithin, sumWithin]
  refine local_currentKind.bind fun k => ?_
  cases additive? k with
  | none => exact .pure ()
  | some op => exact local_advance.bind fun _ => ih.term.bind fun _ =>
      (local_emitPlain op).bind fun _ => ih.sum

theorem term_succ (ih : ExpressionsLocal b c) : Local (termWithin (b + 1)) (termWithin (c + 1)) := by
  rw [termWithin, termWithin]
  exact ih.factor.bind fun _ => ih.product

theorem product_succ (ih : ExpressionsLocal b c) :
    Local (productWithin (b + 1)) (productWithin (c + 1)) := by
  rw [productWithin, productWithin]
  refine local_currentKind.bind fun k => ?_
  cases multiplicative? k with
  | none => exact .pure ()
  | some op => exact local_advance.bind fun _ => ih.factor.bind fun _ =>
      (local_emitPlain op).bind fun _ => ih.product

theorem factor_succ (ih : ExpressionsLocal b c) :
    Local (factorWithin (b + 1)) (factorWithin (c + 1)) := by
  rw [factorWithin, factorWithin]
  refine local_current.bind fun t => ?_
  split
  · exact local_advance.bind fun _ => local_load t
  · exact local_advance.bind fun _ => local_constant t
  · exact local_advance.bind fun _ => ih.expression.bind fun _ => local_expectSign _
  · exact .throw _

end ExpressionsLocal

theorem expressionsLocal {b c : Nat} (h : b ≤ c) : ExpressionsLocal b c := by
  induction b generalizing c with
  | zero => exact ⟨.out _, .out _, .out _, .out _, .out _⟩
  | succ b ih =>
    cases c with
    | zero => exact absurd h (Nat.not_succ_le_zero b)
    | succ c =>
      have hbc := ih (Nat.le_of_succ_le_succ h)
      exact ⟨hbc.expression_succ, hbc.sum_succ, hbc.term_succ, hbc.product_succ, hbc.factor_succ⟩

theorem local_condition {b c : Nat} (h : b ≤ c) :
    Local (conditionWithin b) (conditionWithin c) := by
  refine (expressionsLocal h).expression.bind fun _ => local_current.bind fun t => ?_
  cases relation? t.kind with
  | none => exact .throw _
  | some op => exact local_advance.bind fun _ => (expressionsLocal h).expression.bind fun _ =>
      local_emitPlain op

/-! ## Statements -/

theorem local_goesOn (place : Place) : Local (goesOn place) (goesOn place) := by
  refine local_currentKind.bind fun k => .ite (.pure false) ?_
  exact local_skipIndents.bind fun _ => local_currentKind.bind fun k => .pure _

theorem local_moreArguments {b c : Nat} (h : b ≤ c) :
    Local (moreArgumentsWithin b) (moreArgumentsWithin c) := by
  induction b generalizing c with
  | zero => exact .out _
  | succ b ih =>
    cases c with
    | zero => exact absurd h (Nat.not_succ_le_zero b)
    | succ c =>
      have hbc := Nat.le_of_succ_le_succ h
      rw [moreArgumentsWithin, moreArgumentsWithin]
      refine local_currentKind.bind fun k => .ite ?_ (.pure ())
      exact local_advance.bind fun _ => (expressionsLocal hbc).expression.bind fun _ => ih hbc

theorem local_arguments {b c : Nat} (h : b ≤ c) :
    Local (argumentsWithin b) (argumentsWithin c) :=
  local_currentKind.bind fun _ => .ite (.pure ())
    ((expressionsLocal h).expression.bind fun _ => local_moreArguments h)

theorem local_assignment {b c : Nat} (h : b ≤ c) (name : Token) :
    Local (assignmentWithin b name) (assignmentWithin c name) := by
  have hvalue : Local (expressionWithin b >>= fun _ => store name)
      (expressionWithin c >>= fun _ => store name) :=
    (expressionsLocal h).expression.bind fun _ => local_store name
  exact local_advance.bind fun _ => (local_declares name).bind fun _ =>
    .ite hvalue ((local_declare name).bind fun _ => hvalue)

theorem local_call {b c : Nat} (h : b ≤ c) (name : Token) :
    Local (callWithin b name) (callWithin c name) := by
  refine (local_entry name).bind fun entry => ?_
  cases entry with
  | none => exact .throw _
  | some entry => exact (local_emitInt _ _).bind fun back => local_advance.bind fun _ =>
      (local_arguments h).bind fun _ => (local_expectSign _).bind fun _ =>
        (local_emitInt _ _).bind fun _ => local_land back

theorem local_named {b c : Nat} (h : b ≤ c) : Local (namedWithin b) (namedWithin c) := by
  refine (local_expect _ _).bind fun name => local_current.bind fun t => ?_
  split
  · exact local_assignment h name
  · exact local_call h name
  · exact .throw _

theorem local_printing {b c : Nat} (h : b ≤ c) : Local (printingWithin b) (printingWithin c) :=
  local_advance.bind fun _ => (local_expectSign _).bind fun _ =>
    (expressionsLocal h).expression.bind fun _ => (local_expectSign _).bind fun _ =>
      local_emitPlain _

/-- Every production of statements is local, where the second budget is not less than the first. -/
structure StatementsLocal (b c : Nat) : Prop where
  statement : Local (statementWithin b) (statementWithin c)
  choice : Local (choiceWithin b) (choiceWithin c)
  loop : Local (loopWithin b) (loopWithin c)
  block : Local (blockWithin b) (blockWithin c)
  statements : ∀ place, Local (statementsWithin b place) (statementsWithin c place)
  more : ∀ place, Local (moreStatementsWithin b place) (moreStatementsWithin c place)

namespace StatementsLocal

variable {b c : Nat}

theorem statement_succ (ih : StatementsLocal b c) (h : b ≤ c) :
    Local (statementWithin (b + 1)) (statementWithin (c + 1)) := by
  rw [statementWithin, statementWithin]
  refine local_currentKind.bind fun k => ?_
  split
  · exact local_printing h
  · exact ih.choice
  · exact ih.loop
  · exact local_named h

theorem choice_succ (ih : StatementsLocal b c) (h : b ≤ c) :
    Local (choiceWithin (b + 1)) (choiceWithin (c + 1)) := by
  rw [choiceWithin, choiceWithin]
  refine (local_expect _ _).bind fun _ => (local_condition h).bind fun _ =>
    (local_expectSign _).bind fun _ => (local_emitInt _ _).bind fun past =>
      ih.block.bind fun _ => local_currentKind.bind fun k => .ite ?_ (local_land past)
  exact (local_emitInt _ _).bind fun skip => (local_land past).bind fun _ =>
    local_advance.bind fun _ => (local_expectSign _).bind fun _ => ih.block.bind fun _ =>
      local_land skip

theorem loop_succ (ih : StatementsLocal b c) (h : b ≤ c) :
    Local (loopWithin (b + 1)) (loopWithin (c + 1)) := by
  rw [loopWithin, loopWithin]
  exact (local_expect _ _).bind fun _ => local_here.bind fun _ => (local_condition h).bind fun _ =>
    (local_expectSign _).bind fun _ => (local_emitInt _ _).bind fun past =>
      ih.block.bind fun _ => (local_emitInt _ _).bind fun _ => local_land past

theorem block_succ (ih : StatementsLocal b c) :
    Local (blockWithin (b + 1)) (blockWithin (c + 1)) := by
  rw [blockWithin, blockWithin]
  exact (local_expect _ _).bind fun _ => ih.statements .block

theorem statements_succ (ih : StatementsLocal b c) (place : Place) :
    Local (statementsWithin (b + 1) place) (statementsWithin (c + 1) place) := by
  rw [statementsWithin, statementsWithin]
  exact local_skipIndents.bind fun _ => local_currentKind.bind fun k =>
    .ite (ih.statement.bind fun _ => ih.more place) (.pure ())

theorem more_succ (ih : StatementsLocal b c) (place : Place) :
    Local (moreStatementsWithin (b + 1) place) (moreStatementsWithin (c + 1) place) := by
  rw [moreStatementsWithin, moreStatementsWithin]
  exact (local_goesOn place).bind fun _ =>
    .ite (ih.statement.bind fun _ => ih.more place) (.pure ())

end StatementsLocal

theorem statementsLocal {b c : Nat} (h : b ≤ c) : StatementsLocal b c := by
  induction b generalizing c with
  | zero => exact ⟨.out _, .out _, .out _, .out _, fun _ => .out _, fun _ => .out _⟩
  | succ b ih =>
    cases c with
    | zero => exact absurd h (Nat.not_succ_le_zero b)
    | succ c =>
      have hle := Nat.le_of_succ_le_succ h
      have hbc := ih hle
      exact ⟨hbc.statement_succ hle, hbc.choice_succ hle, hbc.loop_succ hle, hbc.block_succ,
        hbc.statements_succ, hbc.more_succ⟩

/-! ## Programs -/

theorem local_variableDeclaration {b c : Nat} (h : b ≤ c) :
    Local (variableDeclarationWithin b) (variableDeclarationWithin c) := by
  have hrest : ∀ name : Token, Local
      (do declare name; expectSign .assign; expressionWithin b; store name)
      (do declare name; expectSign .assign; expressionWithin c; store name) := fun name =>
    (local_declare name).bind fun _ => (local_expectSign _).bind fun _ =>
      (expressionsLocal h).expression.bind fun _ => local_store name
  exact (local_expect _ _).bind fun name => local_currentKind.bind fun k =>
    .ite ((Local.throw _).bind fun _ => hrest name) (hrest name)

theorem local_moreParameters {b c : Nat} (h : b ≤ c) (before : List Int) :
    Local (moreParametersWithin b before) (moreParametersWithin c before) := by
  induction b generalizing c before with
  | zero => exact .out _
  | succ b ih =>
    cases c with
    | zero => exact absurd h (Nat.not_succ_le_zero b)
    | succ c =>
      rw [moreParametersWithin, moreParametersWithin]
      refine local_currentKind.bind fun k => .ite ?_ (.pure before)
      exact local_advance.bind fun _ => (local_expect _ _).bind fun name =>
        (local_addVariable name).bind fun address => ih (Nat.le_of_succ_le_succ h) _

theorem local_parameters {b c : Nat} (h : b ≤ c) :
    Local (parametersWithin b) (parametersWithin c) :=
  local_currentKind.bind fun _ => .ite
    ((local_expect _ _).bind fun name => (local_addVariable name).bind fun _ =>
      local_moreParameters h _) (.pure [])

theorem local_storeAll (addresses : List Int) : Local (storeAll addresses) (storeAll addresses) := by
  induction addresses with
  | nil => exact .pure ()
  | cons address rest ih => exact (local_emitInt _ _).bind fun _ => ih

theorem local_functionDeclaration {b c : Nat} (h : b ≤ c) :
    Local (functionDeclarationWithin b) (functionDeclarationWithin c) :=
  (local_expect _ _).bind fun _ => (local_expect _ _).bind fun name =>
    (local_emitInt _ _).bind fun guard => (local_addFunction name).bind fun _ =>
      local_enterFunction.bind fun _ => (local_emitPlain _).bind fun _ =>
        (local_expectSign _).bind fun _ => (local_parameters h).bind fun addresses =>
          (local_expectSign _).bind fun _ => (local_expectSign _).bind fun _ =>
            (local_storeAll addresses).bind fun _ => (statementsLocal h).block.bind fun _ =>
              local_exitFunction.bind fun _ => (local_emitPlain _).bind fun _ => local_land guard

theorem local_declarations {b c : Nat} (h : b ≤ c) :
    Local (declarationsWithin b) (declarationsWithin c) := by
  induction b generalizing c with
  | zero => exact .out _
  | succ b ih =>
    cases c with
    | zero => exact absurd h (Nat.not_succ_le_zero b)
    | succ c =>
      have hle := Nat.le_of_succ_le_succ h
      rw [declarationsWithin, declarationsWithin]
      refine local_current.bind fun t => ?_
      split
      · exact (local_functionDeclaration hle).bind fun _ => ih hle
      · exact (local_entry t).bind fun _ =>
          .ite ((local_variableDeclaration hle).bind fun _ => ih hle) (.pure ())
      · exact .pure ()

/-- Two runs of which the second one has at least the budget of the first one have the same result,
also where their streams go on differently behind the tokens that the first one has looked at. -/
theorem local_program {b c : Nat} (h : b ≤ c) : Local (programWithin b) (programWithin c) :=
  (local_emitPlain _).bind fun _ => (local_declarations h).bind fun _ =>
    ((statementsLocal h).statements .topLevel).bind fun _ => (local_expect _ _).bind fun _ =>
      (local_emitPlain _).bind fun _ => .of_blind fun _ _ => rfl

end StackPrimer.Compilation

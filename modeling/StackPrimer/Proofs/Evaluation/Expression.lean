import StackPrimer.Proofs.Acceptance.Expression
import StackPrimer.Proofs.Evaluation.Phrase
import StackPrimer.Proofs.Number.Lexeme
import StackPrimer.Proofs.Prefix.Locality

/-!
# Expressions by themselves

Wherever an expression is compiled, in whatever program and with whatever names, the tokens tell how far
it goes: it is the one whose tokens stand ahead and which what follows does not go on with. Its code
pushes its value wherever that code may stand, on any machine that has the cells of its variables. If no
expression stands ahead, a token is not what the grammar asks for, or a variable has not been declared.

Conditions are compiled in the same way, and what is said here is said of both.

Results:
* `production_expression`, `production_condition`: what expressions and conditions have in common.
* `Production.translates`: what such a production makes of the tokens ahead.
* `expressions_translate`: so expressions and conditions are compiled in all surroundings.
-/

namespace StackPrimer.Compilation

open Grammar
open Confinement (Satisfies evaluates)

/-! ## Where an expression ends -/

section Stops

variable {budget : Nat} {s s' : State}

/-- Behind the factors of a term no other one follows. -/
theorem productWithin_stops (h : productWithin budget s = .ok () s') :
    multiplicative? s'.token.kind = none := by
  induction budget generalizing s with
  | zero => exact absurd h throw_ne_ok
  | succ budget ih =>
    rcases productWithin_succ_ok h with ⟨hstop, rfl⟩ | ⟨x, s₁, s₂, s₃, -, -, -, hrest⟩
    · exact hstop
    · exact ih hrest

theorem termWithin_stops (h : termWithin budget s = .ok () s') :
    multiplicative? s'.token.kind = none := by
  cases budget with
  | zero => exact absurd h throw_ne_ok
  | succ budget =>
    obtain ⟨s₁, -, hrest⟩ := termWithin_succ_ok h
    exact productWithin_stops hrest

/-- Behind the terms of an expression neither a term nor a factor follows. -/
theorem sumWithin_stops (h : sumWithin budget s = .ok () s')
    (hterm : multiplicative? s.token.kind = none) :
    multiplicative? s'.token.kind = none ∧ additive? s'.token.kind = none := by
  induction budget generalizing s with
  | zero => exact absurd h throw_ne_ok
  | succ budget ih =>
    rcases sumWithin_succ_ok h with ⟨hstop, rfl⟩ | ⟨x, s₁, s₂, s₃, -, hread, hwritten, hrest⟩
    · exact ⟨hterm, hstop⟩
    · refine ih hrest ?_
      rw [hwritten.token_eq]
      exact termWithin_stops hread

/-- An expression that is compiled goes as far as it can. -/
theorem expressionWithin_stops (h : expressionWithin budget s = .ok () s') (hs : s.book.Sound) :
    ∃ e : Expression, Reads s s' e ∧ (e = .input ∨ EndsExpression s'.terminals) := by
  cases budget with
  | zero => exact absurd h throw_ne_ok
  | succ budget =>
    rcases expressionWithin_succ_ok h with hinput | ⟨s₁, h₁, h₂⟩
    · exact ⟨.input, hinput, .inl rfl⟩
    · obtain ⟨t, ht⟩ := (expressionsRead budget).term hs h₁
      obtain ⟨e, he⟩ := (expressionsRead budget).sum (ht.writes.sound hs) ht.ofTerm h₂
      obtain ⟨hm, ha⟩ := sumWithin_stops h₂ (termWithin_stops h₁)
      refine ⟨.ofSum e, he.ofSum, .inr (endsExpression_cons ?_ ?_ _)⟩
      · rwa [Terminal.kind_ofToken]
      · rwa [Terminal.kind_ofToken]

theorem conditionWithin_stops (h : conditionWithin budget s = .ok () s') (hs : s.book.Sound) :
    ∃ c : Condition, ReadsCondition s s' c ∧ (c.right = .input ∨ EndsExpression s'.terminals) := by
  obtain ⟨x, s₁, s₂, s₃, h₁, hw₂, h₃, hw₄⟩ := comparison_of_conditionWithin_ok h
  obtain ⟨left, hleft⟩ := expressionWithin_ok h₁ hs
  obtain ⟨right, hright, hends⟩ := expressionWithin_stops h₃ (hw₂.sound (hleft.writes.sound hs))
  refine ⟨⟨left, x, right⟩, hleft.compare hw₂ hright hw₄, hends.imp_right fun hends => ?_⟩
  rwa [terminals_of_tokens hw₄.tokens_eq]

end Stops

/-! ## Productions of phrases -/

/-- The phrase stands ahead, all of its names are bound, and it is complete in front of the rest. -/
structure Leads (p : Phrase) (s : State) (rest : List Token) : Prop where
  split : ∃ passed, s.tokens = passed ++ rest ∧ passed.map Terminal.ofToken = p.terminals
  behind : rest ≠ []
  bound : ∀ x ∈ p.mentions, (s.book.find? x).isSome
  complete : p.last = .input ∨ EndsExpression (rest.map Terminal.ofToken)

/-- What compiling a phrase comes to. -/
structure Translates (x : Action Unit) (IsPhrase : Phrase → Prop) (s : State) : Prop where
  /-- A phrase that stands ahead is passed, and code is written that pushes its value. -/
  accepts : ∀ p rest, IsPhrase p → Leads p s rest → ∃ is s', x s = .ok () s' ∧ s'.tokens = rest ∧
    s'.book = s.book ∧ s'.code = s.code ++ is ∧
    (∀ i ∈ is, Satisfies (fun op _ => evaluates op = true) i) ∧ p.Delivered s.book is
  /-- Otherwise a token is unexpected or a variable has not been declared. -/
  refuses : (∃ t ∈ s.tokens, t.kind = .finish) →
    (∀ t ∈ s.tokens, t.kind = .number → Numeral t.lexeme.toList) →
    (∀ p rest, IsPhrase p → ¬Leads p s rest) → ∃ e s', x s = .error e s' ∧
      ((∃ t expected, e = .unexpected t expected) ∨ ∃ t, e = .undeclared .variable t)

/-- What compiling phrases within a budget is like. -/
structure Production (within : Nat → Action Unit) (IsPhrase : Phrase → Prop) : Prop where
  evaluates : ∀ p, IsPhrase p → p.Evaluates
  reads : ∀ p, IsPhrase p → ∀ {budget : Nat} {s : State} {after : List Terminal},
    Ahead budget 3 s (p.terminals ++ after) →
    (∀ x ∈ p.mentions, (s.book.names.scope? x).isSome) → (p.last = .input ∨ EndsExpression after) →
    Succeeds (within budget) s fun _ s' => Writes s s' p.terminals (p.code s.book.names)
  stops : ∀ {budget : Nat} {s s' : State}, within budget s = .ok () s' → s.book.Sound →
    ∃ p, IsPhrase p ∧ (∀ x ∈ p.mentions, (s.book.names.scope? x).isSome) ∧
      Writes s s' p.terminals (p.code s.book.names) ∧ (p.last = .input ∨ EndsExpression s'.terminals)
  announces : ∀ {budget : Nat} {s : State}, s.book.Sound → Supplied budget 3 s →
    Announces (within budget) s
  consults : ∀ budget, Consults (within budget)
  unaware : ∀ budget, Local (within budget) (within budget)

theorem production_expression :
    Production expressionWithin fun p => ∃ e : Expression, p = e.phrase where
  evaluates := by
    rintro _ ⟨e, rfl⟩
    exact e.evaluates_phrase
  reads := by
    rintro _ ⟨e, rfl⟩ budget s after hahead hbound hafter
    obtain ⟨_, s', hrun, hreads⟩ := expression_reads e hahead (e.scoped_iff.mpr hbound) hafter
    exact ⟨(), s', hrun, hreads.writes⟩
  stops h hs := by
    obtain ⟨e, hreads, hends⟩ := expressionWithin_stops h hs
    exact ⟨e.phrase, ⟨e, rfl⟩, e.scoped_iff.mp hreads.1, hreads.writes, hends⟩
  announces := (expressionsAnnounce _).expression
  consults budget := (expressionsConsult budget).expression
  unaware budget := (expressionsLocal (Nat.le_refl budget)).expression

theorem production_condition : Production conditionWithin fun p => ∃ c : Condition, p = c.phrase where
  evaluates := by
    rintro _ ⟨c, rfl⟩
    exact c.evaluates_phrase
  reads := by
    rintro _ ⟨c, rfl⟩ budget s after hahead hbound hafter
    obtain ⟨_, s', hrun, hreads⟩ := condition_reads c hahead (c.scoped_iff.mpr hbound) hafter
    exact ⟨(), s', hrun, hreads.writes⟩
  stops h hs := by
    obtain ⟨c, hreads, hends⟩ := conditionWithin_stops h hs
    exact ⟨c.phrase, ⟨c, rfl⟩, c.scoped_iff.mp hreads.1, hreads.writes, hends⟩
  announces := announces_condition
  consults := consults_condition
  unaware budget := local_condition (Nat.le_refl budget)

namespace Production

variable {within : Nat → Action Unit} {IsPhrase : Phrase → Prop} {s : State}

/-- A phrase that stands ahead is read where one more token and the end stand behind it. -/
theorem exists_run (h : Production within IsPhrase) (hs : s.book.variablesOnly.Sound) {p : Phrase}
    {passed : List Token} {t last : Token} (hp : IsPhrase p) (hlast : last.kind = .finish)
    (htokens : s.tokens = passed ++ [t, last]) (hpassed : passed.map Terminal.ofToken = p.terminals)
    (hbound : ∀ x ∈ p.mentions, (s.book.find? x).isSome)
    (hcomplete : p.last = .input ∨ EndsExpression [Terminal.ofToken t, Terminal.ofToken last])
    {budget : Nat} (hbudget : 5 * s.upcoming.length + 3 ≤ budget) :
    ∃ s', within budget s = .ok () s' ∧ s'.tokens = [t, last] ∧ s'.book = s.book ∧
      s'.code = s.code ++ p.code s.book.names := by
  have hahead : Ahead budget 3 { s with book := s.book.variablesOnly }
      (p.terminals ++ [Terminal.ofToken t, Terminal.ofToken last]) := by
    refine ⟨⟨⟨last, ?_, hlast⟩, hbudget⟩, hs, ?_⟩
    · change last ∈ s.tokens
      simp [htokens]
    · change s.terminals = _
      simp [State.terminals, htokens, hpassed]
  obtain ⟨⟨⟩, s₁, hrun, hwrites⟩ := h.reads p hp hahead
    (fun x hx => (AddressBook.isSome_scope?_iff hs x).mpr (hbound x hx)) hcomplete
  -- with the functions of the book the same is done
  obtain ⟨s', hrun', hbook, rfl⟩ := (h.consults budget).exists_ok s.book.find?_variablesOnly hrun
  exact ⟨s', hrun', hwrites.tokens_rest htokens hpassed, hbook, hwrites.code⟩

/-- A phrase that stands ahead is read, whatever stands behind it. -/
theorem exists_ok (h : Production within IsPhrase) (hs : s.book.variablesOnly.Sound) {p : Phrase}
    {rest : List Token} (hp : IsPhrase p) (hleads : Leads p s rest) :
    ∃ s', within s.budget s = .ok () s' ∧ s'.tokens = rest ∧ s'.book = s.book ∧
      s'.code = s.code ++ p.code s.book.names := by
  obtain ⟨⟨passed, hsplit, hpassed⟩, hbehind, hbound, hcomplete⟩ := hleads
  obtain ⟨t, rest, rfl⟩ := List.exists_cons_of_ne_nil hbehind
  rw [List.append_cons] at hsplit
  obtain ⟨s, rfl, htokens⟩ := State.exists_before_of_tokens (by simp) hsplit
  -- first with the end in place of what stands behind the next token
  let last : Token := ⟨.finish, "", 0, 0, 0⟩
  have hbudget : 5 * (s.before [last]).upcoming.length + 3 ≤ (s.before rest).budget := by
    simp only [State.before, State.budget, List.length_append, List.length_singleton]
    omega
  obtain ⟨s₁, hrun, hleft, hbook, hcode⟩ := h.exists_run (s := s.before [last]) hs hp rfl
    (by rw [State.tokens_before, htokens, List.append_assoc]; rfl) hpassed hbound
    hcomplete hbudget
  obtain ⟨s₁, rfl, htoken⟩ := State.exists_before_of_tokens (List.cons_ne_nil t []) hleft
  have hrun := (h.unaware _).same s (.ok () s₁) [last] rest hrun fun _ => by simp
  exact ⟨s₁.before rest, hrun, by rw [State.tokens_before, htoken]; rfl, hbook, hcode⟩

/-- Where no phrase stands ahead, nothing is compiled. -/
theorem exists_error (h : Production within IsPhrase) (hs : s.book.variablesOnly.Sound)
    (hends : ∃ t ∈ s.tokens, t.kind = .finish)
    (hnumbers : ∀ t ∈ s.tokens, t.kind = .number → Numeral t.lexeme.toList)
    (hnone : ∀ p rest, IsPhrase p → ¬Leads p s rest) :
    ∃ e s', within s.budget s = .error e s' ∧
      ((∃ t expected, e = .unexpected t expected) ∨ ∃ t, e = .undeclared .variable t) := by
  have hsupplied : Supplied s.budget 3 { s with book := s.book.variablesOnly } :=
    ⟨hends, by simp only [State.budget]; omega⟩
  cases hrun : within s.budget { s with book := s.book.variablesOnly } with
  | ok a s' =>
    obtain ⟨p, hp, hbound, hwrites, hcomplete⟩ := h.stops hrun hs
    obtain ⟨passed, hsplit, hpassed, -⟩ := hwrites.tokens
    exact absurd ⟨⟨passed, hsplit, hpassed⟩, List.cons_ne_nil _ _, fun x hx =>
      (AddressBook.isSome_scope?_iff hs x).mp (hbound x hx), hcomplete⟩ (hnone p s'.tokens hp)
  | error e s' =>
    obtain ⟨s₁, hrun'⟩ := (h.consults s.budget).exists_error s.book.find?_variablesOnly hrun
    refine ⟨e, s₁, hrun', ?_⟩
    have hfailure := (h.consults s.budget).failure _ e s₁ hrun'
    cases h.announces hs hsupplied e s' hrun with
    | unexpected t expected => exact .inl ⟨t, expected, rfl⟩
    | undeclared role t =>
      cases role with
      | «variable» => exact .inr ⟨t, rfl⟩
      | function => exact hfailure.elim
    | redefined t => exact hfailure.elim
    | @badNumber t ht hk hread =>
      have hsome := Number.readFloat?_isSome_of_numeral (hnumbers t ht hk)
      rw [String.ofList_toList, hread] at hsome
      cases hsome

/-- In the surroundings of any program, a production makes of the tokens ahead what they say. -/
theorem translates (h : Production within IsPhrase) (hs : s.book.Arises) :
    Translates (fun s => within s.budget s) IsPhrase s where
  accepts p rest hp hleads := by
    obtain ⟨s', hrun, htokens, hbook, hcode⟩ := h.exists_ok hs.sound hp hleads
    exact ⟨p.code s.book.names, s', hrun, htokens, hbook, hcode,
      (h.evaluates p hp).operations _ fun x hx =>
        (AddressBook.isSome_scope?_iff hs.sound x).mpr (hleads.bound x hx),
      (h.evaluates p hp).delivered hs.sound⟩
  refuses hends hnumbers hnone := h.exists_error hs.sound hends hnumbers hnone

end Production

/-! ## Expressions and conditions -/

/-- Whatever can be seen where an expression or a condition is compiled, the tokens ahead are compiled
up to where it ends, to code that pushes its value; if they are none, that is what is reported. -/
theorem expressions_translate (s : State) (h : s.book.Arises) :
    Translates expression (fun p => ∃ e : Expression, p = e.phrase) s ∧
      Translates condition (fun p => ∃ c : Condition, p = c.phrase) s :=
  ⟨production_expression.translates h, production_condition.translates h⟩

/-- With a variable `a`, the tokens of `a * a` are compiled up to the end of the program. -/
theorem expressions_translate_square :
    let a : Token := ⟨.name, "a", 1, 0, 1⟩
    let times : Token := ⟨.sign .times, "*", 1, 2, 3⟩
    let last : Token := ⟨.finish, "", 1, 5, 5⟩
    let s : State := ⟨a, [times, a, last], (AddressBook.addVariable {} (.ofToken a)).2, {}⟩
    let square : Expression :=
      .ofSum (.ofTerm (.multiply (.ofFactor (.name "a")) .times (.name "a")))
    ∃ s', expression s = .ok () s' ∧ s'.tokens = [last] ∧ square.phrase.Delivered s.book s'.code := by
  intro a times last s square
  obtain ⟨is, s', hrun, htokens, -, hcode, -, hdelivered⟩ :=
    (expressions_translate s (.addVariable .empty (.ofToken a))).1.accepts square.phrase [last]
      ⟨square, rfl⟩
      { split := ⟨[a, times, a], rfl, by decide⟩
        behind := by simp
        bound := by decide
        complete := .inr (endsExpression_cons rfl rfl _) }
  obtain rfl : s'.code = is := hcode
  exact ⟨s', hrun, htokens, hdelivered⟩

end StackPrimer.Compilation

import StackPrimer.Proofs.Failure.Announced

/-!
# Expressions are accepted

A production succeeds where the terminals of a tree of its own stand ahead and what stands behind them
does not go on with the expression. The loops for sums and terms are followed up to the point behind a
tree: there they stand with some budget left.

Results:
* `accepted`: the expression whose terminals stand ahead is the one that is read.
* `expression_reads`, `condition_reads`: so it is with expressions and conditions of their own, in front
  of anything that does not go on with them.
-/

namespace StackPrimer.Compilation

open Grammar

/-! ## Success -/

/-- The action succeeds from the state, and this holds of the outcome. -/
def Succeeds {α : Type} (x : Action α) (s : State) (post : α → State → Prop) : Prop :=
  ∃ a s', x s = .ok a s' ∧ post a s'

namespace Succeeds

variable {α β : Type} {x : Action α} {f : α → Action β} {s s' : State} {mid : α → State → Prop}
  {post : β → State → Prop}

theorem bind (hx : Succeeds x s mid)
    (hf : ∀ a s₁, x s = .ok a s₁ → mid a s₁ → Succeeds (f a) s₁ post) :
    Succeeds (x >>= f) s post := by
  obtain ⟨a, s₁, ha, hmid⟩ := hx
  obtain ⟨b, s', hb, hpost⟩ := hf a s₁ ha hmid
  exact ⟨b, s', by rw [bind_of_ok ha, hb], hpost⟩

theorem bind_ok (hx : ∃ a s₁, x s = .ok a s₁)
    (hf : ∀ a s₁, x s = .ok a s₁ → Succeeds (f a) s₁ post) : Succeeds (x >>= f) s post := by
  obtain ⟨a, s₁, ha⟩ := hx
  obtain ⟨b, s', hb, hpost⟩ := hf a s₁ ha
  exact ⟨b, s', by rw [bind_of_ok ha, hb], hpost⟩

theorem congr {y z : Action β} (h : y s = z s) (hz : Succeeds z s post) :
    Succeeds y s post := by
  obtain ⟨b, s', hb, hpost⟩ := hz
  exact ⟨b, s', by rw [h, hb], hpost⟩

/-- A first part that only reads the state. -/
theorem read {a : α} (hx : x s = .ok a s) (hf : Succeeds (f a) s post) :
    Succeeds (x >>= f) s post := by
  obtain ⟨b, s', hb, hpost⟩ := hf
  exact ⟨b, s', by rw [bind_of_ok hx, hb], hpost⟩

end Succeeds

/-! ## What stands ahead -/

/-- These terminals stand ahead, and the budget is enough for them. -/
structure Ahead (budget reserve : Nat) (s : State) (ts : List Terminal) : Prop where
  supplied : Supplied budget reserve s
  sound : s.book.Sound
  terminals : s.terminals = ts

namespace Ahead

variable {budget reserve : Nat} {s s' : State} {t : Terminal} {ts us : List Terminal}
  {is : List Instruction}

theorem advances (h : Ahead budget reserve s (ts ++ us)) (hadv : Advances s s' ts is)
    (hs : s'.book.Sound) : Ahead budget (reserve + 5 * ts.length) s' us := by
  refine ⟨h.supplied.advances hadv, hs, ?_⟩
  have hsplit := hadv.terminals
  rw [h.terminals] at hsplit
  exact (List.append_cancel_left hsplit).symm

theorem writes (h : Ahead budget reserve s (ts ++ us)) (hw : Writes s s' ts is) :
    Ahead budget (reserve + 5 * ts.length) s' us :=
  h.advances hw.toAdvances (hw.sound h.sound)

/-- One terminal less. -/
theorem pass (h : Ahead budget reserve s (t :: us)) (hw : Writes s s' [t] is) :
    Ahead budget (reserve + 5) s' us :=
  h.writes hw

theorem stay (h : Ahead budget reserve s us) (hw : Writes s s' [] is) : Ahead budget reserve s' us :=
  h.writes hw

/-- Names may be bound without a terminal being passed. -/
theorem bound (h : Ahead budget reserve s us) (hadv : Advances s s' [] is) (hs : s'.book.Sound) :
    Ahead budget reserve s' us :=
  h.advances hadv hs

/-- With other code it is all the same. -/
theorem same (h : Ahead budget reserve s ts) (htokens : s'.tokens = s.tokens)
    (hbook : s'.book = s.book) : Ahead budget reserve s' ts :=
  ⟨h.supplied.of_tokens htokens, by rw [hbook]; exact h.sound,
    (terminals_of_tokens htokens).trans h.terminals⟩

theorem mono {reserve' : Nat} (h : Ahead budget reserve s ts) (hr : reserve' ≤ reserve) :
    Ahead budget reserve' s ts :=
  ⟨h.supplied.mono hr, h.sound, h.terminals⟩

theorem pred {reserve' : Nat} (h : Ahead (budget + 1) reserve s ts) (hr : reserve' + 1 ≤ reserve) :
    Ahead budget reserve' s ts :=
  ⟨h.supplied.pred hr, h.sound, h.terminals⟩

/-- A production takes one of the budget. -/
theorem spend (h : Ahead budget (reserve + 1) s ts) :
    ∃ left, budget = left + 1 ∧ Ahead left reserve s ts := by
  cases budget with
  | zero => exact h.supplied.not_zero.elim
  | succ budget => exact ⟨budget, rfl, h.pred (Nat.le_refl _)⟩

/-- The token looked at is of the kind of the first terminal. -/
theorem kind (h : Ahead budget reserve s (t :: ts)) : s.token.kind = t.kind := by
  have hhead := congrArg List.head? h.terminals
  simp only [State.terminals, State.tokens, List.map_cons, List.head?_cons, Option.some.injEq] at hhead
  rw [← hhead, Terminal.kind_ofToken]

theorem kind_mark {k : Kind} (h : Ahead budget reserve s (.mark k :: ts)) : s.token.kind = k :=
  h.kind

theorem kind_name {x : String} (h : Ahead budget reserve s (.name x :: ts)) :
    s.token.kind = .name :=
  h.kind

theorem ofToken (h : Ahead budget reserve s (t :: ts)) : Terminal.ofToken s.token = t := by
  have hhead := congrArg List.head? h.terminals
  simpa [State.terminals, State.tokens] using hhead

end Ahead

section Actions

variable {budget reserve : Nat} {s : State} {t : Terminal} {ts : List Terminal}

theorem succeeds_advance (h : Ahead budget reserve s (t :: ts)) (hk : t.kind ≠ .finish) :
    Succeeds advance s fun _ s' => Writes s s' [t] [] := by
  have hkind : s.token.kind ≠ .finish := by rwa [h.kind]
  obtain ⟨s', hadv⟩ := exists_advance (h.supplied.upcoming_ne_nil hkind)
  have hw := advance_ok hadv hkind
  rw [h.ofToken] at hw
  exact ⟨(), s', hadv, hw⟩

theorem succeeds_expect {k : Kind} (h : Ahead budget reserve s (t :: ts)) (hk : t.kind = k)
    (hf : k ≠ .finish) (e : Expectation) :
    Succeeds (expect k e) s fun u s' => u = s.token ∧ Writes s s' [t] [] := by
  unfold expect
  refine .read (current_ok s) ?_
  rw [if_pos (h.kind.trans hk)]
  refine .bind (succeeds_advance h (hk ▸ hf)) fun _ s₁ _ hw => ?_
  exact ⟨_, s₁, rfl, rfl, hw⟩

theorem succeeds_expectSign {x : Sign} (h : Ahead budget reserve s (.sign x :: ts)) :
    Succeeds (expectSign x) s fun _ s' => Writes s s' [.sign x] [] := by
  refine .bind (succeeds_expect h rfl (by simp) _) fun _ s₁ _ hw => ?_
  exact ⟨(), s₁, rfl, hw.2⟩

theorem succeeds_emitInt (op : Opcode) (h : op.takesOperand = true) (n : Int) (s : State) :
    Succeeds (emitInt op n) s fun a s' =>
      a = s.code.length ∧ Writes s s' [] [.of op (some (.int n))] := by
  obtain ⟨a, s', hemit⟩ := exists_emitInt op h n s
  exact ⟨a, s', hemit, emitInt_ok hemit⟩

theorem succeeds_emitPlain (op : Opcode) (h : op.takesOperand = false) (s : State) :
    Succeeds (emitPlain op) s fun _ s' => Writes s s' [] [plain op] := by
  obtain ⟨s', hemit⟩ := exists_emitPlain h s
  exact ⟨(), s', hemit, emitPlain_ok hemit⟩

theorem succeeds_land {s s₁ : State} {ts : List Terminal} {before after : List Instruction}
    {op : Opcode} {x : Operand} {a : Int}
    (h : Advances s s₁ ts (before ++ .of op (some x) :: after))
    (ha : a = (s.code.length + before.length : Nat)) :
    Succeeds (land a) s₁ fun _ s' => s'.tokens = s₁.tokens ∧ s'.book = s₁.book := by
  obtain ⟨s', hland⟩ := exists_land_since h ha
  obtain ⟨-, htokens, hbook⟩ := h.land _ hland ha rfl
  exact ⟨(), s', hland, htokens, hbook⟩

theorem succeeds_constant {t : Token} {x : Float} (h : Number.readFloat? t.lexeme = some x)
    (s : State) :
    Succeeds (constant t) s fun _ s' => Writes s s' [] [.of .constant (some (.float x))] := by
  obtain ⟨a, s', hemit⟩ := exists_emit .constant (some (.float x)) rfl s
  unfold constant
  rw [h]
  exact .bind ⟨a, s', hemit, (emit_ok hemit).2⟩ fun _ s₁ _ hw => ⟨(), s₁, rfl, hw⟩

end Actions

/-! ## Expressions -/

/-- No factor follows here. -/
def EndsTerm (ts : List Terminal) : Prop := ∀ t ∈ ts.head?, multiplicative? t.kind = none

/-- Neither a term nor a factor follows here. -/
def EndsExpression (ts : List Terminal) : Prop :=
  EndsTerm ts ∧ ∀ t ∈ ts.head?, additive? t.kind = none

theorem endsTerm_cons {t : Terminal} (h : multiplicative? t.kind = none) (ts : List Terminal) :
    EndsTerm (t :: ts) := by
  simpa [EndsTerm] using h

theorem endsExpression_cons {t : Terminal} (hm : multiplicative? t.kind = none)
    (ha : additive? t.kind = none) (ts : List Terminal) : EndsExpression (t :: ts) :=
  ⟨endsTerm_cons hm ts, by simpa using ha⟩

section Loops

variable {budget reserve : Nat} {s : State} {ts : List Terminal}

theorem Ahead.multiplicative (h : Ahead budget reserve s ts) (hts : EndsTerm ts) :
    multiplicative? s.token.kind = none := by
  rw [← Terminal.kind_ofToken]
  exact hts _ (by rw [← h.terminals]; rfl)

theorem Ahead.additive (h : Ahead budget reserve s ts) (hts : EndsExpression ts) :
    additive? s.token.kind = none := by
  rw [← Terminal.kind_ofToken]
  exact hts.2 _ (by rw [← h.terminals]; rfl)

/-- The loop for factors goes no further where no factor follows. -/
theorem productWithin_stop (h : Ahead budget (reserve + 1) s ts) (hts : EndsTerm ts) :
    productWithin budget s = .ok () s := by
  obtain ⟨budget, rfl, -⟩ := h.spend
  rw [productWithin, bind_of_ok (currentKind_ok s), h.multiplicative hts]
  rfl

/-- The loop for terms goes no further where no term follows. -/
theorem sumWithin_stop (h : Ahead budget (reserve + 1) s ts) (hts : EndsExpression ts) :
    sumWithin budget s = .ok () s := by
  obtain ⟨budget, rfl, -⟩ := h.spend
  rw [sumWithin, bind_of_ok (currentKind_ok s), h.additive hts]
  rfl

end Loops

@[simp] theorem additive?_sign (x : AddSign) : additive? (.sign x.sign) = some x.opcode := by
  cases x <;> rfl

@[simp] theorem multiplicative?_sign (x : MulSign) :
    multiplicative? (.sign x.sign) = some x.opcode := by
  cases x <;> rfl

@[simp] theorem relation?_sign (x : Comparison) : relation? (.sign x.sign) = some x.opcode := by
  cases x <;> rfl

theorem multiplicative?_additive (x : AddSign) : multiplicative? (.sign x.sign) = none := by
  cases x <;> rfl

/-- Along the tree the productions succeed; the loops come to stand behind it. -/
def Accepted : {l : Level} → Expr l → Prop
  | .expression, e => ∀ {budget : Nat} {s : State} {after : List Terminal},
      Ahead budget 3 s (e.terminals ++ after) → e.Scoped s.book.names → EndsExpression after →
      Succeeds (expressionWithin budget) s fun _ s' => Reads s s' e
  | .sum, e => ∀ {budget : Nat} {s : State} {after : List Terminal},
      Ahead budget 2 s (e.terminals ++ after) → e.Scoped s.book.names → EndsTerm after →
      ∃ left s', (termWithin budget >>= fun _ => sumWithin budget) s = sumWithin left s' ∧
        Reads s s' e ∧ Ahead left 1 s' after
  | .term, e => ∀ {budget : Nat} {s : State} {after : List Terminal},
      Ahead budget 2 s (e.terminals ++ after) → e.Scoped s.book.names →
      ∃ left s', termWithin budget s = productWithin left s' ∧ Reads s s' e ∧ Ahead left 1 s' after
  | .factor, e => ∀ {budget : Nat} {s : State} {after : List Terminal},
      Ahead budget 1 s (e.terminals ++ after) → e.Scoped s.book.names →
      Succeeds (factorWithin budget) s fun _ s' => Reads s s' e

/-- A whole term is read where no factor follows. -/
theorem Accepted.whole {e : Expr .term} (he : Accepted e) {budget : Nat} {s : State}
    {after : List Terminal} (h : Ahead budget 2 s (e.terminals ++ after))
    (hscoped : e.Scoped s.book.names) (hafter : EndsTerm after) :
    ∃ s', termWithin budget s = .ok () s' ∧ Reads s s' e := by
  obtain ⟨left, s', hrun, hreads, hahead⟩ := he h hscoped
  exact ⟨s', by rw [hrun, productWithin_stop hahead hafter], hreads⟩

/-- Behind the parenthesis that ends it the word for input is complete, whatever follows. -/
theorem input_reads {budget : Nat} {s : State} {after : List Terminal}
    (h : Ahead budget 3 s (Expr.input.terminals ++ after)) :
    Succeeds (expressionWithin budget) s fun _ s' => Reads s s' Expr.input := by
  obtain ⟨budget, rfl, -⟩ := h.spend
  rw [expressionWithin]
  refine .read (currentKind_ok s) ?_
  rw [if_pos h.kind_mark]
  refine .bind (succeeds_advance h (by simp)) fun _ s₁ _ hw₁ => ?_
  refine .bind (succeeds_expectSign (h.pass hw₁)) fun _ s₂ _ hw₂ => ?_
  refine .bind (succeeds_expectSign ((h.pass hw₁).pass hw₂)) fun _ s₃ _ hw₃ => ?_
  obtain ⟨_, s₄, hrun, hw₄⟩ := succeeds_emitPlain .read rfl s₃
  exact ⟨(), s₄, hrun, .input hw₁ hw₂ hw₃ hw₄⟩

theorem accepted_input : Accepted Expr.input := fun h _ _ => input_reads h

/-- No expression begins with a closing parenthesis, and only an expression of its own begins with the
word for input. -/
theorem exists_head_terminals {l : Level} (e : Expr l) :
    ∃ t ts, e.terminals = t :: ts ∧ t.kind ≠ .sign .closing ∧
      (l ≠ .expression → t.kind ≠ .word .inputWord) := by
  induction e with
  | input => exact ⟨.word .inputWord, [.sign .opening, .sign .closing], rfl, by simp, by simp⟩
  | ofSum e ih =>
    obtain ⟨t, ts, hts, hk, -⟩ := ih
    exact ⟨t, ts, hts, hk, by simp⟩
  | ofTerm e ih =>
    obtain ⟨t, ts, hts, hk, hinput⟩ := ih
    exact ⟨t, ts, hts, hk, fun _ => hinput (by simp)⟩
  | add left x right ihl ihr =>
    obtain ⟨t, ts, hts, hk, hinput⟩ := ihl
    exact ⟨t, ts ++ .sign x.sign :: right.terminals, by simp [Expr.terminals, hts], hk,
      fun _ => hinput (by simp)⟩
  | ofFactor e ih =>
    obtain ⟨t, ts, hts, hk, hinput⟩ := ih
    exact ⟨t, ts, hts, hk, fun _ => hinput (by simp)⟩
  | multiply left x right ihl ihr =>
    obtain ⟨t, ts, hts, hk, hinput⟩ := ihl
    exact ⟨t, ts ++ .sign x.sign :: right.terminals, by simp [Expr.terminals, hts], hk,
      fun _ => hinput (by simp)⟩
  | name x => exact ⟨.name x, [], rfl, by simp [Terminal.kind], by simp [Terminal.kind]⟩
  | number x => exact ⟨.number x.lexeme, [], rfl, by simp [Terminal.kind], by simp [Terminal.kind]⟩
  | group e ih => exact ⟨.sign .opening, e.terminals ++ [.sign .closing], rfl, by simp, by simp⟩

theorem accepted_ofSum {e : Expr .sum} (he : Accepted e) : Accepted (Expr.ofSum e) := by
  intro budget s after h hscoped hafter
  obtain ⟨budget, rfl, -⟩ := h.spend
  obtain ⟨t, ts, hts, -, hinput⟩ := exists_head_terminals e
  have hkind : s.token.kind ≠ .word .inputWord := by
    have hcons := h
    rw [show (Expr.ofSum e).terminals = t :: ts from hts] at hcons
    rw [hcons.kind]
    exact hinput (by simp)
  obtain ⟨left, s', hrun, hreads, hahead⟩ := he (h.pred (by omega)) hscoped hafter.1
  rw [expressionWithin]
  refine .read (currentKind_ok s) ?_
  rw [if_neg hkind]
  exact ⟨(), s', by rw [hrun, sumWithin_stop hahead hafter], hreads.ofSum⟩

theorem accepted_ofTerm {e : Expr .term} (he : Accepted e) : Accepted (Expr.ofTerm e) := by
  intro budget s after h hscoped hafter
  obtain ⟨s', hrun, hreads⟩ := he.whole h hscoped hafter
  refine ⟨budget, s', by rw [bind_of_ok hrun], hreads.ofTerm, (h.writes hreads.writes).mono ?_⟩
  omega

theorem accepted_add {left : Expr .sum} {x : AddSign} {right : Expr .term} (hl : Accepted left)
    (hr : Accepted right) : Accepted (Expr.add left x right) := by
  intro budget s after h hscoped hafter
  rw [Expr.terminals, List.append_assoc] at h
  obtain ⟨budget₁, s₁, hrun, hreads, hahead⟩ :=
    hl h hscoped.1 (endsTerm_cons (t := .sign x.sign) (multiplicative?_additive x) _)
  obtain ⟨budget₁, rfl, -⟩ := hahead.spend
  obtain ⟨_, s₂, hadv, hw₂⟩ := succeeds_advance hahead (by simp)
  have hahead₂ : Ahead budget₁ 2 s₂ (right.terminals ++ after) :=
    (hahead.pass hw₂).pred (by omega)
  have hscoped₂ : right.Scoped s₂.book.names := by
    rw [hw₂.names, hreads.writes.names]
    exact hscoped.2
  obtain ⟨s₃, hterm, hreads₃⟩ := hr.whole hahead₂ hscoped₂ hafter
  obtain ⟨_, s₄, hemit, hw₄⟩ := succeeds_emitPlain _ x.takesOperand_opcode s₃
  refine ⟨budget₁, s₄, ?_, hreads.add hw₂ hreads₃ hw₄, ?_⟩
  · rw [hrun, sumWithin, bind_of_ok (currentKind_ok s₁), hahead.kind_mark,
      additive?_sign]
    simp only [bind_of_ok hadv, bind_of_ok hterm, bind_of_ok hemit]
  · exact ((hahead₂.writes hreads₃.writes).stay hw₄).mono (by omega)

theorem accepted_ofFactor {e : Expr .factor} (he : Accepted e) : Accepted (Expr.ofFactor e) := by
  intro budget s after h hscoped
  obtain ⟨budget, rfl, -⟩ := h.spend
  have hahead : Ahead budget 1 s (e.terminals ++ after) := h.pred (by omega)
  obtain ⟨_, s', hrun, hreads⟩ := he hahead hscoped
  refine ⟨budget, s', by rw [termWithin, bind_of_ok hrun], hreads.ofFactor, ?_⟩
  exact (hahead.writes hreads.writes).mono (by omega)

theorem accepted_multiply {left : Expr .term} {x : MulSign} {right : Expr .factor}
    (hl : Accepted left) (hr : Accepted right) : Accepted (Expr.multiply left x right) := by
  intro budget s after h hscoped
  rw [Expr.terminals, List.append_assoc] at h
  obtain ⟨budget₁, s₁, hrun, hreads, hahead⟩ := hl h hscoped.1
  obtain ⟨budget₁, rfl, -⟩ := hahead.spend
  obtain ⟨_, s₂, hadv, hw₂⟩ := succeeds_advance hahead (by simp)
  have hahead₂ : Ahead budget₁ 1 s₂ (right.terminals ++ after) :=
    (hahead.pass hw₂).pred (by omega)
  have hscoped₂ : right.Scoped s₂.book.names := by
    rw [hw₂.names, hreads.writes.names]
    exact hscoped.2
  obtain ⟨_, s₃, hfactor, hreads₃⟩ := hr hahead₂ hscoped₂
  obtain ⟨_, s₄, hemit, hw₄⟩ := succeeds_emitPlain _ x.takesOperand_opcode s₃
  refine ⟨budget₁, s₄, ?_, hreads.multiply hw₂ hreads₃ hw₄, ?_⟩
  · rw [hrun, productWithin, bind_of_ok (currentKind_ok s₁), hahead.kind_mark,
      multiplicative?_sign]
    simp only [bind_of_ok hadv, bind_of_ok hfactor, bind_of_ok hemit]
  · exact ((hahead₂.writes hreads₃.writes).stay hw₄).mono (by omega)

theorem accepted_name (x : String) : Accepted (Expr.name x) := by
  intro budget s after h hscoped
  obtain ⟨budget, rfl, -⟩ := h.spend
  obtain ⟨hk, rfl⟩ := name_of_ofToken h.ofToken
  rw [factorWithin]
  refine .read (current_ok s) ?_
  rw [hk]
  refine .bind (succeeds_advance h (by simp [Terminal.kind])) fun _ s₁ _ hw₁ => ?_
  have hscope : (s₁.book.names.scope? s.token.lexeme).isSome := by
    rw [hw₁.names]
    exact hscoped
  obtain ⟨s₂, hload⟩ := exists_load (hw₁.sound h.sound) hscope
  exact ⟨(), s₂, hload, .name hw₁ hscope (load_ok hload (hw₁.sound h.sound)).2⟩

theorem accepted_number (x : Literal) : Accepted (Expr.number x) := by
  intro budget s after h hscoped
  obtain ⟨budget, rfl, -⟩ := h.spend
  obtain ⟨hk, hx⟩ := number_of_ofToken h.ofToken
  rw [factorWithin]
  refine .read (current_ok s) ?_
  rw [hk]
  refine .bind (succeeds_advance h (by simp [Terminal.kind])) fun _ s₁ _ hw₁ => ?_
  obtain ⟨_, s₂, hrun, hw₂⟩ := succeeds_constant (by rw [hx, x.reads]) s₁
  exact ⟨(), s₂, hrun, .number hw₁ hw₂⟩

theorem accepted_group {e : Expression} (he : Accepted e) : Accepted (Expr.group e) := by
  intro budget s after h hscoped
  obtain ⟨budget, rfl, -⟩ := h.spend
  have hts : (Expr.group e).terminals ++ after =
      .sign .opening :: (e.terminals ++ .sign .closing :: after) := by
    simp [Expr.terminals]
  rw [hts] at h
  rw [factorWithin]
  refine .read (current_ok s) ?_
  rw [h.kind_mark]
  refine .bind (succeeds_advance h (by simp)) fun _ s₁ _ hw₁ => ?_
  have hahead₁ : Ahead budget 3 s₁ (e.terminals ++ .sign .closing :: after) :=
    (h.pass hw₁).pred (by omega)
  refine .bind (he hahead₁ (by rw [hw₁.names]; exact hscoped)
    (endsExpression_cons rfl rfl _)) fun _ s₂ _ he₂ => ?_
  obtain ⟨_, s₃, hrun, hw₃⟩ := succeeds_expectSign (hahead₁.writes he₂.writes)
  exact ⟨(), s₃, hrun, .group hw₁ he₂ hw₃⟩

/-- The expression whose terminals stand ahead is read. -/
theorem accepted {l : Level} (e : Expr l) : Accepted e := by
  induction e with
  | input => exact accepted_input
  | ofSum e ih => exact accepted_ofSum ih
  | ofTerm e ih => exact accepted_ofTerm ih
  | add left x right ihl ihr => exact accepted_add ihl ihr
  | ofFactor e ih => exact accepted_ofFactor ih
  | multiply left x right ihl ihr => exact accepted_multiply ihl ihr
  | name x => exact accepted_name x
  | number x => exact accepted_number x
  | group e ih => exact accepted_group ih

/-- An expression of its own is read where it is complete. -/
theorem expression_reads (e : Expression) {budget : Nat} {s : State} {after : List Terminal}
    (h : Ahead budget 3 s (e.terminals ++ after)) (hscoped : e.Scoped s.book.names)
    (hafter : e = .input ∨ EndsExpression after) :
    Succeeds (expressionWithin budget) s fun _ s' => Reads s s' e := by
  rcases hafter with rfl | hafter
  · exact input_reads h
  · exact accepted e h hscoped hafter

/-- The condition whose terminals stand ahead is read where it is complete. -/
theorem condition_reads (c : Condition) {budget : Nat} {s : State} {after : List Terminal}
    (h : Ahead budget 3 s (c.terminals ++ after)) (hscoped : c.Scoped s.book.names)
    (hafter : c.right = .input ∨ EndsExpression after) :
    Succeeds (conditionWithin budget) s fun _ s' => ReadsCondition s s' c := by
  rw [Condition.terminals, List.append_assoc] at h
  have hends : EndsExpression (.sign c.comparison.sign :: (c.right.terminals ++ after)) := by
    cases c.comparison <;> exact endsExpression_cons rfl rfl _
  unfold conditionWithin
  refine .bind (accepted c.left h hscoped.1 hends) fun _ s₁ _ hl => ?_
  have hahead₁ := h.writes hl.writes
  refine .read (current_ok s₁) ?_
  rw [hahead₁.kind_mark, relation?_sign]
  refine .bind (succeeds_advance hahead₁ (by simp)) fun _ s₂ _ hw₂ => ?_
  have hahead₂ := hahead₁.pass hw₂
  have hright : c.right.Scoped s₂.book.names := by
    rw [hw₂.names, hl.writes.names]
    exact hscoped.2
  refine .bind (expression_reads c.right (hahead₂.mono (by omega)) hright hafter) fun _ s₃ _ hr => ?_
  obtain ⟨_, s₄, hrun, hw₄⟩ := succeeds_emitPlain _ c.comparison.takesOperand_opcode s₃
  exact ⟨(), s₄, hrun, hl.compare hw₂ hr hw₄⟩

end StackPrimer.Compilation

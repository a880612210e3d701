import StackPrimer.Proofs.Failure.Announced
import StackPrimer.Proofs.OnePass.Statement

/-!
# How statements fail

A jump always lands: what has been written since the jump says where it is. A name is declared before
it is stored to.

Results:
* `statementsAnnounce`: all productions of statements fail in the announced ways only.
-/

namespace StackPrimer.Compilation

open Grammar

variable {s s' : State}

/-! ## Statements without blocks -/

section Simple

variable {budget reserve : Nat}

theorem announces_goesOn (h : Supplied budget reserve s) (place : Place) :
    Announces (goesOn place) s := by
  unfold goesOn
  refine .read (currentKind_ok s) ?_
  split
  · exact .pure false
  · refine .bind (announces_skipIndents h) fun _ s₁ h₁ => ?_
    obtain ⟨k, hw₁, -⟩ := skipIndents_ok h₁
    exact ⟨hw₁.subset, .read (currentKind_ok s₁) (.pure _)⟩

theorem announces_printing (hs : s.book.Sound) (h : Supplied budget 1 s)
    (hk : s.token.kind = .word .printWord) : Announces (printingWithin budget) s := by
  unfold printingWithin
  refine .bind (announces_advance h) fun _ s₁ h₁ => ?_
  have hw₁ := advance_mark h₁ hk (by simp) (by simp) (by simp)
  have hsupplied₁ := h.advances hw₁.toAdvances
  refine ⟨hw₁.subset, .bind (announces_expectSign hsupplied₁ _) fun _ s₂ h₂ => ?_⟩
  have hw₂ := hw₁.trans (expectSign_ok h₂)
  have hsupplied₂ : Supplied budget 3 s₂ := (h.advances hw₂.toAdvances).mono (by simp)
  refine ⟨(expectSign_ok h₂).subset,
    .bind ((expressionsAnnounce budget).expression (hw₂.sound hs) hsupplied₂) fun _ s₃ h₃ => ?_⟩
  obtain ⟨e, -, hw₃⟩ := expressionWithin_ok h₃ (hw₂.sound hs)
  refine ⟨hw₃.subset,
    .bind (announces_expectSign (hsupplied₂.advances hw₃.toAdvances) _) fun _ s₄ h₄ => ?_⟩
  exact ⟨(expectSign_ok h₄).subset, announces_emitPlain rfl⟩

/-- Storing to a name that has been declared. -/
theorem announces_store {t : Token} (hs : s.book.Sound)
    (ht : s.book.names.scope? t.lexeme = some s.book.names.home) : Announces (store t) s := by
  obtain ⟨s', hstore⟩ := exists_store hs (by rw [ht]; rfl)
  exact .of_ok ⟨(), s', hstore⟩

/-- The value of an assignment to a name that has been bound. -/
theorem announces_value {name : Token} {n : Names} (h : Supplied budget 3 s) (hs : s.book.Sound)
    (hn : s.book.names = n.bind name.lexeme) :
    Announces (expressionWithin budget >>= fun _ => Compilation.store name) s := by
  refine .bind ((expressionsAnnounce budget).expression hs h) fun _ s₁ h₁ => ?_
  obtain ⟨e, -, hw₁⟩ := expressionWithin_ok h₁ hs
  refine ⟨hw₁.subset, announces_store (hw₁.sound hs) ?_⟩
  rw [hw₁.names, hn, Names.home_bind]
  exact Names.scope?_bind ..

theorem announces_assignment {name : Token} (hs : s.book.Sound) (h : Supplied budget 1 s)
    (hk : s.token.kind = .sign .assign) : Announces (assignmentWithin budget name) s := by
  unfold assignmentWithin
  refine .bind (announces_advance h) fun _ s₁ h₁ => ?_
  have hw₁ := advance_mark h₁ hk (by simp) (by simp) (by simp)
  have hs₁ := hw₁.sound hs
  have hsupplied₁ : Supplied budget 3 s₁ := (h.advances hw₁.toAdvances).mono (by simp)
  refine ⟨hw₁.subset, .read (a := s₁.book.names.binds name.lexeme) ?_ ?_⟩
  · rw [declares, AddressBook.declares_eq]
  · split
    · rename_i hb
      exact announces_value hsupplied₁ hs₁ (Names.bind_of_binds hb).symm
    · obtain ⟨s₂, hdeclare⟩ := exists_declare name s₁
      obtain ⟨hadv, hbind⟩ := declare_ok hdeclare hs₁
      refine .bind (.of_ok ⟨(), s₂, hdeclare⟩) fun _ s₂ h₂ => ?_
      obtain ⟨hadv, hbind⟩ := declare_ok h₂ hs₁
      exact ⟨hadv.subset, announces_value ((hsupplied₁.advances hadv).mono (by omega)) hbind.sound
        hbind.names⟩

theorem announces_moreArguments {s : State} (hs : s.book.Sound) (h : Supplied budget 1 s) :
    Announces (moreArgumentsWithin budget) s := by
  induction budget generalizing s with
  | zero => exact h.not_zero.elim
  | succ budget ih =>
    rw [moreArgumentsWithin]
    refine .read (currentKind_ok s) ?_
    split
    · rename_i hk
      refine .bind (announces_advance h) fun _ s₁ h₁ => ?_
      have hw₁ := advance_mark h₁ hk (by simp) (by simp) (by simp)
      have hsupplied₁ : Supplied budget 5 s₁ := (h.advances hw₁.toAdvances).pred (by simp)
      have hs₁ := hw₁.sound hs
      refine ⟨hw₁.subset, .bind ((expressionsAnnounce budget).expression hs₁
        (hsupplied₁.mono (by omega))) fun _ s₂ h₂ => ?_⟩
      obtain ⟨e, -, hw₂⟩ := expressionWithin_ok h₂ hs₁
      exact ⟨hw₂.subset,
        ih (hw₂.sound hs₁) ((hsupplied₁.advances hw₂.toAdvances).mono (by omega))⟩
    · exact .pure ()

theorem announces_arguments (hs : s.book.Sound) (h : Supplied budget 3 s) :
    Announces (argumentsWithin budget) s := by
  unfold argumentsWithin
  refine .read (currentKind_ok s) ?_
  split
  · exact .pure ()
  · refine .bind ((expressionsAnnounce budget).expression hs h) fun _ s₁ h₁ => ?_
    obtain ⟨e, -, hw₁⟩ := expressionWithin_ok h₁ hs
    exact ⟨hw₁.subset,
      announces_moreArguments (hw₁.sound hs) ((h.advances hw₁.toAdvances).mono (by omega))⟩

theorem announces_call {name : Token} (hs : s.book.Sound) (h : Supplied budget 1 s)
    (hk : s.token.kind = .sign .opening) : Announces (callWithin budget name) s := by
  unfold callWithin
  refine .read (a := s.book.entry? name.lexeme) rfl ?_
  cases hentry : s.book.entry? name.lexeme with
  | none => exact .throw (.undeclared .function name)
  | some entry =>
    refine .bind (announces_emitInt rfl 0) fun back s₁ h₁ => ?_
    obtain ⟨hback, hw₁⟩ := emitInt_ok h₁
    have hk₁ : s₁.token.kind = .sign .opening := by rw [hw₁.token_eq, hk]
    have hsupplied₁ := h.advances hw₁.toAdvances
    refine ⟨hw₁.subset, .bind (announces_advance hsupplied₁) fun _ s₂ h₂ => ?_⟩
    have hw₂' := advance_mark h₂ hk₁ (by simp) (by simp) (by simp)
    have hw₂ := hw₁.trans hw₂'
    have hsupplied₂ : Supplied budget 3 s₂ := (h.advances hw₂.toAdvances).mono (by simp)
    refine ⟨hw₂'.subset, .bind (announces_arguments (hw₂.sound hs) hsupplied₂) fun _ s₃ h₃ => ?_⟩
    obtain ⟨arguments, -, hw₃'⟩ := argumentsWithin_ok h₃ (hw₂.sound hs)
    have hw₃ := hw₂.trans hw₃'
    refine ⟨hw₃'.subset,
      .bind (announces_expectSign (h.advances hw₃.toAdvances) _) fun _ s₄ h₄ => ?_⟩
    have hw₄ := hw₃.trans (expectSign_ok h₄)
    refine ⟨(expectSign_ok h₄).subset, .bind (announces_emitInt rfl _) fun _ s₅ h₅ => ?_⟩
    have hw₅ := (hw₄.trans (emitInt_ok h₅).2).toAdvances
    have hall : Advances s s₅
        (.sign .opening :: Terminal.commaSeparated (arguments.map Expr.terminals) ++
          [.sign .closing])
        ([] ++ .of .pushReturn (some (.int 0)) ::
          (argumentsCode s₂.book.names arguments ++ [.of .call (some (.int entry))])) := by
      simpa using hw₅
    obtain ⟨s₆, hland⟩ := exists_land_since hall (by simpa using hback)
    exact ⟨(emitInt_ok h₅).2.subset, .of_ok ⟨(), s₆, hland⟩⟩

theorem announces_named (hs : s.book.Sound) (h : Supplied budget 1 s) :
    Announces (namedWithin budget) s := by
  unfold namedWithin
  refine .bind (announces_expect h _ _) fun name s₁ h₁ => ?_
  have hw₁ := expectName_ok h₁
  have hsupplied₁ : Supplied budget 1 s₁ := (h.advances hw₁.toAdvances).mono (by omega)
  refine ⟨hw₁.subset, .read (current_ok s₁) ?_⟩
  cases hk : s₁.token.kind with
  | sign x =>
    cases x with
    | assign => exact announces_assignment (hw₁.sound hs) hsupplied₁ hk
    | opening => exact announces_call (hw₁.sound hs) hsupplied₁ hk
    | _ => exact .throw (.unexpected s₁.token .assignmentOrCall)
  | _ => exact .throw (.unexpected s₁.token .assignmentOrCall)

end Simple

/-! ## Statements with blocks -/

/-- Every production of statements within this budget fails in the announced ways only. -/
structure StatementsAnnounce (budget : Nat) : Prop where
  statement : ∀ {s : State}, s.book.Sound → Supplied budget 2 s → Announces (statementWithin budget) s
  choice : ∀ {s : State}, s.book.Sound → Supplied budget 1 s → Announces (choiceWithin budget) s
  loop : ∀ {s : State}, s.book.Sound → Supplied budget 1 s → Announces (loopWithin budget) s
  block : ∀ {s : State}, s.book.Sound → Supplied budget 1 s → Announces (blockWithin budget) s
  statements : ∀ {s : State} (place : Place), s.book.Sound → Supplied budget 3 s →
    Announces (statementsWithin budget place) s
  more : ∀ {s : State} (place : Place), s.book.Sound → Supplied budget 3 s →
    Announces (moreStatementsWithin budget place) s

theorem ReadsStatement.length_pos {st : Statement} {ts : List Terminal}
    (h : ReadsStatement s s' st ts) : 0 < ts.length := by
  cases h.reading <;> simp [Statement.terminals]

namespace StatementsAnnounce

variable {budget : Nat}

theorem statement_succ (ih : StatementsAnnounce budget) (hs : s.book.Sound)
    (h : Supplied (budget + 1) 2 s) : Announces (statementWithin (budget + 1)) s := by
  rw [statementWithin]
  refine .read (currentKind_ok s) ?_
  have hsupplied : Supplied budget 1 s := h.pred (by omega)
  cases hk : s.token.kind with
  | word w =>
    cases w with
    | printWord => exact announces_printing hs hsupplied hk
    | ifWord => exact ih.choice hs hsupplied
    | whileWord => exact ih.loop hs hsupplied
    | _ => exact announces_named hs hsupplied
  | _ => exact announces_named hs hsupplied

/-- What a choice and a loop have in common, from the test up to the end of the first block. -/
theorem announces_guarded (ih : StatementsAnnounce budget) {w : Keyword} {t : Token}
    {e : Expectation} {s₁ : State} (h₁ : expect (.word w) e s = .ok t s₁) (hs : s.book.Sound)
    (h : Supplied budget 0 s) {f : Int → Action Unit}
    (hf : ∀ past s' c b ts, Guarded w past s s' c b ts → Announces (f past) s') :
    Announces (do
      conditionWithin budget
      expectSign .colon
      let past ← emitInt .jumpIfZero 0
      blockWithin budget
      f past) s₁ := by
  have hw₁ := expectWord_ok h₁
  have hs₁ := hw₁.sound hs
  have hsupplied₁ : Supplied budget 5 s₁ := (h.advances hw₁.toAdvances).mono (by simp)
  refine .bind (announces_condition hs₁ (hsupplied₁.mono (by omega))) fun _ s₂ h₂ => ?_
  obtain ⟨c, -, hw₂⟩ := conditionWithin_ok h₂ hs₁
  have hsupplied₂ := hsupplied₁.advances hw₂.toAdvances
  refine ⟨hw₂.subset, .bind (announces_expectSign hsupplied₂ _) fun _ s₃ h₃ => ?_⟩
  have hw₃ := hw₂.trans (expectSign_ok h₃)
  refine ⟨(expectSign_ok h₃).subset, .bind (announces_emitInt rfl 0) fun past s₄ h₄ => ?_⟩
  have hw₄ := hw₃.trans (emitInt_ok h₄).2
  refine ⟨(emitInt_ok h₄).2.subset, .bind (ih.block (hw₄.sound hs₁)
    ((hsupplied₁.advances hw₄.toAdvances).mono (by omega))) fun _ s₅ h₅ => ?_⟩
  obtain ⟨b, ts, hb⟩ := (statementsRead budget).block (hw₄.sound hs₁) h₅
  obtain ⟨c, b, ts, hg⟩ := (statementsRead budget).guarded_ok h₁ h₂ h₃ h₄ h₅ hs
  exact ⟨hb.advances.subset, hf past s₅ c b ts hg⟩

theorem choice_succ (ih : StatementsAnnounce budget) (hs : s.book.Sound)
    (h : Supplied (budget + 1) 1 s) : Announces (choiceWithin (budget + 1)) s := by
  rw [choiceWithin]
  have hsupplied : Supplied budget 0 s := h.pred (by omega)
  refine .bind (announces_expect hsupplied _ _) fun _ s₁ h₁ => ?_
  refine ⟨(expectWord_ok h₁).subset, ih.announces_guarded h₁ hs hsupplied ?_⟩
  intro past s₅ c yes ts hg
  refine .read (currentKind_ok s₅) ?_
  split
  · rename_i hk
    have hsupplied₅ : Supplied budget 5 s₅ := by
      refine (hsupplied.advances hg.advances).mono ?_
      simp only [List.cons_append, List.length_cons]
      omega
    refine .bind (announces_emitInt rfl 0) fun skip s₆ h₆ => ?_
    have hw₆ := (emitInt_ok h₆).2
    obtain ⟨s₇, hland⟩ := exists_land_since (hg.unlanded hw₆) hg.past
    refine ⟨hw₆.subset, .bind (.of_ok ⟨(), s₇, hland⟩) fun _ s₇ h₇ => ?_⟩
    obtain ⟨-, htokens₇, -⟩ := (hg.unlanded hw₆).land _ h₇ hg.past rfl
    have hsupplied₇ : Supplied budget 5 s₇ := hsupplied₅.of_tokens (htokens₇.trans hw₆.tokens_eq)
    have hk₇ : s₇.token.kind = .word .elseWord := by
      rw [(List.cons.inj htokens₇).1, hw₆.token_eq, hk]
    refine ⟨by rw [htokens₇]; exact List.Subset.refl _, ?_⟩
    refine .bind (announces_advance hsupplied₇) fun _ s₈ h₈ => ?_
    have hw₈ := advance_mark h₈ hk₇ (by simp) (by simp) (by simp)
    have hsupplied₈ := hsupplied₇.advances hw₈.toAdvances
    refine ⟨hw₈.subset, .bind (announces_expectSign hsupplied₈ _) fun _ s₉ h₉ => ?_⟩
    have hw₉ := expectSign_ok h₉
    obtain ⟨middle, hw⟩ := hg.switched hk h₆ h₇ h₈ h₉
    refine ⟨hw₉.subset, .bind (ih.block hw.binds.sound
      ((hsupplied₈.advances hw₉.toAdvances).mono (by omega))) fun _ s₁₀ h₁₀ => ?_⟩
    obtain ⟨no, us, hno⟩ := (statementsRead budget).block hw.binds.sound h₁₀
    obtain ⟨hall, hpast⟩ := hw.unlanded hno
    obtain ⟨s', hland⟩ := exists_land_since hall hpast
    exact ⟨hno.advances.subset, .of_ok ⟨(), s', hland⟩⟩
  · obtain ⟨s', hland⟩ := exists_land_since hg.advances hg.past
    exact .of_ok ⟨(), s', hland⟩

theorem loop_succ (ih : StatementsAnnounce budget) (hs : s.book.Sound)
    (h : Supplied (budget + 1) 1 s) : Announces (loopWithin (budget + 1)) s := by
  rw [loopWithin]
  have hsupplied : Supplied budget 0 s := h.pred (by omega)
  refine .bind (announces_expect hsupplied _ _) fun _ s₁ h₁ => ?_
  refine ⟨(expectWord_ok h₁).subset, .read (a := s₁.log.size) rfl ?_⟩
  refine ih.announces_guarded h₁ hs hsupplied ?_
  intro past s₅ c body ts hg
  refine .bind (announces_emitInt rfl _) fun _ s₆ h₆ => ?_
  have hw₆ := (emitInt_ok h₆).2
  obtain ⟨s', hland⟩ := exists_land_since (hg.unlanded hw₆) hg.past
  exact ⟨hw₆.subset, .of_ok ⟨(), s', hland⟩⟩

/-! ## Blocks -/

theorem block_succ (ih : StatementsAnnounce budget) (hs : s.book.Sound)
    (h : Supplied (budget + 1) 1 s) : Announces (blockWithin (budget + 1)) s := by
  rw [blockWithin]
  have hsupplied : Supplied budget 0 s := h.pred (by omega)
  refine .bind (announces_expect hsupplied _ _) fun _ s₁ h₁ => ?_
  obtain ⟨-, -, hw₁⟩ := expect_ok h₁ (by simp)
  exact ⟨hw₁.subset,
    ih.statements .block (hw₁.sound hs) ((hsupplied.advances hw₁.toAdvances).mono (by simp))⟩

/-- A statement and the statements after it. -/
theorem announces_sequence (ih : StatementsAnnounce budget) {place : Place} (hs : s.book.Sound)
    (h : Supplied budget 2 s) :
    Announces (statementWithin budget >>= fun _ => moreStatementsWithin budget place) s := by
  refine .bind (ih.statement hs h) fun _ s₁ h₁ => ?_
  obtain ⟨st, ts, hst⟩ := (statementsRead budget).statement hs h₁
  have hpos := hst.length_pos
  exact ⟨hst.advances.subset,
    ih.more place hst.binds.sound ((h.advances hst.advances).mono (by omega))⟩

theorem statements_succ (ih : StatementsAnnounce budget) (place : Place) (hs : s.book.Sound)
    (h : Supplied (budget + 1) 3 s) : Announces (statementsWithin (budget + 1) place) s := by
  rw [statementsWithin]
  refine .bind (announces_skipIndents h) fun _ s₁ h₁ => ?_
  obtain ⟨k, hw₁, -⟩ := skipIndents_ok h₁
  refine ⟨hw₁.subset, .read (currentKind_ok s₁) ?_⟩
  split
  · exact ih.announces_sequence (hw₁.sound hs) ((h.advances hw₁.toAdvances).pred (by omega))
  · exact .pure ()

theorem more_succ (ih : StatementsAnnounce budget) (place : Place) (hs : s.book.Sound)
    (h : Supplied (budget + 1) 3 s) : Announces (moreStatementsWithin (budget + 1) place) s := by
  rw [moreStatementsWithin]
  refine .bind (announces_goesOn h place) fun more s₁ h₁ => ?_
  obtain ⟨k, hw₁, -⟩ := goesOn_ok h₁
  refine ⟨hw₁.subset, ?_⟩
  split
  · exact ih.announces_sequence (hw₁.sound hs) ((h.advances hw₁.toAdvances).pred (by omega))
  · exact .pure ()

end StatementsAnnounce

/-- All productions of statements fail in the announced ways only. -/
theorem statementsAnnounce (budget : Nat) : StatementsAnnounce budget := by
  induction budget with
  | zero =>
    constructor
    · exact fun _ h => h.not_zero.elim
    · exact fun _ h => h.not_zero.elim
    · exact fun _ h => h.not_zero.elim
    · exact fun _ h => h.not_zero.elim
    · exact fun _ _ h => h.not_zero.elim
    · exact fun _ _ h => h.not_zero.elim
  | succ budget ih =>
    exact ⟨ih.statement_succ, ih.choice_succ, ih.loop_succ, ih.block_succ, ih.statements_succ,
      ih.more_succ⟩

end StackPrimer.Compilation

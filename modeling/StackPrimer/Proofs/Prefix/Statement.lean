import StackPrimer.Proofs.Prefix.Viable

/-!
# What stands in front of an unexpected token in statements

A statement that breaks off can be completed, and with that the blocks around it end. Statements
that have been read before it stay what they are, because what stands behind them begins the same.

Results:
* `statementsViable`: what is passed of statements in front of an unexpected token begins statements.
-/

namespace StackPrimer.Compilation

open Grammar

variable {s s' : State} {C : List Terminal → Prop} {budget : Nat}

/-! ## Statements without blocks -/

/-- What a statement at the end may be that begins with the token looked at. -/
def IsStatement (s : State) (ts : List Terminal) : Prop :=
  ∃ st : Statement, st.Reading ts [.mark .finish] ∧
    st.Scoped s.book.functionNames s.book.names ∧ ts.head? = s.terminals.head?

theorem viable_printing (hs : s.book.Sound) (hk : s.token.kind = .word .printWord) :
    Viable (printingWithin budget) s (IsStatement s) := by
  have hhead : s.terminals.head? = some (.word .printWord) :=
    congrArg some (ofToken_eq_mark hk (by simp) (by simp))
  have hstatement : ∀ e : Expression, e.Scoped s.book.names →
      IsStatement s (Statement.print e).terminals := fun e he =>
    ⟨.print e, .print e _, by simpa [Statement.Scoped] using he, hhead.symm⟩
  have hinput := hstatement .input trivial
  unfold printingWithin
  refine .advance hk (by simp) fun s₁ hw₁ => ?_
  refine .expectSign
    ⟨token (.sign .opening) "(" :: inputTokens ++ [token (.sign .closing) ")"], hinput⟩
    fun s₂ hw₂ => ?_
  have hs₂ := hw₂.sound (hw₁.sound hs)
  refine .bind (((expressionsViable budget).expression hs₂).of_imp ?_) fun _ s₃ h₃ => ?_
  · rintro us ⟨e, rfl, he⟩
    rw [(hw₁.trans hw₂).names] at he
    exact ⟨[token (.sign .closing) ")"], hstatement e he⟩
  · obtain ⟨e, he, hw₃⟩ := expressionWithin_ok h₃ hs₂
    rw [(hw₁.trans hw₂).names] at he
    refine ⟨_, hw₃.passes, .expectSign ⟨[token (.sign .closing) ")"], ?_⟩ fun s₄ _ => ?_⟩
    · simpa [Statement.terminals] using hstatement e he
    · exact (quiet_emitPlain _).viable

/-- The value that is stored to a name. -/
theorem viable_value {name : Token} (hs : s.book.Sound)
    (h : ∀ e : Expression, e.Scoped s.book.names → C e.terminals) :
    Viable (expressionWithin budget >>= fun _ => store name) s C := by
  refine .bind (((expressionsViable budget).expression hs).of_imp ?_) fun _ s₁ h₁ => ?_
  · rintro us ⟨e, rfl, he⟩
    exact .done (h e he)
  · obtain ⟨e, -, hw₁⟩ := expressionWithin_ok h₁ hs
    exact ⟨_, hw₁.passes, (quiet_store name).viable⟩

theorem viable_assignment {name : Token} (hs : s.book.Sound) (hk : s.token.kind = .sign .assign)
    (h : ∀ e : Expression, e.Scoped (s.book.names.bind name.lexeme) →
      C (.sign .assign :: e.terminals)) :
    Viable (assignmentWithin budget name) s C := by
  unfold assignmentWithin
  refine .advance hk (by simp) fun s₁ hw₁ => ?_
  have hs₁ := hw₁.sound hs
  rw [← hw₁.names] at h
  refine .read (a := s₁.book.names.binds name.lexeme) ?_ ?_
  · rw [declares, AddressBook.declares_eq]
  · split
    · rename_i hb
      rw [Names.bind_of_binds hb] at h
      exact viable_value hs₁ h
    · refine .stay (quiet_declare name) fun _ s₂ h₂ => ?_
      obtain ⟨hadv, hbind⟩ := declare_ok h₂ hs₁
      rw [← hbind.names] at h
      exact ⟨hadv.tokens_eq, viable_value hbind.sound h⟩

/-- What arguments after the first may be. -/
def IsMoreArguments (n : Names) (ts : List Terminal) : Prop :=
  ∃ rest : List Expression, (rest.flatMap fun e => .sign .comma :: e.terminals) = ts ∧
    ∀ e ∈ rest, e.Scoped n

/-- What arguments may be. -/
def IsArguments (n : Names) (ts : List Terminal) : Prop :=
  ∃ arguments : List Expression, Terminal.commaSeparated (arguments.map Expr.terminals) = ts ∧
    ∀ e ∈ arguments, e.Scoped n

theorem viable_moreArguments {s : State} (hs : s.book.Sound) :
    Viable (moreArgumentsWithin budget) s (IsMoreArguments s.book.names) := by
  induction budget generalizing s with
  | zero => exact fun _ _ _ h => by cases h
  | succ budget ih =>
    rw [moreArgumentsWithin]
    refine .read (currentKind_ok s) ?_
    split
    · rename_i hk
      refine .advance hk (by simp) fun s₁ hw₁ => ?_
      have hs₁ := hw₁.sound hs
      refine .bind (((expressionsViable budget).expression hs₁).of_imp ?_) fun _ s₂ h₂ => ?_
      · rintro us ⟨e, rfl, he⟩
        rw [hw₁.names] at he
        exact .done ⟨[e], by simp, by simpa using he⟩
      · obtain ⟨e, he, hw₂⟩ := expressionWithin_ok h₂ hs₁
        have hmore := ih (hw₂.sound hs₁)
        rw [hw₂.names] at hmore
        rw [hw₁.names] at he hmore
        refine ⟨_, hw₂.passes, hmore.of_imp ?_⟩
        rintro us ⟨rest, rfl, hrest⟩
        exact .done ⟨e :: rest, by simp, by simpa using ⟨he, hrest⟩⟩
    · exact (Quiet.pure ()).viable

theorem viable_arguments (hs : s.book.Sound) :
    Viable (argumentsWithin budget) s (IsArguments s.book.names) := by
  unfold argumentsWithin
  refine .read (currentKind_ok s) ?_
  split
  · exact (Quiet.pure ()).viable
  · refine .bind (((expressionsViable budget).expression hs).of_imp ?_) fun _ s₁ h₁ => ?_
    · rintro us ⟨e, rfl, he⟩
      exact .done ⟨[e], by simp [Terminal.commaSeparated], by simpa using he⟩
    · obtain ⟨e, he, hw₁⟩ := expressionWithin_ok h₁ hs
      have hmore : Viable (moreArgumentsWithin budget) s₁ (IsMoreArguments s₁.book.names) :=
        viable_moreArguments (hw₁.sound hs)
      rw [hw₁.names] at hmore
      refine ⟨_, hw₁.passes, hmore.of_imp ?_⟩
      rintro us ⟨rest, rfl, hrest⟩
      exact .done ⟨e :: rest, by simp [Terminal.commaSeparated, List.flatMap_map],
        by simpa using ⟨he, hrest⟩⟩

theorem viable_call {name : Token} (hs : s.book.Sound) (hk : s.token.kind = .sign .opening)
    (h : ∀ arguments : List Expression, name.lexeme ∈ s.book.functionNames →
      (∀ e ∈ arguments, e.Scoped s.book.names) →
      C (.sign .opening :: Terminal.commaSeparated (arguments.map Expr.terminals) ++
        [.sign .closing])) :
    Viable (callWithin budget name) s C := by
  unfold callWithin
  refine .read (a := s.book.entry? name.lexeme) rfl ?_
  cases hentry : s.book.entry? name.lexeme with
  | none => exact fun _ _ _ h => by cases h
  | some entry =>
    have hf := AddressBook.mem_functionNames hentry
    refine .emitInt fun back s₁ h₁ => ?_
    have hw₁ := (emitInt_ok h₁).2
    have hk₁ : s₁.token.kind = .sign .opening := by rw [hw₁.token_eq, hk]
    refine .advance hk₁ (by simp) fun s₂ hw₂ => ?_
    have hs₂ := (hw₁.trans hw₂).sound hs
    refine .bind ((viable_arguments hs₂).of_imp ?_) fun _ s₃ h₃ => ?_
    · rintro us ⟨arguments, rfl, harguments⟩
      rw [(hw₁.trans hw₂).names] at harguments
      exact ⟨[token (.sign .closing) ")"], h arguments hf harguments⟩
    · obtain ⟨arguments, harguments, hw₃⟩ := argumentsWithin_ok h₃ hs₂
      rw [(hw₁.trans hw₂).names] at harguments
      refine ⟨_, hw₃.passes, .expectSign ⟨[token (.sign .closing) ")"], ?_⟩ fun s₄ _ => ?_⟩
      · simpa using h arguments hf harguments
      · exact ((quiet_emitInt _ _).bind fun _ => quiet_land back).viable

theorem viable_expect_of_kind {k : Kind} {e : Expectation} (hk : s.token.kind = k) :
    Viable (expect k e) s C := by
  intro t e' s' he
  unfold expect at he
  rw [bind_of_ok (current_ok s), if_pos hk] at he
  exact absurd he ((quiet_advance.bind fun _ => .pure _) s t e' s')

/-- A name, and what follows it. -/
theorem Viable.name {α : Type} {e : Expectation} {f : Token → Action α} (hk : s.token.kind = .name)
    (hf : ∀ s₁, Writes s s₁ [.name s.token.lexeme] [] →
      Viable (f s.token) s₁ fun us => C (.name s.token.lexeme :: us)) :
    Viable (expect .name e >>= f) s C := by
  refine .bind (viable_expect_of_kind hk) fun name s₁ h₁ => ?_
  obtain ⟨rfl, -, -⟩ := expect_ok h₁ (by simp)
  exact ⟨_, (expectName_ok h₁).passes, hf s₁ (expectName_ok h₁)⟩

theorem viable_named (hs : s.book.Sound) (hk : s.token.kind = .name) :
    Viable (namedWithin budget) s (IsStatement s) := by
  have hhead : s.terminals.head? = some (.name s.token.lexeme) :=
    congrArg some (ofToken_eq_name hk)
  unfold namedWithin
  refine .name hk fun s₁ hw₁ => ?_
  have hs₁ := hw₁.sound hs
  have hassign : ∀ e : Expression, e.Scoped (s₁.book.names.bind s.token.lexeme) →
      IsStatement s (.name s.token.lexeme :: .sign .assign :: e.terminals) := by
    intro e he
    rw [hw₁.names] at he
    exact ⟨.assign s.token.lexeme e, .assign .., he, hhead.symm⟩
  have hthrow : Viable (throw (.unexpected s₁.token .assignmentOrCall) : Action Unit) s₁
      fun us => IsStatement s (.name s.token.lexeme :: us) :=
    .throw _ ⟨token (.sign .assign) "=" :: inputTokens, hassign .input trivial⟩
  refine .read (current_ok s₁) ?_
  cases hk₁ : s₁.token.kind with
  | sign x =>
    cases x with
    | assign => exact viable_assignment hs₁ hk₁ hassign
    | opening =>
      refine viable_call hs₁ hk₁ fun arguments hf harguments => ?_
      rw [hw₁.book] at hf harguments
      exact ⟨.call s.token.lexeme arguments, .call .., ⟨hf, harguments⟩, hhead.symm⟩
    | _ => exact hthrow
  | _ => exact hthrow

/-! ## Statements with blocks -/

/-- What a block at the end may be. -/
def IsBlock (functions : List String) (n : Names) (ts : List Terminal) : Prop :=
  ∃ (b : Block) (us : List Terminal), ts = .indent :: us ∧
    b.Reading .block (.indent :: us) [.mark .finish] ∧ b.Scoped functions n

/-- What statements at the end may be, with `j` indentations passed before, that begin with the token
looked at. -/
def IsSequence (place : Place) (j : Nat) (s : State) (ts : List Terminal) : Prop :=
  ∃ b : Block, b.Reading place (indents j ++ ts) [.mark .finish] ∧
    b.Scoped s.book.functionNames s.book.names ∧ ts.head? = s.terminals.head?

/-- Indentation that has been passed stands in front. -/
theorem IsSequence.indented {place : Place} {j k : Nat} {ts : List Terminal}
    (h : IsSequence place (j + k) s' ts) (hw : Writes s s' (indents k) []) :
    IsSequence place j s (indents k ++ ts) := by
  obtain ⟨b, hreading, hscoped, hhead⟩ := h
  rw [hw.book] at hscoped
  refine ⟨b, ?_, hscoped, ?_⟩
  · rwa [← List.append_assoc, ← indents_add]
  · rw [hw.terminals, List.head?_append, hhead, List.head?_append]

theorem follows_of_head? {ts : List Terminal} (h : ts.head? = s.terminals.head?)
    (us : List Terminal) : Follows (ts ++ us) s.terminals := by
  cases ts with
  | nil => cases h
  | cons t ts => exact .inl h

theorem quiet_goesOn (place : Place) : Quiet (goesOn place) := by
  unfold goesOn
  refine Quiet.bind (fun s t e s' h => by cases h) fun k => ?_
  split
  · exact .pure false
  · exact quiet_skipIndents.bind fun _ => Quiet.bind (fun s t e s' h => by cases h) fun k => .pure _

/-- The token of one indentation. -/
def indentToken : Token := token .indent "  "

@[simp] theorem ofToken_indentToken : Terminal.ofToken indentToken = .indent := rfl

/-- A block without statements is a block. -/
theorem begins_block (functions : List String) (n : Names) : Begins (IsBlock functions n) [] :=
  ⟨[indentToken], .nil, [], rfl, .nil (k := 1) (by simp) fun _ => rfl, trivial⟩

/-- What every production of statements within this budget passes can be completed. -/
structure StatementsViable (budget : Nat) : Prop where
  statement : ∀ {s : State}, s.book.Sound → s.token.kind.startsStatement = true →
    Viable (statementWithin budget) s (IsStatement s)
  choice : ∀ {s : State}, s.book.Sound → s.token.kind = .word .ifWord →
    Viable (choiceWithin budget) s (IsStatement s)
  loop : ∀ {s : State}, s.book.Sound → s.token.kind = .word .whileWord →
    Viable (loopWithin budget) s (IsStatement s)
  block : ∀ {s : State}, s.book.Sound →
    Viable (blockWithin budget) s (IsBlock s.book.functionNames s.book.names)
  statements : ∀ {s : State} (place : Place) (j : Nat), s.book.Sound →
    (place = .block → 0 < j) → Viable (statementsWithin budget place) s (IsSequence place j s)
  more : ∀ {s : State} (place : Place), s.book.Sound →
    Viable (moreStatementsWithin budget place) s (IsSequence place 0 s)

namespace StatementsViable

theorem statement_succ (ih : StatementsViable budget) (hs : s.book.Sound)
    (hstarts : s.token.kind.startsStatement = true) :
    Viable (statementWithin (budget + 1)) s (IsStatement s) := by
  rw [statementWithin]
  refine .read (currentKind_ok s) ?_
  cases hk : s.token.kind with
  | name => exact viable_named hs hk
  | word w =>
    rw [hk] at hstarts
    cases w with
    | printWord => exact viable_printing hs hk
    | ifWord => exact ih.choice hs hk
    | whileWord => exact ih.loop hs hk
    | _ => cases hstarts
  | _ =>
    rw [hk] at hstarts
    cases hstarts

/-- What a choice and a loop have in common, from the test up to the end of the first block. -/
theorem viable_guarded (ih : StatementsViable budget) {w : Keyword} {t : Token} {e : Expectation}
    {s₁ : State} (h₁ : expect (.word w) e s = .ok t s₁) (hs : s.book.Sound)
    {f : Int → Action Unit}
    (hwhole : ∀ (c : Condition) (b : Block) (us : List Terminal), c.Scoped s.book.names →
      b.Reading .block (.indent :: us) [.mark .finish] →
      b.Scoped s.book.functionNames s.book.names →
      C (.word w :: c.terminals ++ .sign .colon :: .indent :: us))
    (hf : ∀ past s' c b ts, Guarded w past s s' c b ts →
      Viable (f past) s' fun us =>
        C (.word w :: c.terminals ++ .sign .colon :: .indent :: ts ++ us)) :
    Viable (do
      conditionWithin budget
      expectSign .colon
      let past ← emitInt .jumpIfZero 0
      blockWithin budget
      f past) s₁ fun us => C (.word w :: us) := by
  have hw₁ := expectWord_ok h₁
  have hs₁ := hw₁.sound hs
  -- whatever the condition is, a block without statements completes it
  have hbare : ∀ c : Condition, c.Scoped s.book.names →
      C (.word w :: c.terminals ++ [.sign .colon, .indent]) := fun c hc =>
    hwhole c .nil [] hc (.nil (k := 1) (by simp) fun _ => rfl) trivial
  refine .bind ((viable_condition hs₁).of_imp ?_) fun _ s₂ h₂ => ?_
  · rintro us ⟨c, rfl, hc⟩
    rw [hw₁.names] at hc
    exact ⟨[token (.sign .colon) ":", indentToken], hbare c hc⟩
  obtain ⟨c, hc, hw₂⟩ := conditionWithin_ok h₂ hs₁
  rw [hw₁.names] at hc
  refine ⟨_, hw₂.passes, .bind (viable_expectSign ?_) fun _ s₃ h₃ => ?_⟩
  · exact ⟨[token (.sign .colon) ":", indentToken], by simpa using hbare c hc⟩
  have hw₃ := expectSign_ok h₃
  refine ⟨_, hw₃.passes, .emitInt fun past s₄ h₄ => ?_⟩
  have hw₄ := ((hw₁.trans hw₂).trans hw₃).trans (emitInt_ok h₄).2
  have hs₄ := hw₄.sound hs
  have hblock := ih.block hs₄
  rw [hw₄.book] at hblock
  refine .bind (hblock.of_imp ?_) fun _ s₅ h₅ => ?_
  · rintro us ⟨b, us, rfl, hreading, hscoped⟩
    exact .done (by simpa using hwhole c b us hc hreading hscoped)
  obtain ⟨b, ts, hb⟩ := (statementsRead budget).block hs₄ h₅
  have hg := Guarded.of_parts hw₁ ⟨by rw [hw₁.names]; exact hc, hw₂⟩ hw₃ h₄ hb hs
  refine ⟨_, hb.advances.passes, (hf past s₅ c b ts hg).of_imp fun us hus => .done ?_⟩
  simpa using hus

theorem choice_succ (ih : StatementsViable budget) (hs : s.book.Sound)
    (hk : s.token.kind = .word .ifWord) :
    Viable (choiceWithin (budget + 1)) s (IsStatement s) := by
  have hhead : s.terminals.head? = some (.word .ifWord) :=
    congrArg some (ofToken_eq_mark hk (by simp) (by simp))
  rw [choiceWithin]
  refine .bind (viable_expect_of_kind hk) fun _ s₁ h₁ => ?_
  refine ⟨_, (expectWord_ok h₁).passes, ih.viable_guarded h₁ hs ?_ ?_⟩
  · intro c yes us hc hreading hscoped
    exact ⟨.choice c yes, .choice hreading (by simp), ⟨hc, hscoped⟩, hhead.symm⟩
  intro past s₅ c yes ts hg
  refine .read (currentKind_ok s₅) ?_
  split
  · rename_i hk₅
    -- the first block ends in front of the same `else`, whatever comes behind that
    have hwhole : ∀ (no : Block) (us : List Terminal),
        no.Reading .block (.indent :: us) [.mark .finish] →
        no.Scoped s.book.functionNames (yes.names s.book.names) →
        IsStatement s (.word .ifWord :: c.terminals ++ .sign .colon :: .indent :: ts ++
          .word .elseWord :: .sign .colon :: .indent :: us) := by
      intro no us hreading hscoped
      have hyes : yes.Reading .block (.indent :: ts)
          (.word .elseWord :: .sign .colon :: .indent :: us ++ [.mark .finish]) :=
        hg.reading.of_follows (.inl (congrArg some (ofToken_eq_mark hk₅ (by simp) (by simp)).symm))
      exact ⟨.alternative c yes no, .alternative hyes hreading, ⟨hg.test, hg.wellScoped, hscoped⟩,
        hhead.symm⟩
    have hbare := hwhole .nil [] (.nil (k := 1) (by simp) fun _ => rfl) trivial
    refine .emitInt fun skip s₆ h₆ => ?_
    have hw₆ := (emitInt_ok h₆).2
    refine .stay (quiet_land past) fun _ s₇ h₇ => ?_
    obtain ⟨-, htokens₇, hbook₇⟩ := (hg.unlanded hw₆).land _ h₇ hg.past rfl
    have hk₇ : s₇.token.kind = .word .elseWord := by
      rw [(List.cons.inj htokens₇).1, hw₆.token_eq, hk₅]
    refine ⟨htokens₇, .advance hk₇ (by simp) fun s₈ hw₈ => ?_⟩
    refine .expectSign ⟨[token (.sign .colon) ":", indentToken], by simpa using hbare⟩
      fun s₉ hw₉ => ?_
    have hbook₉ : s₉.book = s₅.book := by rw [hw₉.book, hw₈.book, hbook₇, hw₆.book]
    have hs₉ : s₉.book.Sound := by
      rw [hbook₉]
      exact hg.binds.sound
    have hblock := ih.block hs₉
    rw [hbook₉, hg.binds.functionNames, hg.binds.names] at hblock
    refine .bind (hblock.of_imp ?_) fun _ s₁₀ h₁₀ => ?_
    · rintro us ⟨no, us, rfl, hreading, hscoped⟩
      exact .done (by simpa using hwhole no us hreading hscoped)
    · obtain ⟨no, us, hno⟩ := (statementsRead budget).block hs₉ h₁₀
      exact ⟨_, hno.advances.passes, (quiet_land skip).viable⟩
  · exact (quiet_land past).viable

theorem loop_succ (ih : StatementsViable budget) (hs : s.book.Sound)
    (hk : s.token.kind = .word .whileWord) :
    Viable (loopWithin (budget + 1)) s (IsStatement s) := by
  have hhead : s.terminals.head? = some (.word .whileWord) :=
    congrArg some (ofToken_eq_mark hk (by simp) (by simp))
  rw [loopWithin]
  refine .bind (viable_expect_of_kind hk) fun _ s₁ h₁ => ?_
  refine ⟨_, (expectWord_ok h₁).passes, .read (a := s₁.log.size) rfl ?_⟩
  refine ih.viable_guarded h₁ hs ?_ ?_
  · intro c body us hc hreading hscoped
    exact ⟨.loop c body, .loop hreading, ⟨hc, hscoped⟩, hhead.symm⟩
  · intro past s₅ c body ts hg
    exact ((quiet_emitInt _ _).bind fun _ => quiet_land past).viable

/-! ## Blocks -/

theorem block_succ (ih : StatementsViable budget) (hs : s.book.Sound) :
    Viable (blockWithin (budget + 1)) s (IsBlock s.book.functionNames s.book.names) := by
  rw [blockWithin]
  refine .bind (viable_expect (begins_block _ _)) fun _ s₁ h₁ => ?_
  obtain ⟨-, hk, hw₁⟩ := expect_ok h₁ (by simp)
  rw [ofToken_eq_mark hk (by simp) (by simp)] at hw₁
  refine ⟨_, hw₁.passes, (ih.statements .block 1 (hw₁.sound hs) (by simp)).of_imp ?_⟩
  rintro us ⟨b, hreading, hscoped, -⟩
  rw [hw₁.book] at hscoped
  exact .done ⟨b, us, rfl, hreading, hscoped⟩

/-- A statement and the statements after it, with `j` indentations passed before. -/
theorem viable_sequence (ih : StatementsViable budget) {place : Place} {j : Nat}
    (hs : s.book.Sound) (hblock : place = .block → 0 < j)
    (hstarts : s.token.kind.startsStatement = true) :
    Viable (statementWithin budget >>= fun _ => moreStatementsWithin budget place) s
      (IsSequence place j s) := by
  refine .bind ((ih.statement hs hstarts).of_imp ?_) fun _ s₁ h₁ => ?_
  · rintro us ⟨st, hreading, hscoped, hhead⟩
    have hnil : Block.Reading place .nil [] [.mark .finish] :=
      .nil (k := 0) (by simp) fun _ => rfl
    refine .done ⟨.cons st .nil, ?_, ⟨hscoped, trivial⟩, hhead⟩
    simpa using Block.Reading.cons hblock hreading hnil
  · obtain ⟨st, ts, hst⟩ := (statementsRead budget).statement hs h₁
    refine ⟨ts, hst.advances.passes, (ih.more place hst.binds.sound).of_imp ?_⟩
    rintro us ⟨rest, hrest, hscoped, hhead⟩
    rw [hst.binds.functionNames, hst.binds.names] at hscoped
    have hreading : st.Reading ts (us ++ [.mark .finish]) :=
      hst.reading.of_follows (follows_of_head? hhead _)
    refine .done ⟨.cons st rest, ?_, ⟨hst.wellScoped, hscoped⟩, ?_⟩
    · rw [indents_zero, List.nil_append] at hrest
      simpa using Block.Reading.cons hblock hreading hrest
    · rw [hst.advances.terminals, List.head?_append, hhead, List.head?_append]

theorem statements_succ (ih : StatementsViable budget) (place : Place) (j : Nat)
    (hs : s.book.Sound) (hblock : place = .block → 0 < j) :
    Viable (statementsWithin (budget + 1) place) s (IsSequence place j s) := by
  rw [statementsWithin]
  refine .bind quiet_skipIndents.viable fun _ s₁ h₁ => ?_
  obtain ⟨k, hw₁, -⟩ := skipIndents_ok h₁
  refine ⟨_, hw₁.passes, .read (currentKind_ok s₁) ?_⟩
  split
  · rename_i hstarts
    exact (ih.viable_sequence (hw₁.sound hs) (fun hplace => Nat.add_pos_left (hblock hplace) k)
      hstarts).of_imp fun us hus => .done (hus.indented hw₁)
  · exact (Quiet.pure ()).viable

theorem more_succ (ih : StatementsViable budget) (place : Place) (hs : s.book.Sound) :
    Viable (moreStatementsWithin (budget + 1) place) s (IsSequence place 0 s) := by
  rw [moreStatementsWithin]
  refine .bind (quiet_goesOn place).viable fun more s₁ h₁ => ?_
  obtain ⟨k, hw₁, -, hstarts, hblock⟩ := goesOn_ok h₁
  refine ⟨_, hw₁.passes, ?_⟩
  split
  · rename_i hmore
    subst hmore
    have hplace : place = .topLevel ∨ 0 < k := by
      cases place with
      | topLevel => exact .inl rfl
      | block => exact .inr (hblock rfl rfl)
    have hpos : place = .block → 0 < 0 + k := by simpa using hblock rfl
    exact (ih.viable_sequence (hw₁.sound hs) hpos (hstarts hplace)).of_imp
      fun us hus => .done (hus.indented hw₁)
  · exact (Quiet.pure ()).viable

end StatementsViable

/-- What is passed of statements in front of an unexpected token begins statements. -/
theorem statementsViable (budget : Nat) : StatementsViable budget := by
  induction budget with
  | zero =>
    have hout : ∀ {s : State} {C : List Terminal → Prop},
        Viable (throw .outOfTokens : Action Unit) s C := fun _ _ _ h => by cases h
    exact ⟨fun _ _ => hout, fun _ _ => hout, fun _ _ => hout, fun _ => hout, fun _ _ _ _ => hout,
      fun _ _ => hout⟩
  | succ budget ih =>
    exact ⟨ih.statement_succ, ih.choice_succ, ih.loop_succ, ih.block_succ, ih.statements_succ,
      ih.more_succ⟩

end StackPrimer.Compilation

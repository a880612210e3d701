import StackPrimer.Proofs.Failure.Statement
import StackPrimer.Proofs.OnePass.Program

/-!
# How programs fail

Functions are declared outside of functions only, so that the address book lets each of them begin
and end. Declaring a function that there is already is the one thing that it refuses.

Results:
* `run_error`: a stream that has an end fails in the announced ways only.
-/

namespace StackPrimer.Compilation

open Grammar

variable {s s' : State} {budget reserve : Nat}

/-! ## Declarations of variables -/

theorem announces_variableDeclaration (hs : s.book.Sound) (h : Supplied budget 0 s) :
    Announces (variableDeclarationWithin budget) s := by
  unfold variableDeclarationWithin
  refine .bind (announces_expect h _ _) fun name s₁ h₁ => ?_
  have hw₁ := expectName_ok h₁
  refine ⟨hw₁.subset, .read (currentKind_ok s₁) ?_⟩
  split
  · refine .bind (.throw (.undeclared .function name)) fun _ s₂ h₂ => ?_
    exact absurd h₂ throw_ne_ok
  · obtain ⟨s₂, hdeclare⟩ := exists_declare name s₁
    refine .bind (.of_ok ⟨(), s₂, hdeclare⟩) fun _ s₂ h₂ => ?_
    obtain ⟨hadv₂, hbind₂⟩ := declare_ok h₂ (hw₁.sound hs)
    have hsupplied₂ := (h.advances hw₁.toAdvances).advances hadv₂
    refine ⟨hadv₂.subset, .bind (announces_expectSign hsupplied₂ _) fun _ s₃ h₃ => ?_⟩
    have hw₃ := expectSign_ok h₃
    have hbind₃ := hbind₂.writes hw₃
    exact ⟨hw₃.subset, announces_value ((hsupplied₂.advances hw₃.toAdvances).mono (by simp))
      hbind₃.sound hbind₃.names⟩

/-! ## Parameters -/

theorem announces_addVariable (t : Token) : Announces (addVariable t) s := .of_ok ⟨_, _, rfl⟩

theorem announces_moreParameters {s : State} {before : List Int} (hs : s.book.Sound)
    (h : Supplied budget 1 s) : Announces (moreParametersWithin budget before) s := by
  induction budget generalizing s before with
  | zero => exact h.not_zero.elim
  | succ budget ih =>
    rw [moreParametersWithin]
    refine .read (currentKind_ok s) ?_
    split
    · rename_i hk
      refine .bind (announces_advance h) fun _ s₁ h₁ => ?_
      have hw₁ := advance_mark h₁ hk (by simp) (by simp) (by simp)
      have hsupplied₁ : Supplied budget 5 s₁ := (h.advances hw₁.toAdvances).pred (by simp)
      refine ⟨hw₁.subset, .bind (announces_expect hsupplied₁ _ _) fun name s₂ h₂ => ?_⟩
      have hw₂ := expectName_ok h₂
      refine ⟨hw₂.subset, .bind (announces_addVariable name) fun address s₃ h₃ => ?_⟩
      obtain ⟨hadv₃, hadd⟩ := addVariable_ok h₃ (hw₂.sound (hw₁.sound hs))
      exact ⟨hadv₃.subset,
        ih hadd.sound (((hsupplied₁.advances hw₂.toAdvances).advances hadv₃).mono (by omega))⟩
    · exact .pure before

theorem announces_parameters (hs : s.book.Sound) (h : Supplied budget 0 s) :
    Announces (parametersWithin budget) s := by
  unfold parametersWithin
  refine .read (currentKind_ok s) ?_
  split
  · refine .bind (announces_expect h _ _) fun name s₁ h₁ => ?_
    have hw₁ := expectName_ok h₁
    refine ⟨hw₁.subset, .bind (announces_addVariable name) fun address s₂ h₂ => ?_⟩
    obtain ⟨hadv₂, hadd⟩ := addVariable_ok h₂ (hw₁.sound hs)
    exact ⟨hadv₂.subset, announces_moreParameters hadd.sound
      (((h.advances hw₁.toAdvances).advances hadv₂).mono (by simp))⟩
  · exact .pure []

/-! ## Declarations of functions -/

/-- The book refuses to declare a function only if there is one of that name. -/
theorem announces_addFunction (t : Token) : Announces (addFunction t) s := by
  by_cases ht : t.lexeme ∈ s.book.functionNames
  · intro e s' he
    unfold addFunction AddressBook.addFunction Layer.mount at he
    rw [Layer.contains_eq,
      decide_eq_true (show (Mention.ofToken t).text ∈ s.book.functions.names from ht)] at he
    cases he
    exact .redefined t
  · obtain ⟨s', hadd⟩ := exists_addFunction ht
    exact .of_ok ⟨(), s', hadd⟩

/-- The parameters and the block of a function. -/
theorem announces_body {f : Action Unit} (hs : s.book.Sound) (hhome : s.book.names.home = .function)
    (h : Supplied budget 0 s)
    (hf : ∀ s' parameters body ts, ReadsBody s s' parameters body ts → Announces f s') :
    Announces (do
      emitPlain .enter
      expectSign .opening
      let addresses ← parametersWithin budget
      expectSign .closing
      expectSign .colon
      storeAll addresses
      blockWithin budget
      f) s := by
  refine .bind (announces_emitPlain rfl) fun _ s₁ h₁ => ?_
  have hw₁ := emitPlain_ok h₁
  have hsupplied₁ := h.advances hw₁.toAdvances
  refine ⟨hw₁.subset, .bind (announces_expectSign hsupplied₁ _) fun _ s₂ h₂ => ?_⟩
  have hw₂ := hw₁.trans (expectSign_ok h₂)
  have hs₂ := hw₂.sound hs
  have hsupplied₂ : Supplied budget 1 s₂ := (h.advances hw₂.toAdvances).mono (by simp)
  refine ⟨(expectSign_ok h₂).subset,
    .bind (announces_parameters hs₂ (hsupplied₂.mono (by omega))) fun addresses s₃ h₃ => ?_⟩
  obtain ⟨parameters, hparameters⟩ := parametersWithin_ok h₃ hs₂
  have hsupplied₃ := hsupplied₂.advances hparameters.advances
  refine ⟨hparameters.advances.subset, .bind (announces_expectSign hsupplied₃ _) fun _ s₄ h₄ => ?_⟩
  have hw₄ := expectSign_ok h₄
  have hsupplied₄ := hsupplied₃.advances hw₄.toAdvances
  refine ⟨hw₄.subset, .bind (announces_expectSign hsupplied₄ _) fun _ s₅ h₅ => ?_⟩
  have hw₅ := expectSign_ok h₅
  obtain ⟨s₆, hstores⟩ := exists_storeAll addresses s₅
  refine ⟨hw₅.subset, .bind (.of_ok ⟨(), s₆, hstores⟩) fun _ s₆ h₆ => ?_⟩
  have hw₆ := storeAll_ok h₆
  have hsupplied₆ := (hsupplied₄.advances hw₅.toAdvances).advances hw₆.toAdvances
  have hs₆ := hw₆.sound (hw₅.sound (hw₄.sound hparameters.binds.sound))
  refine ⟨hw₆.subset, .bind ((statementsAnnounce budget).block hs₆ (hsupplied₆.mono (by omega)))
    fun _ s₇ h₇ => ?_⟩
  obtain ⟨b, us, hb⟩ := (statementsRead budget).block hs₆ h₇
  obtain ⟨parameters, body, ts, hbody⟩ := body_ok h₁ h₂ h₃ h₄ h₅ h₆ h₇ hs hhome
  exact ⟨hb.advances.subset, hf s₇ parameters body ts hbody⟩

theorem announces_functionDeclaration (hs : s.book.Sound) (hhome : s.book.names.home = .global)
    (h : Supplied budget 0 s) : Announces (functionDeclarationWithin budget) s := by
  unfold functionDeclarationWithin
  refine .bind (announces_expect h _ _) fun _ s₁ h₁ => ?_
  have hw₁ := expectWord_ok h₁
  have hsupplied₁ := h.advances hw₁.toAdvances
  refine ⟨hw₁.subset, .bind (announces_expect hsupplied₁ _ _) fun name s₂ h₂ => ?_⟩
  have hw₂ := expectName_ok h₂
  refine ⟨hw₂.subset, .bind (announces_emitInt rfl 0) fun guard s₃ h₃ => ?_⟩
  obtain ⟨hguard, hw₃⟩ := emitInt_ok h₃
  have hw := (hw₁.trans hw₂).trans hw₃
  refine ⟨hw₃.subset, .bind (announces_addFunction name) fun _ s₄ h₄ => ?_⟩
  have hhome₃ : s₃.book.names.home = .global := by rw [hw.names, hhome]
  obtain ⟨-, hadv₄, hnames₄, -, -, hsound₄⟩ := addFunction_ok h₄ (hw.sound hs)
  obtain ⟨s₅, henter⟩ := exists_enterFunction (hnames₄ ▸ hhome₃)
  refine ⟨hadv₄.subset, .bind (.of_ok ⟨(), s₅, henter⟩) fun _ s₅ h₅ => ?_⟩
  obtain ⟨-, hadv₅, hbind₅⟩ := enterFunction_ok h₅ hsound₄
  have hopen := (hw₃.toAdvances.trans hadv₄).trans hadv₅
  have hsupplied₅ : Supplied budget 0 s₅ :=
    (((hsupplied₁.advances hw₂.toAdvances).advances hopen).mono (by omega))
  have hhome₅ : s₅.book.names.home = .function := by
    rw [hbind₅.names]
    rfl
  refine ⟨hadv₅.subset, announces_body hbind₅.sound hhome₅ hsupplied₅ ?_⟩
  intro s₆ parameters body ts hb
  have hhome₆ : s₆.book.names.home = .function := by
    rw [hb.binds.names, ← (Block.le_names ..).home, Names.home_foldl_bind, hhome₅]
  obtain ⟨s₇, hexit⟩ := exists_exitFunction hhome₆
  refine .bind (.of_ok ⟨(), s₇, hexit⟩) fun _ s₇ h₇ => ?_
  obtain ⟨hadv₇, -⟩ := exitFunction_ok h₇ hb.binds.sound
  refine ⟨hadv₇.subset, .bind (announces_emitPlain rfl) fun _ s₈ h₈ => ?_⟩
  have hw₈ := emitPlain_ok h₈
  have hall : Advances s₂ s₈ _ ([] ++ .of .jump (some (.int 0)) :: _) :=
    (hopen.trans hb.advances).trans (hadv₇.trans hw₈.toAdvances)
  obtain ⟨s', hland⟩ := exists_land_since hall (by simpa using hguard)
  exact ⟨hw₈.subset, .of_ok ⟨(), s', hland⟩⟩

/-! ## Programs -/

theorem announces_declarations {s : State} (hs : s.book.Sound)
    (hhome : s.book.names.home = .global) (h : Supplied budget 1 s) :
    Announces (declarationsWithin budget) s := by
  induction budget generalizing s with
  | zero => exact h.not_zero.elim
  | succ budget ih =>
    rw [declarationsWithin]
    refine .read (current_ok s) ?_
    have hsupplied : Supplied budget 0 s := h.pred (by omega)
    -- the declarations after a first one
    have hrest : ∀ {s₁ d ts}, ReadsDeclaration s s₁ d ts →
        s₁.tokens ⊆ s.tokens ∧ Announces (declarationsWithin budget) s₁ := by
      intro s₁ d ts hd
      have hpos := hd.length_pos
      exact ⟨hd.advances.subset, ih hd.sound (by rw [hd.home, hhome])
        ((hsupplied.advances hd.advances).mono (by omega))⟩
    cases hk : s.token.kind with
    | name =>
      refine .read (a := s.book.entry? s.token.lexeme) rfl ?_
      split
      · rename_i hnew
        refine .bind (announces_variableDeclaration hs hsupplied) fun _ s₁ h₁ => ?_
        obtain ⟨d, ts, hd⟩ := variableDeclarationWithin_ok h₁ hnew hs
        exact hrest hd
      · exact .pure ()
    | word w =>
      by_cases hw : w = .defWord
      · subst hw
        refine .bind (announces_functionDeclaration hs hhome hsupplied) fun _ s₁ h₁ => ?_
        obtain ⟨d, ts, hd⟩ := functionDeclarationWithin_ok h₁ hs
        exact hrest hd
      · cases w <;> first | exact absurd rfl hw | exact .pure ()
    | _ => exact .pure ()

theorem announces_program {s : State} (hs : s.book.Sound) (hhome : s.book.names.home = .global)
    (h : Supplied budget 3 s) : Announces (programWithin budget) s := by
  unfold programWithin
  refine .bind (announces_emitPlain rfl) fun _ s₁ h₁ => ?_
  have hw₁ := emitPlain_ok h₁
  have hs₁ := hw₁.sound hs
  have hsupplied₁ : Supplied budget 3 s₁ := (h.advances hw₁.toAdvances).mono (by omega)
  refine ⟨hw₁.subset, .bind (announces_declarations hs₁ (by rw [hw₁.names, hhome])
    (hsupplied₁.mono (by omega))) fun _ s₂ h₂ => ?_⟩
  obtain ⟨⟨ds, ts, hds⟩, -⟩ := declarationsWithin_ok h₂ hs₁
  have hsupplied₂ : Supplied budget 3 s₂ := (hsupplied₁.advances hds.advances).mono (by omega)
  refine ⟨hds.advances.subset, .bind ((statementsAnnounce budget).statements .topLevel hds.sound
    hsupplied₂) fun _ s₃ h₃ => ?_⟩
  have hblock : ∃ b us, ReadsBlock .topLevel 0 s₂ s₃ b us :=
    (statementsRead budget).statements hds.sound (by simp) h₃
  obtain ⟨b, us, hb⟩ := hblock
  refine ⟨hb.advances.subset, .bind (announces_expect (hsupplied₂.advances hb.advances) _ _)
    fun _ s₄ h₄ => ?_⟩
  obtain ⟨-, rfl⟩ := expectFinish_ok h₄
  refine ⟨List.Subset.refl _, .bind (announces_emitPlain rfl) fun _ s₅ h₅ => ?_⟩
  exact ⟨(emitPlain_ok h₅).subset, .of_ok ⟨_, s₅, rfl⟩⟩

/-- A stream that has an end fails only in a way that its tokens can cause. -/
theorem run_error {tokens : List Token} {e : Failure} (hfinish : ∃ t ∈ tokens, t.kind = .finish)
    (h : (run tokens {} {}).1 = .error e) : e.Announced tokens := by
  cases tokens with
  | nil => simp at hfinish
  | cons t rest =>
    have hsupplied : Supplied (State.budget ⟨t, rest, {}, {}⟩) 3 ⟨t, rest, {}, {}⟩ :=
      ⟨hfinish, by simp [State.budget]; omega⟩
    simp only [run] at h
    split at h
    · simp at h
    · rename_i e' s heq
      obtain rfl : e' = e := by simpa using h
      exact announces_program AddressBook.sound_empty rfl hsupplied _ _ heq

end StackPrimer.Compilation

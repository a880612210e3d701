import Mathlib.Data.Fintype.EquivFin
import StackPrimer.Proofs.Acceptance.Program
import StackPrimer.Proofs.Failure.Program
import StackPrimer.Proofs.Prefix.Locality
import StackPrimer.Proofs.Prefix.Statement

/-!
# Unexpected tokens are reported where they stand

The token that is reported is the first one with which the stream cannot be completed any more: what
stands in front of it can be completed to a program, and with the token it cannot.

Results:
* `viable_program`: what is passed of a program in front of an unexpected token begins a program.
* `run_unexpected`: an unexpected token is the first one that is wrong, whatever follows it.
-/

namespace StackPrimer.Compilation

open Grammar

variable {s s' : State} {C : List Terminal → Prop} {budget : Nat}

/-! ## Declarations -/

/-- What a declaration at the end may be that begins with the token looked at. -/
def IsDeclaration (s : State) (ts : List Terminal) : Prop :=
  ∃ d : Declaration, d.Reading ts [.mark .finish] ∧
    d.Scoped s.book.functionNames s.book.names ∧ ts.head? = s.terminals.head?

theorem viable_variableDeclaration (hs : s.book.Sound) (hk : s.token.kind = .name)
    (hnew : s.token.lexeme ∉ s.book.functionNames) :
    Viable (variableDeclarationWithin budget) s (IsDeclaration s) := by
  have hhead : s.terminals.head? = some (.name s.token.lexeme) :=
    congrArg some (ofToken_eq_name hk)
  have hassign : ∀ e : Expression, e.Scoped (s.book.names.bind s.token.lexeme) →
      IsDeclaration s (Declaration.assign s.token.lexeme e).terminals := fun e he =>
    ⟨.assign s.token.lexeme e, .assign .., ⟨hnew, he⟩, hhead.symm⟩
  unfold variableDeclarationWithin
  refine .name hk fun s₁ hw₁ => .read (currentKind_ok s₁) ?_
  split
  · exact .bind (fun _ _ _ h => by cases h) fun _ s₂ h₂ => absurd h₂ throw_ne_ok
  · refine .stay (quiet_declare _) fun _ s₂ h₂ => ?_
    obtain ⟨hadv₂, hbind₂⟩ := declare_ok h₂ (hw₁.sound hs)
    refine ⟨hadv₂.tokens_eq, .expectSign ⟨token (.sign .assign) "=" :: inputTokens, hassign .input trivial⟩
      fun s₃ hw₃ => viable_value (hw₃.sound hbind₂.sound) fun e he => ?_⟩
    rw [hw₃.names, hbind₂.names, hw₁.names] at he
    exact hassign e he

/-- What parameters after the first may be. -/
def IsMoreParameters (ts : List Terminal) : Prop :=
  ∃ rest : List String, (rest.flatMap fun x => [.sign .comma, .name x]) = ts

/-- What parameters may be. -/
def IsParameters (ts : List Terminal) : Prop :=
  ∃ parameters : List String,
    Terminal.commaSeparated (parameters.map fun x => [.name x]) = ts

theorem viable_moreParameters {s : State} {before : List Int} (hs : s.book.Sound) :
    Viable (moreParametersWithin budget before) s IsMoreParameters := by
  induction budget generalizing s before with
  | zero => exact fun _ _ _ h => by cases h
  | succ budget ih =>
    rw [moreParametersWithin]
    refine .read (currentKind_ok s) ?_
    split
    · rename_i hk
      refine .advance hk (by simp) fun s₁ hw₁ => ?_
      refine .bind (viable_expect ⟨[token .name "x"], ["x"], rfl⟩) fun name s₂ h₂ => ?_
      have hw₂ := expectName_ok h₂
      refine ⟨_, hw₂.passes, .stay (quiet_addVariable name) fun address s₃ h₃ => ?_⟩
      obtain ⟨hadv₃, hadd⟩ := addVariable_ok h₃ (hw₂.sound (hw₁.sound hs))
      refine ⟨hadv₃.tokens_eq, (ih hadd.sound).of_imp ?_⟩
      rintro us ⟨rest, rfl⟩
      exact .done ⟨name.lexeme :: rest, by simp⟩
    · exact (Quiet.pure before).viable

theorem viable_parameters (hs : s.book.Sound) :
    Viable (parametersWithin budget) s IsParameters := by
  unfold parametersWithin
  refine .read (currentKind_ok s) ?_
  split
  · rename_i hk
    refine .name hk fun s₁ hw₁ => .stay (quiet_addVariable _) fun address s₂ h₂ => ?_
    obtain ⟨hadv₂, hadd⟩ := addVariable_ok h₂ (hw₁.sound hs)
    refine ⟨hadv₂.tokens_eq, (viable_moreParameters hadd.sound).of_imp ?_⟩
    rintro us ⟨rest, rfl⟩
    exact .done ⟨s.token.lexeme :: rest, by simp [Terminal.commaSeparated, List.flatMap_map]⟩
  · exact (Quiet.pure []).viable

theorem quiet_storeAll (addresses : List Int) : Quiet (storeAll addresses) := by
  induction addresses with
  | nil => exact .pure ()
  | cons address rest ih => exact (quiet_emitInt _ _).bind fun _ => ih

/-- The parameters and the block of a function. -/
theorem viable_body {f : Action Unit} (hs : s.book.Sound) (hf : Quiet f)
    (hwhole : ∀ (parameters : List String) (body : Block) (us : List Terminal),
      body.Reading .block (.indent :: us) [.mark .finish] →
      body.Scoped s.book.functionNames (parameters.foldl Names.bind s.book.names) →
      C (.sign .opening :: Terminal.commaSeparated (parameters.map fun x => [.name x]) ++
        .sign .closing :: .sign .colon :: .indent :: us)) :
    Viable (do
      emitPlain .enter
      expectSign .opening
      let addresses ← parametersWithin budget
      expectSign .closing
      expectSign .colon
      storeAll addresses
      blockWithin budget
      f) s C := by
  -- whatever the parameters are, a block without statements completes them
  have hbare : ∀ parameters : List String,
      C (.sign .opening :: Terminal.commaSeparated (parameters.map fun x => [.name x]) ++
        [.sign .closing, .sign .colon, .indent]) := fun parameters =>
    hwhole parameters .nil [] (.nil (k := 1) (by simp) fun _ => rfl) trivial
  refine .emitPlain fun s₁ hw₁ => .expectSign ⟨[token (.sign .opening) "(",
    token (.sign .closing) ")", token (.sign .colon) ":", indentToken], hbare []⟩ fun s₂ hw₂ => ?_
  have hs₂ := (hw₁.trans hw₂).sound hs
  refine .bind ((viable_parameters hs₂).of_imp ?_) fun addresses s₃ h₃ => ?_
  · rintro us ⟨parameters, rfl⟩
    exact ⟨[token (.sign .closing) ")", token (.sign .colon) ":", indentToken], hbare parameters⟩
  obtain ⟨parameters, hparameters⟩ := parametersWithin_ok h₃ hs₂
  refine ⟨_, hparameters.advances.passes, .expectSign ⟨[token (.sign .closing) ")",
    token (.sign .colon) ":", indentToken], by simpa using hbare parameters⟩ fun s₄ hw₄ => ?_⟩
  refine .expectSign ⟨[token (.sign .colon) ":", indentToken], by simpa using hbare parameters⟩
    fun s₅ hw₅ => ?_
  refine .stay (quiet_storeAll addresses) fun _ s₆ h₆ => ?_
  have hw₆ := storeAll_ok h₆
  have hbinds := hparameters.binds.writes ((hw₄.trans hw₅).trans hw₆)
  have hblock : Viable (blockWithin budget) s₆ (IsBlock s₆.book.functionNames s₆.book.names) :=
    (statementsViable budget).block hbinds.sound
  rw [hbinds.functionNames, hbinds.names, hw₂.book, hw₁.book] at hblock
  refine ⟨hw₆.tokens_eq, .bind (hblock.of_imp ?_) fun _ s₇ h₇ => ?_⟩
  · rintro us ⟨body, us, rfl, hreading, hscoped⟩
    exact .done (by simpa using hwhole parameters body us hreading hscoped)
  · obtain ⟨body, us, hbody⟩ := (statementsRead budget).block hbinds.sound h₇
    exact ⟨_, hbody.advances.passes, hf.viable⟩

theorem quiet_addFunction (t : Token) : Quiet (addFunction t) := by
  intro s t' e s'
  unfold addFunction
  split <;> simp

theorem quiet_enterFunction : Quiet enterFunction := by
  intro s t e s'
  unfold enterFunction
  split <;> simp

theorem quiet_exitFunction : Quiet exitFunction := by
  intro s t e s'
  unfold exitFunction
  split <;> simp

theorem viable_functionDeclaration (hs : s.book.Sound) (hk : s.token.kind = .word .defWord) :
    Viable (functionDeclarationWithin budget) s (IsDeclaration s) := by
  have hhead : s.terminals.head? = some (.word .defWord) :=
    congrArg some (ofToken_eq_mark hk (by simp) (by simp))
  have hdefine : ∀ (f : String) (parameters : List String) (body : Block) (us : List Terminal),
      f ∉ s.book.functionNames → body.Reading .block (.indent :: us) [.mark .finish] →
      body.Scoped (s.book.functionNames ++ [f]) (s.book.names.enter parameters) →
      IsDeclaration s ((Declaration.define f parameters body).header ++ .indent :: us) :=
    fun f parameters body us hf hreading hscoped =>
      ⟨.define f parameters body, .define hreading, ⟨hf, hscoped⟩, hhead.symm⟩
  unfold functionDeclarationWithin
  refine .bind (viable_expect_of_kind hk) fun _ s₁ h₁ => ?_
  have hw₁ := expectWord_ok h₁
  refine ⟨_, hw₁.passes, .bind (viable_expect ?_) fun name s₂ h₂ => ?_⟩
  · -- any name will do that is new among functions
    obtain ⟨f, hf⟩ := Infinite.exists_notMem_finset s.book.functionNames.toFinset
    rw [List.mem_toFinset] at hf
    exact ⟨[token .name f, token (.sign .opening) "(", token (.sign .closing) ")",
      token (.sign .colon) ":", indentToken],
      hdefine f [] .nil [] hf (.nil (k := 1) (by simp) fun _ => rfl) trivial⟩
  have hw₂ := expectName_ok h₂
  refine ⟨_, hw₂.passes, .emitInt fun guard s₃ h₃ => ?_⟩
  have hw₃ := (hw₁.trans hw₂).trans (emitInt_ok h₃).2
  refine .stay (quiet_addFunction name) fun _ s₄ h₄ => ?_
  obtain ⟨-, hadv₄, -⟩ := addFunction_ok h₄ (hw₃.sound hs)
  refine ⟨hadv₄.tokens_eq, .stay quiet_enterFunction fun _ s₅ h₅ => ?_⟩
  obtain ⟨hnew, -, hadv₅, hnames₅, hfunctions₅, -, hsound₅⟩ := open_ok h₄ h₅ (hw₃.sound hs)
  rw [hw₃.book] at hnew hnames₅ hfunctions₅
  refine ⟨hadv₅.tokens_eq.trans hadv₄.tokens_eq.symm, viable_body hsound₅ ?_ ?_⟩
  · exact quiet_exitFunction.bind fun _ => (quiet_emitPlain _).bind fun _ => quiet_land guard
  · intro parameters body us hreading hscoped
    rw [hfunctions₅, hnames₅] at hscoped
    simpa [Declaration.header] using
      hdefine name.lexeme parameters body us hnew hreading hscoped

/-- What declarations at the end may be that begin with the token looked at. -/
def IsDeclarations (s : State) (ts : List Terminal) : Prop :=
  ∃ ds : List Declaration, DeclarationsReading ds ts [.mark .finish] ∧
    DeclarationsScoped s.book.functionNames s.book.names ds ∧ ts.head? = s.terminals.head?

theorem viable_declarations {s : State} (hs : s.book.Sound) :
    Viable (declarationsWithin budget) s (IsDeclarations s) := by
  induction budget generalizing s with
  | zero => exact fun _ _ _ h => by cases h
  | succ budget ih =>
    have hfirst : ∀ us, IsDeclaration s us → Begins (IsDeclarations s) us := by
      rintro us ⟨d, hreading, hscoped, hhead⟩
      have hds : DeclarationsReading [d] (us ++ []) [.mark .finish] := .cons hreading .nil
      rw [List.append_nil] at hds
      exact .done ⟨[d], hds, ⟨hscoped, trivial⟩, hhead⟩
    -- the declarations after a first one
    have hrest : ∀ {s₁ d ts}, ReadsDeclaration s s₁ d ts →
        ∃ ts, Passes s s₁ ts ∧
          Viable (declarationsWithin budget) s₁ fun us => IsDeclarations s (ts ++ us) := by
      intro s₁ d ts hd
      refine ⟨ts, hd.advances.passes, (ih hd.sound).of_imp ?_⟩
      rintro us ⟨ds, hds, hscoped, hhead⟩
      rw [hd.functionNames, hd.names] at hscoped
      refine .done ⟨d :: ds, .cons (hd.reading.of_follows (follows_of_head? hhead _)) hds,
        ⟨hd.wellScoped, hscoped⟩, ?_⟩
      rw [hd.advances.terminals, List.head?_append, hhead, List.head?_append]
    rw [declarationsWithin]
    refine .read (current_ok s) ?_
    cases hk : s.token.kind with
    | name =>
      refine .read (a := s.book.entry? s.token.lexeme) rfl ?_
      split
      · rename_i hnone
        have hnew : s.token.lexeme ∉ s.book.functionNames := by
          rw [AddressBook.entry?, Option.isNone_map, Option.isNone_iff_eq_none] at hnone
          exact (Layer.find?_eq_none_iff _ _).mp hnone
        refine .bind ((viable_variableDeclaration hs hk hnew).of_imp hfirst) fun _ s₁ h₁ => ?_
        obtain ⟨d, ts, hd⟩ := variableDeclarationWithin_ok h₁ hnone hs
        exact hrest hd
      · exact (Quiet.pure ()).viable
    | word w =>
      by_cases hw : w = .defWord
      · subst hw
        refine .bind ((viable_functionDeclaration hs hk).of_imp hfirst) fun _ s₁ h₁ => ?_
        obtain ⟨d, ts, hd⟩ := functionDeclarationWithin_ok h₁ hs
        exact hrest hd
      · cases w <;> first | exact absurd rfl hw | exact (Quiet.pure ()).viable
    | _ => exact (Quiet.pure ()).viable

/-! ## Programs -/

/-- What a program up to the end may be. -/
def IsSource (ts : List Terminal) : Prop :=
  ∃ source : Grammar.Source, source.Reading ts [.mark .finish] ∧ source.Scoped

/-- What is passed of a program in front of an unexpected token begins a program. -/
theorem viable_program (hbook : s.book = {}) :
    Viable (programWithin budget) s IsSource := by
  have hs : s.book.Sound := by
    rw [hbook]
    exact AddressBook.sound_empty
  unfold programWithin
  refine .emitPlain fun s₁ hw₁ => ?_
  have hs₁ := hw₁.sound hs
  have hbook₁ : s₁.book = {} := by rw [hw₁.book, hbook]
  refine .bind ((viable_declarations hs₁).of_imp ?_) fun _ s₂ h₂ => ?_
  · rintro us ⟨ds, hds, hscoped, -⟩
    rw [hbook₁] at hscoped
    exact .done ⟨⟨ds, .nil⟩, ⟨us, [], by simp, hds, .nil (k := 0) (by simp) fun _ => rfl, by simp⟩,
      hscoped, trivial⟩
  obtain ⟨⟨ds, ts, hds⟩, -, hname⟩ := declarationsWithin_ok h₂ hs₁
  have hdsScoped := hds.wellScoped
  have hfunctions := hds.functionNames
  have hnames := hds.names
  rw [hbook₁] at hdsScoped hfunctions hnames
  -- a block in place of what is left is a program if it begins the same
  have hwhole : ∀ (b : Block) (us : List Terminal), b.Reading .topLevel us [.mark .finish] →
      b.Scoped s₂.book.functionNames s₂.book.names → Follows (us ++ [.mark .finish]) s₂.terminals →
      IsSource (ts ++ us) := by
    intro b us hb hscoped hfollows
    rw [hfunctions, hnames] at hscoped
    refine ⟨⟨ds, b⟩, ⟨ts, us, rfl, hds.reading.of_follows hfollows, hb, ?_⟩, hdsScoped, hscoped⟩
    intro x hx
    have hhead : s₂.terminals.head? = some (.name x) := by
      rcases hfollows with hsame | hfinish
      · rw [← hsame, List.head?_append, hx]
        rfl
      · rw [List.head?_append, hx] at hfinish
        cases hfinish
    obtain ⟨hk, rfl⟩ := name_of_head? hhead
    have hmem := hname hk
    rw [hfunctions] at hmem
    exact hmem
  refine ⟨ts, hds.advances.passes, .bind (((statementsViable budget).statements .topLevel 0 hds.sound
    (by simp)).of_imp ?_) fun _ s₃ h₃ => ?_⟩
  · rintro us ⟨b, hreading, hscoped, hhead⟩
    exact .done (hwhole b us (by simpa using hreading) hscoped (follows_of_head? hhead _))
  have hblock : ∃ b us, ReadsBlock .topLevel 0 s₂ s₃ b us :=
    (statementsRead budget).statements hds.sound (by simp) h₃
  obtain ⟨b, us, hb⟩ := hblock
  refine ⟨us, hb.advances.passes, .bind (viable_expect (.done ?_)) fun last s₄ h₄ => ?_⟩
  · -- the statements end here, in front of the end as well as in front of what is there
    have hreading : b.Reading .topLevel us [.mark .finish] := by
      simpa using hb.reading.of_follows (.inr rfl)
    have hfollows : Follows (us ++ [.mark .finish]) s₂.terminals := by
      rw [hb.advances.terminals]
      exact Follows.append (.inr rfl) us
    simpa using hwhole b us hreading hb.wellScoped hfollows
  · obtain ⟨-, rfl⟩ := expectFinish_ok h₄
    exact ⟨[], .of_tokens rfl,
      ((quiet_emitPlain _).bind fun _ => fun s t e s' h => by cases h).viable⟩

/-! ## Streams -/

/-- What begins a program begins a stream that is accepted. -/
theorem exists_run_of_begins {passed : List Token}
    (h : Begins IsSource (passed.map Terminal.ofToken)) :
    ∃ rest p, (run (passed ++ rest) {} {}).1 = .ok p := by
  obtain ⟨rest, source, hreading, hscoped⟩ := h
  rw [← List.map_append] at hreading
  have hlast : Terminal.ofToken (token .finish "") = .mark .finish := rfl
  rw [← hlast] at hreading
  have hp : ∃ p, (run ((passed ++ rest) ++ [token .finish ""]) {} {}).1 = .ok p ∧ _ :=
    run_of_reading hreading rfl hscoped
  obtain ⟨p, hp, -⟩ := hp
  exact ⟨rest ++ [token .finish ""], p, by rwa [← List.append_assoc]⟩

/-- A run that fails without having looked at what follows fails in the same way whatever follows,
or it runs out of tokens. -/
theorem program_of_prefix {s₀ s₁ : State} {u : List Token} {e : Failure}
    (h : program (s₀.before u) = .error e (s₁.before u)) (he : e ≠ .outOfTokens) (v : List Token) :
    program (s₀.before v) = .error e (s₁.before v) ∨
      ∃ s, program (s₀.before v) = .error .outOfTokens s := by
  by_cases hc : Outcome.Complete (program (s₀.before v))
  · -- with the greater one of both budgets both runs do what they do with their own
    have hu := (local_program (Nat.le_max_left (s₀.before u).budget (s₀.before v).budget)).same
      s₀ (.error e s₁) u v h fun s hs => he (by injection hs)
    have hv := (local_program (Nat.le_max_right (s₀.before u).budget (s₀.before v).budget)).same
      (s₀.before v) (program (s₀.before v)) [] [] (by simp [program]) hc
    rw [State.before_nil, hu, Outcome.before_nil] at hv
    exact .inl hv.symm
  · rw [Outcome.Complete, not_forall] at hc
    obtain ⟨s, hs⟩ := hc
    exact .inr ⟨s, not_not.mp hs⟩

/-- A state whose stream holds a token is one with the tokens behind that token cut off. -/
theorem exists_before_of_tokens {s : State} {before after : List Token} {t : Token}
    (h : s.tokens = before ++ t :: after) :
    ∃ s₀ : State, s = s₀.before after ∧ s₀.tokens = before ++ [t] := by
  have hsuffix : [] ++ after <:+ s.upcoming := by
    cases before with
    | nil => exact (List.cons.inj h).2 ▸ List.suffix_rfl
    | cons first before =>
      exact (List.cons.inj h).2 ▸ (List.suffix_cons t after).trans (List.suffix_append before _)
  obtain ⟨s₀, rfl⟩ := State.exists_before hsuffix
  refine ⟨s₀, rfl, List.append_cancel_right (h.trans ?_)⟩
  simp

/-- A run from a state with no names and no code is the run of its stream. -/
theorem run_tokens {s : State} (hbook : s.book = {}) (hlog : s.log = {}) :
    run s.tokens {} {} = match program s with
      | .ok p s' => (.ok p, s'.book, s'.log)
      | .error e s' => (.error e, s'.book, s'.log) := by
  obtain ⟨t, rest, book, log⟩ := s
  cases hbook
  cases hlog
  rfl

/-- An unexpected token is the first one that is wrong: what stands in front of it begins a stream
that is accepted, and with the token no stream is accepted any more. Streams that have an end and
begin so fail in the same way. -/
theorem run_unexpected {tokens : List Token} {t : Token} {e : Expectation}
    (h : (run tokens {} {}).1 = .error (.unexpected t e)) :
    ∃ before after, tokens = before ++ t :: after ∧
      (∃ rest p, (run (before ++ rest) {} {}).1 = .ok p) ∧
      (∀ after' p, (run (before ++ t :: after') {} {}).1 ≠ .ok p) ∧
      ∀ after', (∃ u ∈ before ++ t :: after', u.kind = .finish) →
        run (before ++ t :: after') {} {} = run tokens {} {} := by
  obtain ⟨s₀, hbook, hlog, rfl⟩ : ∃ s₀ : State, s₀.book = {} ∧ s₀.log = {} ∧ s₀.tokens = tokens := by
    cases tokens with
    | nil => cases h
    | cons first upcoming => exact ⟨⟨first, upcoming, {}, {}⟩, rfl, rfl, rfl⟩
  have hrun := run_tokens hbook hlog
  obtain ⟨s', hp⟩ : ∃ s', program s₀ = .error (.unexpected t e) s' := by
    cases hp : program s₀ with
    | ok p s' =>
      rw [hrun, hp] at h
      cases h
    | error e' s' =>
      rw [hrun, hp] at h
      exact ⟨s', by rw [show e' = .unexpected t e by simpa using h]⟩
  obtain ⟨ht, before, htokens, hbegins⟩ := viable_program hbook _ _ _ hp
  obtain ⟨after, hs'⟩ : ∃ after, s'.tokens = [] ++ t :: after :=
    ⟨s'.upcoming, by rw [State.tokens, ht, List.nil_append]⟩
  rw [hs'] at htokens
  -- both states are what they are with the tokens behind the unexpected one cut off
  obtain ⟨s₀, rfl, hbefore⟩ := exists_before_of_tokens htokens
  obtain ⟨s₁, rfl, -⟩ := exists_before_of_tokens hs'
  have hother : ∀ v : List Token, run (before ++ t :: v) {} {} = run (s₀.before after).tokens {} {} ∨
      (run (before ++ t :: v) {} {}).1 = .error .outOfTokens := by
    intro v
    have hstream : (s₀.before v).tokens = before ++ t :: v := by
      rw [show (s₀.before v).tokens = s₀.tokens ++ v from rfl, hbefore]
      simp
    rw [← hstream, run_tokens (s := s₀.before v) hbook hlog]
    rcases program_of_prefix hp (by simp) v with hv | ⟨s, hv⟩
    · left
      rw [hv, hrun, hp]
      rfl
    · right
      rw [hv]
  refine ⟨before, after, htokens, exists_run_of_begins hbegins, ?_, ?_⟩
  · intro v p hok
    rcases hother v with hsame | hout
    · rw [hsame, h] at hok
      cases hok
    · rw [hout] at hok
      cases hok
  · intro v hfinish
    rcases hother v with hsame | hout
    · exact hsame
    · exact absurd rfl (run_error hfinish hout).ne_outOfTokens

/-- A condition that goes on with `=`, which is wrong whatever follows. -/
def assignedCondition : List Token :=
  [token .name "x", token (.sign .assign) "=", token (.word .inputWord) "input",
    token (.sign .opening) "(", token (.sign .closing) ")", token (.word .ifWord) "if",
    token .name "x", token (.sign .assign) "=", token .name "x", token .finish ""]

/-- The second `=` is reported, and the stream can be completed up to it. -/
theorem run_unexpected_assign :
    (run assignedCondition {} {}).1 = .error (.unexpected (token (.sign .assign) "=") .comparison) ∧
    ∃ before after, assignedCondition = before ++ token (.sign .assign) "=" :: after ∧
      (∃ rest p, (run (before ++ rest) {} {}).1 = .ok p) ∧
      (∀ after' p, (run (before ++ token (.sign .assign) "=" :: after') {} {}).1 ≠ .ok p) ∧
      ∀ after', (∃ u ∈ before ++ token (.sign .assign) "=" :: after', u.kind = .finish) →
        run (before ++ token (.sign .assign) "=" :: after') {} {} = run assignedCondition {} {} := by
  have h : (run assignedCondition {} {}).1 =
      .error (.unexpected (token (.sign .assign) "=") .comparison) := by decide +kernel
  exact ⟨h, run_unexpected h⟩

end StackPrimer.Compilation

import StackPrimer.Proofs.Failure.Program
import StackPrimer.Proofs.InStep.Statement

/-!
# Programs in step

Streams that correspond have the same program, or they fail for the same reason at tokens that
correspond.

Results:
* `inStep_program`: programs are in step.
* `compileTokens_agree`: so are whole compilations, each within a budget of its own.
-/

namespace StackPrimer.Compilation

variable {c : Pairing}

/-! ## Declarations -/

theorem inStep_variableDeclaration (b : Nat) :
    InStep c (Streams c) (variableDeclarationWithin b) (variableDeclarationWithin b) Eq
      (Streams c) := by
  unfold variableDeclarationWithin
  refine (inStep_expectName _).bind ?_
  rintro x y ⟨h, hx⟩
  have hrest : InStep c (Streams c)
      (do declare x; expectSign .assign; expressionWithin b; store x)
      (do declare y; expectSign .assign; expressionWithin b; store y) Eq (Streams c) :=
    (inStep_declare h hx).bind fun _ _ _ => (inStep_passSign _).bind fun _ _ _ =>
      (inStep_expression b).bind fun _ _ _ => inStep_store h hx
  have hrefuse : InStep c (Streams c)
      (do throw (.undeclared .function x); declare x; expectSign .assign; expressionWithin b; store x)
      (do throw (.undeclared .function y); declare y; expectSign .assign; expressionWithin b; store y)
      (@Eq Unit) (Streams c) :=
    (InStep.throw (.undeclared .function h)).bind (r := fun (_ _ : Unit) => True) fun _ _ _ => hrest
  refine .byKind (fun t u ht => ?_) fun k l hk hl => ?_
  · split
    · exact hrefuse.weaken Facing.streams
    · exact hrest.weaken Facing.streams
  · rw [if_neg (not_isSoft hk rfl), if_neg (not_isSoft hl rfl)]
    exact hrest

theorem inStep_moreParameters (b : Nat) (before : List Int) :
    InStep c (Streams c) (moreParametersWithin b before) (moreParametersWithin b before) Eq
      (Streams c) := by
  induction b generalizing before with
  | zero => exact .unlucky
  | succ b ih =>
    rw [moreParametersWithin]
    refine .byKind (fun t u ht => ?_) fun k l hk hl => ?_
    · split
      · refine (inStep_pass ht).bind fun _ _ _ => (inStep_expectName _).bind ?_
        rintro x y ⟨h, hx⟩
        refine (inStep_addVariable h hx).bind ?_
        rintro address _ rfl
        exact ih (address :: before)
      · exact (InStep.pure rfl).weaken Facing.streams
    · rw [if_neg (not_isSoft hk rfl), if_neg (not_isSoft hl rfl)]
      exact .pure rfl

theorem inStep_parameters (b : Nat) :
    InStep c (Streams c) (parametersWithin b) (parametersWithin b) Eq (Streams c) := by
  unfold parametersWithin
  refine .byKind (fun t u ht => ?_) fun k l hk hl => ?_
  · split
    · refine InStep.weaken ?_ Facing.streams
      refine (inStep_expectName _).bind ?_
      rintro x y ⟨h, hx⟩
      refine (inStep_addVariable h hx).bind ?_
      rintro address _ rfl
      exact inStep_moreParameters b [address]
    · exact (InStep.pure rfl).weaken Facing.streams
  · rw [if_neg (not_isSoft hk rfl), if_neg (not_isSoft hl rfl)]
    exact .pure rfl

theorem inStep_storeAll {p : Side} (addresses : List Int) :
    InStep c p (storeAll addresses) (storeAll addresses) Eq p := by
  induction addresses with
  | nil => exact .pure rfl
  | cons address rest ih => exact (inStep_emitInt _ _).bind fun _ _ _ => ih

theorem inStep_functionDeclaration (b : Nat) :
    InStep c (Streams c) (functionDeclarationWithin b) (functionDeclarationWithin b) Eq
      (Streams c) := by
  unfold functionDeclarationWithin
  refine ((inStep_expect rfl _).strengthen Behind.streams).bind fun _ _ _ => ?_
  refine (inStep_expectName _).bind ?_
  rintro x y ⟨h, hx⟩
  refine (inStep_emitInt _ _).bind ?_
  rintro guard _ rfl
  refine (inStep_addFunction h hx).bind fun _ _ _ => inStep_enterFunction.bind fun _ _ _ => ?_
  refine (inStep_emitPlain _).bind fun _ _ _ => (inStep_passSign _).bind fun _ _ _ => ?_
  refine (inStep_parameters b).bind ?_
  rintro addresses _ rfl
  refine (inStep_passSign _).bind fun _ _ _ => inStep_expectColon.bind fun _ _ _ => ?_
  refine (inStep_storeAll addresses).bind fun _ _ _ => ?_
  refine (statementsInStep c b).block.bind fun _ _ _ => inStep_exitFunction.bind fun _ _ _ => ?_
  exact (inStep_emitPlain _).bind fun _ _ _ => (inStep_land guard).strengthen Settled.streams

theorem inStep_declarations (b : Nat) :
    InStep c (Streams c) (declarationsWithin b) (declarationsWithin b) Eq (Streams c) := by
  induction b with
  | zero => exact .unlucky
  | succ b ih =>
    rw [declarationsWithin]
    refine .byToken (fun t u ht hsame => ?_) fun t u ht hu hheads => ?_
    · rw [c.kind_eq hsame]
      split
      · exact ((inStep_functionDeclaration b).bind fun _ _ _ => ih).weaken Facing.streams
      · rename_i hname
        refine (inStep_entry hsame hname).bind ?_
        rintro entry _ rfl
        exact .ite rfl
          (((inStep_variableDeclaration b).bind fun _ _ _ => ih).weaken Facing.streams)
          ((InStep.pure rfl).weaken Facing.streams)
      · exact (InStep.pure rfl).weaken Facing.streams
    · have htdef := not_isSoft (l := .word .defWord) ht rfl
      have htname := not_isSoft (l := .name) ht rfl
      have hudef := not_isSoft (l := .word .defWord) hu rfl
      have huname := not_isSoft (l := .name) hu rfl
      split <;> first | contradiction | exact .pure rfl

/-! ## Programs -/

/-- Where the streams are settled, the tokens in front are of the same kind, also at the end. -/
theorem inStep_expectFinish (e : Expectation) :
    InStep c (Settled c) (expect .finish e) (expect .finish e) (fun _ _ => True) (Settled c) := by
  intro s s' h
  obtain ⟨t, u, hk, hfacing⟩ := h.tokens
  obtain ⟨ts, us, hts, hus, hsame, -⟩ := hfacing
  obtain ⟨rfl, -⟩ := List.cons.inj hts
  obtain ⟨rfl, -⟩ := List.cons.inj hus
  unfold expect
  rw [bind_of_ok (current_ok s), bind_of_ok (current_ok s')]
  by_cases hfinish : s.token.kind = .finish
  · have hfinish' : s'.token.kind = .finish := (c.kind_eq hsame).trans hfinish
    rw [if_pos hfinish, if_pos hfinish', bind_of_ok (advance_finish hfinish),
      bind_of_ok (advance_finish hfinish')]
    exact .ok trivial h
  · rw [if_neg hfinish, if_neg (by rwa [c.kind_eq hsame])]
    exact .error (.unexpected (.inl hsame) e)

/-- What ends a program: the last instruction behind the last token. -/
def endingWithin : Action Program := do
  let _ ← expect .finish .statementOrFinish
  emitPlain .halt
  fun s => .ok s.log.instructions s

theorem inStep_ending : InStep c (Settled c) endingWithin endingWithin Eq (Settled c) :=
  (inStep_expectFinish _).bind fun _ _ _ => (inStep_emitPlain _).bind fun _ _ _ s s' h =>
    .ok (by rw [h.log]) h

/-- Programs are in step. -/
theorem inStep_program (b : Nat) :
    InStep c (Streams c) (programWithin b) (programWithin b) Eq (Settled c) := by
  refine (inStep_emitPlain _).bind fun _ _ _ => (inStep_declarations b).bind fun _ _ _ => ?_
  exact (((statementsInStep c b).statements .topLevel).weaken Streams.loose).bind fun _ _ _ =>
    inStep_ending

/-! ## Whole compilations -/

/-- A larger budget changes no result for which the smaller one lasted. -/
theorem programWithin_of_le {b b' : Nat} {s : State} (h : b ≤ b')
    (hcomplete : Outcome.Complete (programWithin b s)) : programWithin b' s = programWithin b s := by
  have hsame := (local_program h).same s (programWithin b s) [] [] (by simp) hcomplete
  simpa using hsame

/-- In a stream that has an end the tokens never run out. -/
theorem complete_program {t : Token} {rest : List Token}
    (hfinish : ∃ v ∈ t :: rest, v.kind = .finish) :
    Outcome.Complete (program ⟨t, rest, {}, {}⟩) := by
  intro s hout
  have hrun : (run (t :: rest) {} {}).1 = .error .outOfTokens := by simp only [run, hout]
  cases run_error hfinish hrun

theorem Streams.exists_finish {ts us : List Token} (h : Streams c ts us)
    (hfinish : ∃ t ∈ ts, t.kind = .finish) : ∃ u ∈ us, u.kind = .finish := by
  induction h with
  | nil => simp at hfinish
  | token same level rest ih =>
    obtain ⟨v, hv, hk⟩ := hfinish
    rcases List.mem_cons.mp hv with rfl | hv
    · exact ⟨_, List.mem_cons_self .., (c.kind_eq same).trans hk⟩
    · obtain ⟨u, hu, hk⟩ := ih ⟨v, hv, hk⟩
      exact ⟨u, List.mem_cons_of_mem _ hu, hk⟩
  | gap left right apart place kind same level rest ih =>
    obtain ⟨v, hv, hk⟩ := hfinish
    rcases List.mem_append.mp hv with hv | hv
    · rw [left v hv] at hk
      cases hk
    · rcases List.mem_cons.mp hv with rfl | hv
      · exact ⟨_, List.mem_append_right _ (List.mem_cons_self ..), (c.kind_eq same).trans hk⟩
      · obtain ⟨u, hu, hk⟩ := ih ⟨v, hv, hk⟩
        exact ⟨u, List.mem_append_right _ (List.mem_cons_of_mem _ hu), hk⟩

/-- The outcomes of two compilations: the same, or failures for reasons that correspond. -/
inductive Pairing.Agree {α : Type} (c : Pairing) : Except Failure α → Except Failure α → Prop
  | ok (a : α) : c.Agree (.ok a) (.ok a)
  | error {e e' : Failure} (h : c.Fails e e') : c.Agree (.error e) (.error e')

/-- Books that correspond have the same number of globals. -/
theorem Pairing.Books.nextGlobal {book book' : AddressBook} (h : c.Books book book') :
    book'.nextGlobal = book.nextGlobal := by
  have hglobals := congrArg (List.length ∘ Grammar.Names.globals) h.names
  simpa [AddressBook.names, Layer.names, Grammar.Names.rename, ← h.left.nextGlobal,
    ← h.right.nextGlobal] using hglobals

/-- What the compilation of a stream comes to, within the budget that it is given. -/
theorem compileTokens_cons (t : Token) (rest : List Token) :
    compileTokens (t :: rest) = match program ⟨t, rest, {}, {}⟩ with
      | .ok p s => .ok (p, s.book.nextGlobal)
      | .error e _ => .error e := by
  cases h : program ⟨t, rest, {}, {}⟩ <;> simp [compileTokens, run, h, Except.map]

/-- Compilations that end alike agree. -/
theorem agree_of_ends {t u : Token} {ts us : List Token} {q : Side}
    (h : c.Ends Eq q (program ⟨t, ts, {}, {}⟩) (program ⟨u, us, {}, {}⟩)) :
    c.Agree (compileTokens (t :: ts)) (compileTokens (u :: us)) := by
  rw [compileTokens_cons, compileTokens_cons]
  generalize program ⟨t, ts, {}, {}⟩ = outcome at h ⊢
  generalize program ⟨u, us, {}, {}⟩ = outcome' at h ⊢
  cases h with
  | ok result states =>
    subst result
    simp only [states.book.nextGlobal]
    exact .ok _
  | error hfails => exact .error hfails

theorem exists_finish_append (ts : List Token) {us : List Token}
    (h : ∃ u ∈ us, u.kind = .finish) : ∃ t ∈ ts ++ us, t.kind = .finish :=
  h.imp fun _ hu => ⟨List.mem_append_right ts hu.1, hu.2⟩

/-- Two compilations agree if they do within some budgets that are large enough for them. -/
theorem agree_of_runs {ts us : List Token} {q : Side} (hfinish : ∃ t ∈ ts, t.kind = .finish)
    (hfinish' : ∃ u ∈ us, u.kind = .finish)
    (h : ∀ s s' : State, s.tokens = ts → s'.tokens = us → c.Books s.book s'.book → s.book = {} →
      s'.book = {} → s.log = {} → s'.log = {} → ∃ b b', s.budget ≤ b ∧ s'.budget ≤ b' ∧
        c.Ends Eq q (programWithin b s) (programWithin b' s')) :
    c.Agree (compileTokens ts) (compileTokens us) := by
  obtain ⟨t, ts, rfl⟩ := List.exists_cons_of_ne_nil (List.ne_nil_of_mem hfinish.choose_spec.1)
  obtain ⟨u, us, rfl⟩ := List.exists_cons_of_ne_nil (List.ne_nil_of_mem hfinish'.choose_spec.1)
  obtain ⟨b, b', hb, hb', hends⟩ :=
    h ⟨t, ts, {}, {}⟩ ⟨u, us, {}, {}⟩ rfl rfl (.empty c) rfl rfl rfl rfl
  rw [programWithin_of_le hb (complete_program hfinish),
    programWithin_of_le hb' (complete_program hfinish')] at hends
  exact agree_of_ends hends

/-- Streams that correspond and have an end are compiled to the same program, or fail for the same
reason at tokens that correspond. -/
theorem compileTokens_agree {ts us : List Token} (h : Streams c ts us)
    (hfinish : ∃ t ∈ ts, t.kind = .finish) : c.Agree (compileTokens ts) (compileTokens us) := by
  refine agree_of_runs (q := Settled c) hfinish (h.exists_finish hfinish)
    fun s s' hs hs' hbooks _ _ hlog hlog' => ?_
  -- the budgets differ where the streams differ in length, and a common one lasts for both
  subst hs hs'
  exact ⟨_, _, Nat.le_max_left .., Nat.le_max_right ..,
    inStep_program _ s s' ⟨h, hbooks, hlog'.trans hlog.symm⟩⟩

end StackPrimer.Compilation

import StackPrimer.Proofs.Acceptance.Statement
import StackPrimer.Proofs.OnePass.Program

/-!
# Programs are accepted

A stream is accepted if a tree can be read of it up to its end and every name of the tree denotes what
it is used for.

Results:
* `run_of_reading`: the program of such a stream is the code of the tree.
-/

namespace StackPrimer.Compilation

open Grammar

variable {s s' : State} {budget reserve : Nat} {behind : List Terminal}

/-! ## Declarations of variables -/

theorem accepted_variable (x : String) (e : Expression)
    (h : Ahead budget 0 s ((Declaration.assign x e).terminals ++ behind))
    (hscoped : (Declaration.assign x e).Scoped s.book.functionNames s.book.names)
    (hbehind : EndsExpression behind) :
    Succeeds (variableDeclarationWithin budget) s fun _ s' =>
      ReadsDeclaration s s' (.assign x e) (Declaration.assign x e).terminals := by
  obtain ⟨-, rfl⟩ := name_of_ofToken h.ofToken
  unfold variableDeclarationWithin
  refine .bind (succeeds_expect h rfl (by simp [Terminal.kind]) _) fun name s₁ _ hname => ?_
  obtain ⟨rfl, hw₁⟩ := hname
  have hahead₁ := h.pass hw₁
  refine .read (currentKind_ok s₁) ?_
  rw [if_neg (by simp [hahead₁.kind_mark])]
  obtain ⟨s₂, hdeclare⟩ := exists_declare s.token s₁
  refine .bind_ok ⟨(), s₂, hdeclare⟩ fun _ s₂ h₂ => ?_
  obtain ⟨hadv₂, hbind₂⟩ := declare_ok h₂ hahead₁.sound
  have hahead₂ := hahead₁.bound hadv₂ hbind₂.sound
  refine .bind (succeeds_expectSign hahead₂) fun _ s₃ _ hw₃ => ?_
  have hahead₃ := hahead₂.pass hw₃
  have hscoped₃ : e.Scoped s₃.book.names := by
    rw [hw₃.names, hbind₂.names, hw₁.names]
    exact hscoped.2
  refine .bind (accepted e (hahead₃.mono (by omega)) hscoped₃ hbehind) fun _ s₄ _ he => ?_
  have hscope : s₄.book.names.scope? s.token.lexeme = some s₄.book.names.home := by
    rw [he.writes.names, hw₃.names, hbind₂.names, Names.home_bind]
    exact Names.scope?_bind ..
  obtain ⟨_, s₅, hrun, hw₅⟩ := succeeds_store (he.writes.sound hahead₃.sound) hscope
  exact ⟨(), s₅, hrun, .assign hw₁ h₂ hw₃ he hw₅ hscoped.1 h.sound⟩

/-! ## Declarations of functions -/

theorem succeeds_addVariable (t : Token) (hs : s.book.Sound) :
    Succeeds (addVariable t) s fun _ s' => Advances s s' [] [] ∧ s'.book.Sound := by
  have hok : ∃ a s', addVariable t s = .ok a s' := ⟨_, _, rfl⟩
  obtain ⟨a, s', hrun⟩ := hok
  obtain ⟨hadv, hadd⟩ := addVariable_ok hrun hs
  exact ⟨a, s', hrun, hadv, hadd.sound⟩

theorem accepted_moreParameters (parameters : List String) {budget reserve : Nat} {s : State}
    {before : List Int}
    (h : Ahead budget (reserve + 1) s ((parameters.flatMap fun x => [.sign .comma, .name x]) ++
      .sign .closing :: behind)) :
    Succeeds (moreParametersWithin budget before) s fun addresses s' =>
      ReadsParameters s s' parameters (parameters.flatMap fun x => [.sign .comma, .name x]) before
        addresses := by
  induction parameters generalizing budget reserve s before with
  | nil =>
    obtain ⟨budget, rfl, -⟩ := h.spend
    rw [moreParametersWithin]
    refine .read (currentKind_ok s) ?_
    rw [if_neg (by simp [h.kind_mark])]
    exact ⟨before, s, rfl, .nil h.sound before⟩
  | cons x rest ih =>
    obtain ⟨budget, rfl, hahead⟩ := h.spend
    rw [moreParametersWithin]
    refine .read (currentKind_ok s) ?_
    rw [if_pos h.kind_mark]
    refine .bind (succeeds_advance hahead (by simp)) fun _ s₁ _ hw₁ => ?_
    have hahead₁ := hahead.pass hw₁
    refine .bind (succeeds_expect hahead₁ rfl (by simp [Terminal.kind]) _)
      fun name s₂ _ hname => ?_
    obtain ⟨rfl, hw₂⟩ := hname
    have hahead₂ := hahead₁.pass hw₂
    obtain ⟨-, rfl⟩ := name_of_ofToken hahead₁.ofToken
    refine .bind (succeeds_addVariable s₁.token hahead₂.sound) fun address s₃ h₃ hadd => ?_
    have hahead₃ := hahead₂.bound hadd.1 hadd.2
    obtain ⟨addresses, s₄, hrun, hrest⟩ := ih (hahead₃.mono (show 0 + 1 ≤ _ by omega))
    exact ⟨addresses, s₄, hrun, .cons (hw₁.trans hw₂) h₃ hrest h.sound⟩

theorem accepted_parameters (parameters : List String)
    (h : Ahead budget 0 s (Terminal.commaSeparated (parameters.map fun x => [.name x]) ++
      .sign .closing :: behind)) :
    Succeeds (parametersWithin budget) s fun addresses s' =>
      ReadsParameters s s' parameters
        (Terminal.commaSeparated (parameters.map fun x => [.name x])) [] addresses := by
  unfold parametersWithin
  refine .read (currentKind_ok s) ?_
  cases parameters with
  | nil =>
    rw [if_neg (by simp [h.kind_mark])]
    exact ⟨[], s, rfl, .nil h.sound []⟩
  | cons x rest =>
    have hts : Terminal.commaSeparated ((x :: rest).map fun x => [.name x]) =
        [.name x] ++ rest.flatMap fun x => [.sign .comma, .name x] := by
      simp [Terminal.commaSeparated, List.flatMap_map]
    rw [hts] at h ⊢
    rw [if_pos h.kind_name]
    refine .bind (succeeds_expect h rfl (by simp [Terminal.kind]) _) fun name s₁ _ hname => ?_
    obtain ⟨rfl, hw₁⟩ := hname
    have hahead₁ := h.pass hw₁
    obtain ⟨-, rfl⟩ := name_of_ofToken h.ofToken
    refine .bind (succeeds_addVariable s.token hahead₁.sound) fun address s₂ h₂ hadd => ?_
    have hahead₂ := hahead₁.bound hadd.1 hadd.2
    obtain ⟨addresses, s₃, hrun, hrest⟩ :=
      accepted_moreParameters rest (hahead₂.mono (show 0 + 1 ≤ _ by omega))
    exact ⟨addresses, s₃, hrun, .cons hw₁ h₂ hrest h.sound⟩

/-- The parameters and the block of a function. -/
theorem succeeds_body {parameters : List String} {body : Block} {ts : List Terminal}
    {f : Action Unit} {post : Unit → State → Prop}
    (h : Ahead budget 1 s (.sign .opening ::
      (Terminal.commaSeparated (parameters.map fun x => [.name x]) ++
        .sign .closing :: .sign .colon :: (.indent :: ts ++ behind))))
    (hhome : s.book.names.home = .function)
    (hscoped : body.Scoped s.book.functionNames (parameters.foldl Names.bind s.book.names))
    (hbody : AcceptedBlock body (.indent :: ts) behind)
    (hf : ∀ s₇, ReadsBody s s₇ parameters body ts → Succeeds f s₇ post) :
    Succeeds (do
      emitPlain .enter
      expectSign .opening
      let addresses ← parametersWithin budget
      expectSign .closing
      expectSign .colon
      storeAll addresses
      blockWithin budget
      f) s post := by
  refine .bind (succeeds_emitPlain .enter rfl s) fun _ s₁ _ hw₁ => ?_
  have hahead₁ := h.stay hw₁
  refine .bind (succeeds_expectSign hahead₁) fun _ s₂ _ hw₂ => ?_
  have hahead₂ := hahead₁.pass hw₂
  refine .bind (accepted_parameters parameters (hahead₂.mono (by omega)))
    fun addresses s₃ _ hparameters => ?_
  have hahead₃ := hahead₂.advances hparameters.advances hparameters.binds.sound
  refine .bind (succeeds_expectSign hahead₃) fun _ s₄ _ hw₄ => ?_
  have hahead₄ := hahead₃.pass hw₄
  refine .bind (succeeds_expectSign hahead₄) fun _ s₅ _ hw₅ => ?_
  have hahead₅ := hahead₄.pass hw₅
  obtain ⟨s₆, hstores⟩ := exists_storeAll addresses s₅
  refine .bind_ok ⟨(), s₆, hstores⟩ fun _ s₆ h₆ => ?_
  have hw₆ := storeAll_ok h₆
  have hbinds := hparameters.binds.writes ((hw₄.trans hw₅).trans hw₆)
  have hscoped₆ : body.Scoped s₆.book.functionNames s₆.book.names := by
    rw [hbinds.functionNames, hbinds.names, hw₂.book, hw₁.book]
    exact hscoped
  refine .bind (hbody ((hahead₅.stay hw₆).mono (by omega)) hscoped₆) fun _ s₇ _ hb => ?_
  exact hf s₇ (.of_parts hw₁ hw₂ hparameters hw₄ hw₅ h₆ hb h.sound hhome)

theorem accepted_function {f : String} {parameters : List String} {body : Block}
    {ts : List Terminal}
    (h : Ahead budget 0 s ((Declaration.define f parameters body).header ++ .indent :: ts ++ behind))
    (hscoped : (Declaration.define f parameters body).Scoped s.book.functionNames s.book.names)
    (hhome : s.book.names.home = .global) (hbody : AcceptedBlock body (.indent :: ts) behind) :
    Succeeds (functionDeclarationWithin budget) s fun _ s' =>
      ReadsDeclaration s s' (.define f parameters body)
        ((Declaration.define f parameters body).header ++ .indent :: ts) := by
  have hts : (Declaration.define f parameters body).header ++ .indent :: ts ++ behind =
      .word .defWord :: .name f :: .sign .opening ::
        (Terminal.commaSeparated (parameters.map fun x => [.name x]) ++
          .sign .closing :: .sign .colon :: (.indent :: ts ++ behind)) := by
    simp [Declaration.header]
  rw [hts] at h
  obtain ⟨hnew, hscoped⟩ := hscoped
  unfold functionDeclarationWithin
  refine .bind (succeeds_expect h rfl (by simp) _) fun _ s₁ _ hw₁ => ?_
  have hahead₁ := h.pass hw₁.2
  refine .bind (succeeds_expect hahead₁ rfl (by simp [Terminal.kind]) _) fun name s₂ _ hname => ?_
  obtain ⟨rfl, hw₂⟩ := hname
  have hahead₂ := hahead₁.pass hw₂
  obtain ⟨-, rfl⟩ := name_of_ofToken hahead₁.ofToken
  refine .bind (succeeds_emitInt .jump rfl 0 s₂) fun guard s₃ h₃ hemit => ?_
  have hahead₃ := hahead₂.stay hemit.2
  have hbook₃ : s₃.book = s.book := by rw [hemit.2.book, hw₂.book, hw₁.2.book]
  obtain ⟨s₄, hadd⟩ := exists_addFunction (s := s₃) (t := s₁.token) (by rw [hbook₃]; exact hnew)
  refine .bind_ok ⟨(), s₄, hadd⟩ fun _ s₄ h₄ => ?_
  obtain ⟨-, hadv₄, hnames₄, -, -, hsound₄⟩ := addFunction_ok h₄ hahead₃.sound
  obtain ⟨s₅, henter⟩ := exists_enterFunction (s := s₄) (by rw [hnames₄, hbook₃, hhome])
  refine .bind_ok ⟨(), s₅, henter⟩ fun _ s₅ h₅ => ?_
  obtain ⟨-, -, hadv₅, hnames₅, hfunctions₅, -, hsound₅⟩ := open_ok h₄ h₅ hahead₃.sound
  have hahead₅ := hahead₃.bound hadv₅ hsound₅
  have hhome₅ : s₅.book.names.home = .function := by
    rw [hnames₅]
    rfl
  have hscoped₅ : body.Scoped s₅.book.functionNames
      (parameters.foldl Names.bind s₅.book.names) := by
    rw [hnames₅, hfunctions₅, hbook₃]
    exact hscoped
  refine succeeds_body (hahead₅.mono (by omega)) hhome₅ hscoped₅ hbody fun s₆ hb => ?_
  have hhome₆ : s₆.book.names.home = .function := by
    rw [hb.binds.names, ← (Block.le_names ..).home, Names.home_foldl_bind, hhome₅]
  obtain ⟨s₇, hexit⟩ := exists_exitFunction hhome₆
  refine .bind_ok ⟨(), s₇, hexit⟩ fun _ s₇ h₇ => ?_
  refine .bind (succeeds_emitPlain .leave rfl s₇) fun _ s₈ _ hw₈ => ?_
  have hdefines := Defines.of_parts hw₁.2 hw₂ h₃ h₄ h₅ hb h₇ hw₈ h.sound
  obtain ⟨s₉, hland⟩ := exists_land_since hdefines.advances hdefines.guard
  exact ⟨(), s₉, hland, hdefines.reads hland⟩

/-! ## Sequences of declarations -/

/-- Declarations do not go on here: there is neither `def` nor a name that denotes no function. -/
def EndsDeclarations (functions : List String) (ts : List Terminal) : Prop :=
  (∀ t ∈ ts.head?, t.kind ≠ .word .defWord) ∧
    ∀ x, ts.head? = some (.name x) → x ∈ functions

/-- Declarations do not go on at indentation. -/
theorem endsDeclarations_indent (functions : List String) (ts : List Terminal) :
    EndsDeclarations functions (.indent :: ts) :=
  ⟨by simp [Terminal.kind], by simp⟩

theorem succeeds_declarations_stop {functions : List String} (h : Ahead budget (reserve + 1) s behind)
    (hstop : EndsDeclarations functions behind) (hfunctions : s.book.functionNames = functions) :
    declarationsWithin budget s = .ok () s := by
  obtain ⟨budget, rfl, -⟩ := h.spend
  rw [declarationsWithin, bind_of_ok (current_ok s)]
  have hhead : behind.head? = some (.ofToken s.token) := by
    rw [← h.terminals]
    rfl
  have hdef := hstop.1 _ hhead
  rw [Terminal.kind_ofToken] at hdef
  cases hk : s.token.kind with
  | name =>
    rw [ofToken_eq_name hk] at hhead
    have hmem := hstop.2 _ hhead
    rw [← hfunctions] at hmem
    obtain ⟨n, hentry, -⟩ := exists_entry h.sound hmem
    have hread : Compilation.entry? s.token s = .ok (some (n : Int)) s := by
      rw [Compilation.entry?, hentry]
    simp only [bind_of_ok hread]
    rfl
  | word w =>
    cases w with
    | defWord => exact absurd hk hdef
    | _ => rfl
  | _ => rfl

/-- Of a declaration, what stands first decides which kind it is, and there an expression ends. -/
theorem endsExpression_of_declarationsReading {ds : List Declaration} {us : List Terminal}
    (h : DeclarationsReading ds us behind) (hbehind : EndsExpression behind) :
    EndsExpression (us ++ behind) := by
  cases h with
  | nil => exact hbehind
  | cons hd hds => cases hd <;> exact endsExpression_cons rfl rfl _

/-- Declarations that can be read of the terminals ahead are passed, and behind the last of them the
sequence goes on. -/
theorem declarations_front {ds : List Declaration} {ts : List Terminal} {budget reserve : Nat}
    {s : State} (hreading : DeclarationsReading ds ts behind)
    (h : Ahead budget (reserve + 1) s (ts ++ behind))
    (hscoped : DeclarationsScoped s.book.functionNames s.book.names ds)
    (hhome : s.book.names.home = .global) (hbehind : EndsExpression behind) :
    ∃ s', declarationsWithin budget s = declarationsWithin (budget - ds.length) s' ∧
      ReadsDeclarations s s' ds ts ∧ Ahead (budget - ds.length) 1 s' behind := by
  induction ds generalizing ts budget reserve s with
  | nil =>
    cases hreading
    exact ⟨s, rfl, .nil h.sound, h.mono (by omega)⟩
  | cons d ds ih =>
    cases hreading with
    | @cons _ _ ts us _ hd hds =>
      obtain ⟨hscopedFirst, hscopedRest⟩ := hscoped
      rw [List.append_assoc] at h
      obtain ⟨budget, rfl, hahead⟩ := h.spend
      have hends := endsExpression_of_declarationsReading hds hbehind
      -- the declarations after the first one
      have hrest : ∀ s₁, ReadsDeclaration s s₁ d ts →
          declarationsWithin (budget + 1) s = declarationsWithin budget s₁ →
          ∃ s', declarationsWithin (budget + 1) s =
              declarationsWithin (budget + 1 - (ds.length + 1)) s' ∧
            ReadsDeclarations s s' (d :: ds) (ts ++ us) ∧
            Ahead (budget + 1 - (ds.length + 1)) 1 s' behind := by
        intro s₁ hreads hrun
        have hpos := hreads.length_pos
        have hahead₁ : Ahead budget (0 + 1) s₁ (us ++ behind) :=
          (hahead.advances hreads.advances hreads.sound).mono (by omega)
        rw [← hreads.functionNames, ← hreads.names] at hscopedRest
        obtain ⟨s₂, hrun₂, hds', hahead₂⟩ :=
          ih hds hahead₁ hscopedRest (by rw [hreads.home, hhome])
        rw [Nat.add_sub_add_right]
        exact ⟨s₂, hrun.trans hrun₂, .cons hreads hds', hahead₂⟩
      cases hd with
      | assign x e =>
        obtain ⟨hk, rfl⟩ := name_of_ofToken h.ofToken
        have hnew : s.book.entry? s.token.lexeme = none := by
          rw [AddressBook.entry?, Option.map_eq_none_iff, Layer.find?_eq_none_iff]
          exact hscopedFirst.1
        have hread : Compilation.entry? s.token s = .ok none s := by
          rw [Compilation.entry?, hnew]
        obtain ⟨_, s₁, hvariable, hreads⟩ :=
          accepted_variable _ e (hahead.mono (by omega)) hscopedFirst hends
        refine hrest s₁ hreads ?_
        rw [declarationsWithin, bind_of_ok (current_ok s)]
        simp only [hk, bind_of_ok hread, Option.isNone_none, if_true]
        exact bind_of_ok hvariable
      | define hbody =>
        have hts := h
        rw [Declaration.header, List.cons_append, List.cons_append, List.cons_append] at hts
        obtain ⟨_, s₁, hfunction, hreads⟩ :=
          accepted_function (hahead.mono (by omega)) hscopedFirst hhome
            (acceptedBlock_of_statements (accepted_statements hbody hends))
        refine hrest s₁ hreads ?_
        rw [declarationsWithin, bind_of_ok (current_ok s), hts.kind_mark]
        exact bind_of_ok hfunction

/-- Declarations that can be read of the terminals ahead are read. -/
theorem accepted_declarations {ds : List Declaration} {ts : List Terminal} {budget reserve : Nat}
    {s : State} (hreading : DeclarationsReading ds ts behind)
    (h : Ahead budget (reserve + 1) s (ts ++ behind))
    (hscoped : DeclarationsScoped s.book.functionNames s.book.names ds)
    (hhome : s.book.names.home = .global) (hbehind : EndsExpression behind)
    (hstop : EndsDeclarations (functionsBehind s.book.functionNames ds) behind) :
    Succeeds (declarationsWithin budget) s fun _ s' => ReadsDeclarations s s' ds ts := by
  obtain ⟨s', hrun, hreads, hahead⟩ := declarations_front hreading h hscoped hhome hbehind
  exact ⟨(), s', hrun.trans (succeeds_declarations_stop hahead hstop hreads.functionNames), hreads⟩

/-! ## Programs -/

theorem exists_expectFinish (h : s.token.kind = .finish) (e : Expectation) :
    ∃ t, expect .finish e s = .ok t s := by
  refine ⟨s.token, ?_⟩
  unfold expect
  rw [bind_of_ok (current_ok s), if_pos h, bind_of_ok (advance_finish h)]
  rfl

/-- In front of the statements of a program the declarations end. -/
theorem endsDeclarations_of_reading {functions : List String} {b : Block} {ts : List Terminal}
    (hb : b.Reading .topLevel ts behind)
    (hdef : ts = [] → ∀ t ∈ behind.head?, t.kind ≠ .word .defWord)
    (hname : ∀ x, ts.head? = some (.name x) → x ∈ functions) :
    EndsDeclarations functions (ts ++ behind) := by
  cases hb with
  | @nil _ k _ _ hstop =>
    cases k with
    | zero =>
      refine ⟨hdef rfl, fun x hx => ?_⟩
      have hstarts := hstop (.inl rfl)
      rw [startsStatement, show behind.head? = some (.name x) from hx] at hstarts
      cases hstarts
    | succ k => exact endsDeclarations_indent functions _
  | @cons _ k st rest vs ws _ _ hs _ =>
    cases k with
    | zero =>
      obtain ⟨t, vs, rfl, ht⟩ := exists_head_reading hs
      have hdef : t.kind ≠ .word .defWord := by
        intro hk
        rw [hk] at ht
        exact absurd ht (by decide)
      exact ⟨by simpa [indents] using hdef, fun x hx => hname x (by simpa [indents] using hx)⟩
    | succ k => exact endsDeclarations_indent functions _

/-- Where a tree can be read of what stands ahead up to the end, it is read. -/
theorem accepted_program {source : Grammar.Source} {ts us : List Terminal}
    (hreading : source.Reading ts (.mark .finish :: us)) (hscoped : source.Scoped)
    (h : Ahead budget 3 s (ts ++ .mark .finish :: us)) (hbook : s.book = {}) (hlog : s.code = []) :
    Succeeds (programWithin budget) s fun p s' => ReadsSource s s' source ts p := by
  obtain ⟨ds, b⟩ := source
  obtain ⟨us₁, us₂, rfl, hds, hb, hname⟩ := hreading
  rw [List.append_assoc] at h
  have hends : EndsExpression (.mark .finish :: us) := endsExpression_cons rfl rfl us
  unfold programWithin
  refine .bind (succeeds_emitPlain .start rfl s) fun _ s₁ _ hw₁ => ?_
  have hahead₁ := h.stay hw₁
  have hbook₁ : s₁.book = {} := by rw [hw₁.book, hbook]
  refine .bind (accepted_declarations hds (hahead₁.mono (show 0 + 1 ≤ 3 by omega))
    (by rw [hbook₁]; exact hscoped.1) (by rw [hbook₁]; rfl) (endsExpression_of_reading hb hends)
    (by rw [hbook₁]; exact endsDeclarations_of_reading hb (by simp) hname)) fun _ s₂ _ hreads => ?_
  have hahead₂ : Ahead budget 3 s₂ (us₂ ++ .mark .finish :: us) :=
    (hahead₁.advances hreads.advances hreads.sound).mono (by omega)
  have hscoped₂ : b.Scoped s₂.book.functionNames s₂.book.names := by
    rw [hreads.functionNames, hreads.names, hbook₁]
    exact hscoped.2
  refine .bind (accepted_statements hb hends (j := 0) rfl hahead₂ (by simp) hscoped₂)
    fun _ s₃ _ hstatements => ?_
  have hfinish : s₃.token.kind = .finish :=
    (hahead₂.advances hstatements.advances hstatements.binds.sound).kind_mark
  obtain ⟨last, hexpect⟩ := exists_expectFinish hfinish .statementOrFinish
  refine .bind_ok ⟨last, s₃, hexpect⟩ fun _ s₄ h₄ => ?_
  obtain ⟨-, rfl⟩ := expectFinish_ok h₄
  refine .bind (succeeds_emitPlain .halt rfl s₄) fun _ s₅ _ hw₅ => ?_
  exact ⟨s₅.log.instructions, s₅, rfl,
    .of_parts hw₁ hreads hstatements hname hfinish hw₅ hbook hlog⟩

/-- A stream is accepted if a tree can be read of it up to its end, and the program is the code of the
tree. -/
theorem run_of_reading {source : Grammar.Source} {body : List Token} {last : Token}
    {rest : List Token}
    (hreading : source.Reading (body.map Terminal.ofToken) ((last :: rest).map Terminal.ofToken))
    (hlast : last.kind = .finish) (hscoped : source.Scoped) :
    ∃ p, (run (body ++ last :: rest) {} {}).1 = .ok p ∧ p.toList = source.code := by
  rw [List.map_cons, ofToken_eq_mark hlast (by simp) (by simp)] at hreading
  obtain ⟨first, upcoming, htokens⟩ : ∃ t ts, body ++ last :: rest = t :: ts := by
    cases body with
    | nil => exact ⟨_, _, rfl⟩
    | cons t ts => exact ⟨_, _, rfl⟩
  set s : State := ⟨first, upcoming, {}, {}⟩ with hs
  have hahead : Ahead s.budget 3 s
      (body.map Terminal.ofToken ++ .mark .finish :: rest.map Terminal.ofToken) := by
    have htokens' : s.tokens = body ++ last :: rest := htokens.symm
    refine ⟨⟨⟨last, by rw [htokens']; simp, hlast⟩, by simp [State.budget]; omega⟩,
      AddressBook.sound_empty, ?_⟩
    rw [State.terminals, htokens', List.map_append, List.map_cons,
      ofToken_eq_mark hlast (by simp) (by simp)]
  obtain ⟨p, s', hrun, hsource⟩ := accepted_program hreading hscoped hahead rfl rfl
  refine ⟨p, ?_, hsource.code⟩
  have hprogram : program ⟨first, upcoming, {}, {}⟩ = .ok p s' := hrun
  simp only [htokens, run, hprogram]

end StackPrimer.Compilation

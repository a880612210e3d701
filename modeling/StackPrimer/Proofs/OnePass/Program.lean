import StackPrimer.Proofs.Grammar.Linking
import StackPrimer.Proofs.OnePass.Statement
import StackPrimer.Proofs.OnePass.Success

/-!
# Programs in one pass

A stream of tokens that is compiled spells a tree, and the program that comes out is the code of that
tree: patching jumps in one pass is the same as counting the sizes of all parts beforehand.

Results:
* `run_ok`: the program that is compiled is the code of a tree that the stream spells.
-/

namespace StackPrimer

namespace Compilation

open Grammar

variable {s s' : State}

/-! ## Declarations of variables -/

/-- From one state to the other, this declaration has been passed, written as these terminals, and
its code been written. -/
structure ReadsDeclaration (s s' : State) (d : Declaration) (ts : List Terminal) : Prop where
  reading : d.Reading ts s'.terminals
  wellScoped : d.Scoped s.book.functionNames s.book.names
  advances : Advances s s' ts (d.code s.book.entries s.book.names s.code.length)
  names : s'.book.names = d.names s.book.names
  functionNames : s'.book.functionNames = d.functions s.book.functionNames
  entries : s'.book.entries = d.entries s.book.entries s.code.length
  sound : s'.book.Sound

theorem ReadsDeclaration.assign {s₁ s₂ s₃ s₄ : State} {t : Token} {e : Expression}
    (h₁ : Writes s s₁ [.name t.lexeme] []) (h₂ : declare t s₁ = .ok () s₂)
    (h₃ : Writes s₂ s₃ [.sign .assign] []) (he : Reads s₃ s₄ e)
    (h₄ : Writes s₄ s' [] [s₄.book.names.store t.lexeme])
    (hnew : t.lexeme ∉ s.book.functionNames) (hs : s.book.Sound) :
    ReadsDeclaration s s' (.assign t.lexeme e) (Declaration.assign t.lexeme e).terminals := by
  obtain ⟨hadv₂, hbind₂⟩ := declare_ok h₂ (h₁.sound hs)
  rw [h₁.names] at hbind₂
  have hbind₃ := hbind₂.writes h₃
  obtain ⟨hscoped, hwe⟩ := he
  rw [hbind₃.names] at hscoped hwe
  have hbind₄ := hbind₃.writes hwe
  rw [hbind₄.names] at h₄
  have hbind := (h₁.binds hs).trans (hbind₄.writes h₄)
  refine ⟨.assign t.lexeme e _, ⟨hnew, hscoped⟩, ?_, hbind.names, hbind.functionNames,
    hbind.entries, hbind.sound⟩
  simpa [Declaration.terminals, Declaration.header, Declaration.code] using
    (((h₁.toAdvances.trans hadv₂).trans h₃.toAdvances).trans hwe.toAdvances).trans h₄.toAdvances

theorem variableDeclarationWithin_ok {budget : Nat}
    (h : variableDeclarationWithin budget s = .ok () s')
    (hnew : (s.book.entry? s.token.lexeme).isNone) (hs : s.book.Sound) :
    ∃ d ts, ReadsDeclaration s s' d ts := by
  unfold variableDeclarationWithin at h
  simp only [bind_eq_ok, currentKind_eq_ok] at h
  obtain ⟨name, s₁, h₁, _, _, ⟨rfl, rfl⟩, h⟩ := h
  obtain ⟨rfl, hk, -⟩ := expect_ok h₁ (by simp)
  have hw₁ := expectName_ok h₁
  split at h
  · simp only [bind_eq_ok] at h
    obtain ⟨_, s₂, h₂, -⟩ := h
    exact absurd h₂ throw_ne_ok
  · simp only [bind_eq_ok] at h
    obtain ⟨_, s₂, h₂, _, s₃, h₃, _, s₄, h₄, h₅⟩ := h
    have hbind₂ := (declare_ok h₂ (hw₁.sound hs)).2
    have hw₃ := expectSign_ok h₃
    obtain ⟨e, he⟩ := expressionWithin_ok h₄ (hw₃.sound hbind₂.sound)
    have hscope : s₄.book.names.scope? s.token.lexeme = some s₄.book.names.home := by
      rw [(hw₃.trans he.writes).names, hbind₂.names, Names.home_bind]
      exact Names.scope?_bind ..
    have hw₅ := store_ok h₅ (he.writes.sound (hw₃.sound hbind₂.sound)) hscope
    have hmem : s.token.lexeme ∉ s.book.functionNames := by
      rw [AddressBook.entry?, Option.isNone_map, Option.isNone_iff_eq_none] at hnew
      exact (Layer.find?_eq_none_iff _ _).mp hnew
    exact ⟨_, _, .assign hw₁ h₂ hw₃ he hw₅ hmem hs⟩

/-! ## Parameters -/

/-- The addresses of names in the scope in which new names are bound. -/
def homeAddresses (n : Names) (xs : List String) : List Int :=
  xs.map fun x => (n.address n.home x : Int)

/-- A parameter that is added has the address that it has among all parameters. -/
theorem addParameter_ok {t : Token} {address : Int} (h : addVariable t s = .ok address s')
    (hs : s.book.Sound) :
    Advances s s' [] [] ∧ Binds s s' (s.book.names.bind t.lexeme) ∧
      ∀ rest : List String, address = ((rest.foldl Names.bind (s.book.names.bind t.lexeme)).address
        s.book.names.home t.lexeme : Int) := by
  obtain ⟨hadv, hadd⟩ := addVariable_ok h hs
  refine ⟨hadv, ⟨hadd.names, hadd.functions, hadd.sound⟩, ?_⟩
  intro rest
  rw [hadd.address, Names.address_of_le (Names.le_foldl_bind _ rest) (Names.mem_bind ..)]

/-- From one state to the other, these parameters have been passed, written as these terminals. Their
addresses stand in front of those known before, the last one first. -/
structure ReadsParameters (s s' : State) (parameters : List String) (ts : List Terminal)
    (before addresses : List Int) : Prop where
  advances : Advances s s' ts []
  binds : Binds s s' (parameters.foldl Names.bind s.book.names)
  addresses : addresses = homeAddresses s'.book.names parameters.reverse ++ before

namespace ReadsParameters

variable {before addresses : List Int}

theorem nil (hs : s.book.Sound) (before : List Int) : ReadsParameters s s [] [] before before :=
  ⟨.refl s, .refl hs, by simp [homeAddresses]⟩

theorem cons {s₁ s₂ : State} {t : Token} {address : Int} {rest : List String}
    {ts us : List Terminal} (hw : Writes s s₁ ts []) (h : addVariable t s₁ = .ok address s₂)
    (hrest : ReadsParameters s₂ s' rest us (address :: before) addresses) (hs : s.book.Sound) :
    ReadsParameters s s' (t.lexeme :: rest) (ts ++ us) before addresses := by
  obtain ⟨hadv₂, hbind₂, haddress⟩ := addParameter_ok h (hw.sound hs)
  rw [hw.names] at hbind₂ haddress
  have hbind := hrest.binds
  rw [hbind₂.names] at hbind
  refine ⟨?_, ((hw.binds hs).trans hbind₂).trans hbind, ?_⟩
  · simpa using (hw.toAdvances.trans hadv₂).trans hrest.advances
  · have hhome : s'.book.names.home = s.book.names.home := by
      rw [hbind.names, Names.home_foldl_bind, Names.home_bind]
    rw [hrest.addresses, haddress rest, ← hbind.names, ← hhome]
    simp [homeAddresses]

end ReadsParameters

theorem moreParametersWithin_ok {budget : Nat} {before addresses : List Int}
    (h : moreParametersWithin budget before s = .ok addresses s') (hs : s.book.Sound) :
    ∃ parameters : List String, ReadsParameters s s' parameters
      (parameters.flatMap fun x => [.sign .comma, .name x]) before addresses := by
  induction budget generalizing s before with
  | zero => exact absurd h throw_ne_ok
  | succ budget ih =>
    rw [moreParametersWithin] at h
    simp only [bind_eq_ok, currentKind_eq_ok] at h
    obtain ⟨_, _, ⟨rfl, rfl⟩, h⟩ := h
    split at h
    · rename_i hk
      simp only [bind_eq_ok] at h
      obtain ⟨_, s₁, h₁, name, s₂, h₂, address, s₃, h₃, h₄⟩ := h
      have hw := (advance_mark h₁ hk (by simp) (by simp) (by simp)).trans (expectName_ok h₂)
      have hbind₃ := (addParameter_ok h₃ (hw.sound hs)).2.1
      obtain ⟨rest, hrest⟩ := ih h₄ hbind₃.sound
      exact ⟨name.lexeme :: rest, .cons hw h₃ hrest hs⟩
    · obtain ⟨rfl, rfl⟩ := pure_eq_ok.mp h
      exact ⟨[], .nil hs before⟩

theorem parametersWithin_ok {budget : Nat} {addresses : List Int}
    (h : parametersWithin budget s = .ok addresses s') (hs : s.book.Sound) :
    ∃ parameters : List String, ReadsParameters s s' parameters
      (Terminal.commaSeparated (parameters.map fun x => [.name x])) [] addresses := by
  unfold parametersWithin at h
  simp only [bind_eq_ok, currentKind_eq_ok] at h
  obtain ⟨_, _, ⟨rfl, rfl⟩, h⟩ := h
  split at h
  · simp only [bind_eq_ok] at h
    obtain ⟨name, s₁, h₁, address, s₂, h₂, h₃⟩ := h
    have hw := expectName_ok h₁
    have hbind₂ := (addParameter_ok h₂ (hw.sound hs)).2.1
    obtain ⟨rest, hrest⟩ := moreParametersWithin_ok h₃ hbind₂.sound
    refine ⟨name.lexeme :: rest, ?_⟩
    have hall := ReadsParameters.cons hw h₂ hrest hs
    simpa [Terminal.commaSeparated, List.flatMap_map] using hall
  · obtain ⟨rfl, rfl⟩ := pure_eq_ok.mp h
    exact ⟨[], .nil hs []⟩

theorem storeAll_ok {addresses : List Int} (h : storeAll addresses s = .ok () s') :
    Writes s s' [] (addresses.map fun a => .of .storeLocal (some (.int a))) := by
  induction addresses generalizing s with
  | nil =>
    obtain ⟨-, rfl⟩ := pure_eq_ok.mp h
    exact .refl s
  | cons address rest ih =>
    simp only [storeAll, bind_eq_ok] at h
    obtain ⟨_, s₁, h₁, h₂⟩ := h
    simpa using (emitInt_ok h₁).2.trans (ih h₂)

theorem exists_storeAll (addresses : List Int) (s : State) :
    ∃ s', storeAll addresses s = .ok () s' := by
  induction addresses generalizing s with
  | nil => exact ⟨s, rfl⟩
  | cons address rest ih =>
    obtain ⟨a, s₁, hemit⟩ := exists_emitInt .storeLocal rfl address s
    obtain ⟨s', hrest⟩ := ih s₁
    refine ⟨s', ?_⟩
    rw [storeAll, bind_of_ok hemit]
    exact hrest

/-- Inside a function the addresses of parameters are those of its own variables. -/
theorem stores_homeAddresses {n : Names} (hn : n.home = .function) (parameters : List String) :
    ((homeAddresses n parameters.reverse).map fun a => .of .storeLocal (some (.int a))) =
      parametersCode n parameters := by
  simp [homeAddresses, parametersCode, hn, withInt]

/-! ## Declarations of functions -/

theorem addFunction_ok {t : Token} (h : addFunction t s = .ok () s') (hs : s.book.Sound) :
    t.lexeme ∉ s.book.functionNames ∧ Advances s s' [] [] ∧ s'.book.names = s.book.names ∧
      s'.book.functionNames = s.book.functionNames ++ [t.lexeme] ∧
      s'.book.entries =
        (fun g => if g = t.lexeme then some s.code.length else s.book.entries g) ∧
      s'.book.Sound := by
  unfold addFunction at h
  split at h
  · rename_i book heq
    cases h
    obtain ⟨hnew, hnames, hfunctions, hentries, hsound, -⟩ := AddressBook.addFunction_ok hs heq
    rw [State.size_log] at hentries
    exact ⟨hnew, ⟨⟨[], rfl, rfl, by simp⟩, by simp [State.code]⟩, hnames, hfunctions, hentries,
      hsound⟩
  · cases h
  · cases h

theorem enterFunction_ok (h : enterFunction s = .ok () s') (hs : s.book.Sound) :
    s.book.names.home = .global ∧ Advances s s' [] [] ∧
      Binds s s' { s.book.names with locals := some [] } := by
  unfold enterFunction at h
  split at h
  · rename_i book heq
    cases h
    obtain ⟨hhome, hnames, hfunctions, hsound⟩ := AddressBook.enter_ok hs heq
    exact ⟨hhome, ⟨⟨[], rfl, rfl, by simp⟩, by simp [State.code]⟩, ⟨hnames, hfunctions, hsound⟩⟩
  · cases h

/-- A function begins: its name is known, and it has no variables yet. -/
theorem open_ok {s₁ : State} {t : Token} (h₁ : addFunction t s = .ok () s₁)
    (h₂ : enterFunction s₁ = .ok () s') (hs : s.book.Sound) :
    t.lexeme ∉ s.book.functionNames ∧ s.book.names.home = .global ∧ Advances s s' [] [] ∧
      s'.book.names = { s.book.names with locals := some [] } ∧
      s'.book.functionNames = s.book.functionNames ++ [t.lexeme] ∧
      s'.book.entries =
        (fun g => if g = t.lexeme then some s.code.length else s.book.entries g) ∧
      s'.book.Sound := by
  obtain ⟨hnew, hadv₁, hnames₁, hfunctions₁, hentries₁, hsound₁⟩ := addFunction_ok h₁ hs
  obtain ⟨hhome, hadv₂, hbind₂⟩ := enterFunction_ok h₂ hsound₁
  rw [hnames₁] at hhome hbind₂
  exact ⟨hnew, hhome, hadv₁.trans hadv₂, hbind₂.names, hbind₂.functionNames.trans hfunctions₁,
    hbind₂.entries.trans hentries₁, hbind₂.sound⟩

theorem exitFunction_ok (h : exitFunction s = .ok () s') (hs : s.book.Sound) :
    Advances s s' [] [] ∧ Binds s s' { s.book.names with locals := none } := by
  unfold exitFunction at h
  split at h
  · rename_i book heq
    cases h
    obtain ⟨hnames, hfunctions, hsound⟩ := AddressBook.exit_ok hs heq
    exact ⟨⟨⟨[], rfl, rfl, by simp⟩, by simp [State.code]⟩, ⟨hnames, hfunctions, hsound⟩⟩
  · cases h

/-- From one state to the other, the parameters and the block of a function have been passed. -/
structure ReadsBody (s s' : State) (parameters : List String) (body : Block)
    (ts : List Terminal) : Prop where
  reading : body.Reading .block (.indent :: ts) s'.terminals
  wellScoped : body.Scoped s.book.functionNames (parameters.foldl Names.bind s.book.names)
  advances : Advances s s'
    (.sign .opening :: Terminal.commaSeparated (parameters.map fun x => [.name x]) ++
      [.sign .closing, .sign .colon] ++ .indent :: ts)
    (plain .enter :: parametersCode (parameters.foldl Names.bind s.book.names) parameters ++
      body.code s.book.entries (parameters.foldl Names.bind s.book.names)
        (s.code.length + 1 + parameters.length))
  binds : Binds s s' (body.names (parameters.foldl Names.bind s.book.names))

theorem ReadsBody.of_parts {s₁ s₂ s₃ s₄ s₅ s₆ : State} {addresses : List Int}
    {parameters : List String} {body : Block} {ts : List Terminal}
    (h₁ : Writes s s₁ [] [plain .enter]) (h₂ : Writes s₁ s₂ [.sign .opening] [])
    (h₃ : ReadsParameters s₂ s₃ parameters
      (Terminal.commaSeparated (parameters.map fun x => [.name x])) [] addresses)
    (h₄ : Writes s₃ s₄ [.sign .closing] []) (h₅ : Writes s₄ s₅ [.sign .colon] [])
    (h₆ : storeAll addresses s₅ = .ok () s₆) (hb : ReadsBlock .block 0 s₆ s' body (.indent :: ts))
    (hs : s.book.Sound) (hhome : s.book.names.home = .function) :
    ReadsBody s s' parameters body ts := by
  have hw₂ := h₁.trans h₂
  have hw₅ := h₄.trans h₅
  have hbind₃ := h₃.binds
  rw [hw₂.names] at hbind₃
  have hhome' : (parameters.foldl Names.bind s.book.names).home = .function := by
    rw [Names.home_foldl_bind, hhome]
  have hw₆ := storeAll_ok h₆
  rw [h₃.addresses, hbind₃.names, List.append_nil, stores_homeAddresses hhome'] at hw₆
  have hbind₆ := ((hw₂.binds hs).trans hbind₃).writes (hw₅.trans hw₆)
  have hadv₆ := (hw₂.toAdvances.trans h₃.advances).trans (hw₅.trans hw₆).toAdvances
  have hlength : s₆.code.length = s.code.length + 1 + parameters.length := by
    simpa [parametersCode, Nat.add_assoc, Nat.add_comm 1] using hadv₆.length_code
  have hscoped := hb.wellScoped
  have hadv := hb.advances
  have hbind := hbind₆.trans hb.binds
  rw [hbind₆.functionNames, hbind₆.names] at hscoped
  rw [hlength, hbind₆.entries, hbind₆.names] at hadv
  rw [hbind₆.names] at hbind
  refine ⟨hb.reading, hscoped, ?_, hbind⟩
  simpa using hadv₆.trans hadv

theorem body_ok {budget : Nat} {s₁ s₂ s₃ s₄ s₅ s₆ : State} {addresses : List Int}
    (h₁ : emitPlain .enter s = .ok () s₁) (h₂ : expectSign .opening s₁ = .ok () s₂)
    (h₃ : parametersWithin budget s₂ = .ok addresses s₃) (h₄ : expectSign .closing s₃ = .ok () s₄)
    (h₅ : expectSign .colon s₄ = .ok () s₅) (h₆ : storeAll addresses s₅ = .ok () s₆)
    (h₇ : blockWithin budget s₆ = .ok () s') (hs : s.book.Sound)
    (hhome : s.book.names.home = .function) :
    ∃ parameters body ts, ReadsBody s s' parameters body ts := by
  have hw₁ := emitPlain_ok h₁
  have hw₂ := expectSign_ok h₂
  have hw₄ := expectSign_ok h₄
  have hw₅ := expectSign_ok h₅
  obtain ⟨parameters, hparameters⟩ := parametersWithin_ok h₃ (hw₂.sound (hw₁.sound hs))
  have hs₆ := (storeAll_ok h₆).sound (hw₅.sound (hw₄.sound hparameters.binds.sound))
  obtain ⟨body, ts, hb⟩ := (statementsRead budget).block hs₆ h₇
  exact ⟨parameters, body, ts, .of_parts hw₁ hw₂ hparameters hw₄ hw₅ h₆ hb hs hhome⟩

/-- From one state to the other, a function has been passed. The jump around it, which is at the
address `guard`, has not landed yet. -/
structure Defines (guard : Int) (s s' : State) (f : String) (parameters : List String)
    (body : Block) (ts : List Terminal) : Prop where
  reading : body.Reading .block (.indent :: ts) s'.terminals
  wellScoped : (Declaration.define f parameters body).Scoped s.book.functionNames s.book.names
  guard : guard = s.code.length
  advances : Advances s s' ((Declaration.define f parameters body).header ++ .indent :: ts)
    ([] ++ .of .jump (some (.int 0)) :: (plain .enter ::
      parametersCode (s.book.names.enter parameters) parameters ++
        body.code ((Declaration.define f parameters body).entries s.book.entries s.code.length)
          (s.book.names.enter parameters) (s.code.length + 2 + parameters.length) ++
        [plain .leave]))
  names : s'.book.names = s.book.names
  functionNames : s'.book.functionNames = s.book.functionNames ++ [f]
  entries : s'.book.entries =
    (Declaration.define f parameters body).entries s.book.entries s.code.length
  sound : s'.book.Sound

theorem Defines.of_parts {s₁ s₂ s₃ s₄ s₅ s₆ s₇ : State} {name : Token} {guard : Int}
    {parameters : List String} {body : Block} {ts : List Terminal}
    (h₁ : Writes s s₁ [.word .defWord] []) (h₂ : Writes s₁ s₂ [.name name.lexeme] [])
    (h₃ : emitInt .jump 0 s₂ = .ok guard s₃) (h₄ : addFunction name s₃ = .ok () s₄)
    (h₅ : enterFunction s₄ = .ok () s₅) (hb : ReadsBody s₅ s₆ parameters body ts)
    (h₆ : exitFunction s₆ = .ok () s₇) (h₇ : Writes s₇ s' [] [plain .leave])
    (hs : s.book.Sound) : Defines guard s s' name.lexeme parameters body ts := by
  have hw₂ := h₁.trans h₂
  obtain ⟨hguard, hw₃'⟩ := emitInt_ok h₃
  have hw₃ := hw₂.trans hw₃'
  have hlength₂ : s₂.code.length = s.code.length := by simpa using hw₂.length_code
  have hlength₃ : s₃.code.length = s.code.length + 1 := by simpa using hw₃.length_code
  obtain ⟨hnew, hhome, hadv₅, hnames₅, hfunctions₅, hentries₅, hsound₅⟩ :=
    open_ok h₄ h₅ (hw₃.sound hs)
  rw [hw₃.book] at hnew hhome hnames₅ hfunctions₅ hentries₅
  rw [hlength₃] at hentries₅
  have hlength₅ : s₅.code.length = s.code.length + 1 := by
    simpa [hlength₃] using hadv₅.length_code
  obtain ⟨hadv₇, hbind₇⟩ := exitFunction_ok h₆ hb.binds.sound
  have henter : parameters.foldl Names.bind s₅.book.names = s.book.names.enter parameters := by
    rw [hnames₅, Names.enter]
  have hscoped := hb.wellScoped
  have hadv := hb.advances
  have hbind := (hb.binds.trans hbind₇).writes h₇
  rw [henter, hfunctions₅] at hscoped
  rw [henter, hentries₅, hlength₅] at hadv
  rw [hb.binds.names, henter, Names.leave_enter hhome] at hbind
  refine ⟨?_, ⟨hnew, hscoped⟩, by rw [hguard, hlength₂], ?_, hbind.names, ?_, ?_, hbind.sound⟩
  · rw [terminals_of_tokens (h₇.tokens_eq.trans hadv₇.tokens_eq)]
    exact hb.reading
  · simpa [Declaration.header, Declaration.entries] using
      (hw₃.toAdvances.trans hadv₅).trans ((hadv.trans hadv₇).trans h₇.toAdvances)
  · rw [hbind.functionNames, hfunctions₅]
  · rw [hbind.entries, hentries₅]
    rfl

/-- The jump around a function lands behind it. -/
theorem Defines.reads {s₁ : State} {f : String} {guard : Int} {parameters : List String}
    {body : Block} {ts : List Terminal} (hd : Defines guard s s₁ f parameters body ts)
    (h : land guard s₁ = .ok () s') :
    ReadsDeclaration s s' (.define f parameters body)
      ((Declaration.define f parameters body).header ++ .indent :: ts) := by
  have hall := hd.advances
  set d : Declaration := .define f parameters body with hd'
  set n := s.book.names.enter parameters
  set block := body.code (d.entries s.book.entries s.code.length) n
    (s.code.length + 2 + parameters.length) with hblock
  obtain ⟨hadv, htokens, hbook⟩ := hall.land
    (s.code.length + 2 + parameters.length + block.length + 1) h (by simp [hd.guard])
    (by simp [parametersCode]; omega)
  have hreading : d.Reading (d.header ++ .indent :: ts) s₁.terminals := .define hd.reading
  rw [← terminals_of_tokens htokens] at hreading
  refine ⟨hreading, hd.wellScoped, ?_, ?_, ?_, ?_, ?_⟩
  · simpa [Declaration.code, hd', hblock, parametersCode, Nat.add_assoc] using hadv
  · rw [hbook, hd.names]
    rfl
  · rw [hbook, hd.functionNames]
    rfl
  · rw [hbook, hd.entries]
  · rw [hbook]
    exact hd.sound

theorem functionDeclarationWithin_ok {budget : Nat}
    (h : functionDeclarationWithin budget s = .ok () s') (hs : s.book.Sound) :
    ∃ d ts, ReadsDeclaration s s' d ts := by
  unfold functionDeclarationWithin at h
  simp only [bind_eq_ok] at h
  obtain ⟨_, s₁, h₁, name, s₂, h₂, guard, s₃, h₃, _, s₄, h₄, _, s₅, h₅, _, s₆, h₆, _, s₇, h₇,
    addresses, s₈, h₈, _, s₉, h₉, _, s₁₀, h₁₀, _, s₁₁, h₁₁, _, s₁₂, h₁₂, _, s₁₃, h₁₃,
    _, s₁₄, h₁₄, h⟩ := h
  have hw₁ := expectWord_ok h₁
  have hw₂ := expectName_ok h₂
  have hw₃ := (emitInt_ok h₃).2
  obtain ⟨-, -, -, hnames₅, -, -, hsound₅⟩ := open_ok h₄ h₅ (hw₃.sound (hw₂.sound (hw₁.sound hs)))
  obtain ⟨parameters, body, ts, hb⟩ := body_ok h₆ h₇ h₈ h₉ h₁₀ h₁₁ h₁₂ hsound₅ (by rw [hnames₅]; rfl)
  have hdefines := Defines.of_parts hw₁ hw₂ h₃ h₄ h₅ hb h₁₃ (emitPlain_ok h₁₄) hs
  exact ⟨_, _, hdefines.reads h⟩

/-! ## Sequences of declarations -/

theorem ReadsDeclaration.length_pos {d : Declaration} {ts : List Terminal}
    (h : ReadsDeclaration s s' d ts) : 0 < ts.length := by
  cases h.reading <;> simp [Declaration.terminals, Declaration.header]

/-- Behind a declaration, names are bound as before it outside of functions. -/
theorem ReadsDeclaration.home {d : Declaration} {ts : List Terminal}
    (h : ReadsDeclaration s s' d ts) : s'.book.names.home = s.book.names.home := by
  rw [h.names]
  cases d with
  | assign x e => exact Names.home_bind ..
  | define f parameters body => rfl

/-- From one state to the other, these declarations have been passed. -/
structure ReadsDeclarations (s s' : State) (ds : List Declaration) (ts : List Terminal) : Prop where
  reading : DeclarationsReading ds ts s'.terminals
  wellScoped : DeclarationsScoped s.book.functionNames s.book.names ds
  advances : Advances s s' ts (declarationsCode s.book.entries s.book.names s.code.length ds)
  names : s'.book.names = namesBehind s.book.names ds
  functionNames : s'.book.functionNames = functionsBehind s.book.functionNames ds
  entries : s'.book.entries = entriesBehind s.book.entries s.book.names s.code.length ds
  sound : s'.book.Sound

namespace ReadsDeclarations

theorem nil (hs : s.book.Sound) : ReadsDeclarations s s [] [] where
  reading := .nil
  wellScoped := trivial
  advances := .refl s
  names := rfl
  functionNames := rfl
  entries := rfl
  sound := hs

theorem cons {s₁ : State} {d : Declaration} {ds : List Declaration} {ts us : List Terminal}
    (hd : ReadsDeclaration s s₁ d ts) (hds : ReadsDeclarations s₁ s' ds us) :
    ReadsDeclarations s s' (d :: ds) (ts ++ us) where
  reading := by
    have h := hd.reading
    rw [hds.advances.terminals] at h
    exact .cons h hds.reading
  wellScoped := by
    have h := hds.wellScoped
    rw [hd.functionNames, hd.names] at h
    exact ⟨hd.wellScoped, h⟩
  advances := by
    have h := hds.advances
    rw [hd.entries, hd.names, hd.advances.length_code] at h
    exact hd.advances.trans h
  names := by
    rw [hds.names, hd.names]
    rfl
  functionNames := by
    rw [hds.functionNames, hd.functionNames]
    rfl
  entries := by
    rw [hds.entries, hd.entries, hd.names, hd.advances.length_code]
    rfl
  sound := hds.sound

end ReadsDeclarations

/-- Declarations go on up to what is neither `def` nor a name that denotes no function. -/
theorem declarationsWithin_ok {budget : Nat} (h : declarationsWithin budget s = .ok () s')
    (hs : s.book.Sound) :
    (∃ ds ts, ReadsDeclarations s s' ds ts) ∧ s'.token.kind ≠ .word .defWord ∧
      (s'.token.kind = .name → s'.token.lexeme ∈ s'.book.functionNames) := by
  induction budget generalizing s with
  | zero => exact absurd h throw_ne_ok
  | succ budget ih =>
    rw [declarationsWithin] at h
    simp only [bind_eq_ok, current_eq_ok] at h
    obtain ⟨_, _, ⟨rfl, rfl⟩, h⟩ := h
    -- a declaration in front of the others
    have hcons : ∀ {s₁ d ts}, ReadsDeclaration s s₁ d ts → declarationsWithin budget s₁ = .ok () s' →
        (∃ ds ts, ReadsDeclarations s s' ds ts) ∧ s'.token.kind ≠ .word .defWord ∧
          (s'.token.kind = .name → s'.token.lexeme ∈ s'.book.functionNames) := by
      intro s₁ d ts hd h₁
      obtain ⟨⟨ds, us, hds⟩, hstop⟩ := ih h₁ hd.sound
      exact ⟨⟨d :: ds, ts ++ us, .cons hd hds⟩, hstop⟩
    cases hk : s.token.kind with
    | name =>
      rw [hk] at h
      simp only [bind_eq_ok, entry?_eq_ok] at h
      obtain ⟨_, _, ⟨rfl, rfl⟩, h⟩ := h
      split at h
      · rename_i hnew
        simp only [bind_eq_ok] at h
        obtain ⟨_, s₁, h₁, h₂⟩ := h
        obtain ⟨d, ts, hd⟩ := variableDeclarationWithin_ok h₁ hnew hs
        exact hcons hd h₂
      · rename_i hold
        obtain ⟨-, rfl⟩ := pure_eq_ok.mp h
        refine ⟨⟨[], [], .nil hs⟩, by simp [hk], fun _ => ?_⟩
        by_contra hmem
        exact hold (by rw [AddressBook.entry?, (Layer.find?_eq_none_iff _ _).mpr hmem]; rfl)
    | word w =>
      rw [hk] at h
      by_cases hw : w = .defWord
      · subst hw
        simp only [bind_eq_ok] at h
        obtain ⟨_, s₁, h₁, h₂⟩ := h
        obtain ⟨d, ts, hd⟩ := functionDeclarationWithin_ok h₁ hs
        exact hcons hd h₂
      · have hdone : (() = () ∧ s = s') := by
          cases w <;> first | exact absurd rfl hw | exact pure_eq_ok.mp h
        obtain ⟨-, rfl⟩ := hdone
        exact ⟨⟨[], [], .nil hs⟩, by simpa [hk] using hw, by simp [hk]⟩
    | _ =>
      rw [hk] at h
      obtain ⟨-, rfl⟩ := pure_eq_ok.mp h
      exact ⟨⟨[], [], .nil hs⟩, by simp [hk], by simp [hk]⟩

/-! ## Programs -/

/-- The end is looked at and not passed. -/
theorem expectFinish_ok {t : Token} {e : Expectation} (h : expect .finish e s = .ok t s') :
    s.token.kind = .finish ∧ s' = s := by
  unfold expect at h
  simp only [bind_eq_ok, current_eq_ok] at h
  obtain ⟨_, _, ⟨rfl, rfl⟩, h⟩ := h
  split at h
  · rename_i hk
    simp only [bind_eq_ok, pure_eq_ok] at h
    obtain ⟨_, s₁, h, -, rfl⟩ := h
    rw [advance_finish hk] at h
    cases h
    exact ⟨hk, rfl⟩
  · exact absurd h throw_ne_ok

/-- From one state to the other, this tree has been passed and its code been written, from the start
of a program to its end. -/
structure ReadsSource (s s' : State) (source : Grammar.Source) (ts : List Terminal)
    (p : Program) : Prop where
  reading : source.Reading ts s'.terminals
  wellScoped : source.Scoped
  advances : Advances s s' ts source.code
  finish : s'.token.kind = .finish
  code : p.toList = source.code
  names : s'.book.names =
    source.statements.names (namesBehind {} source.declarations)
  sound : s'.book.Sound

theorem ReadsSource.of_parts {s₁ s₂ s₃ : State} {ds : List Declaration} {b : Block}
    {ts us : List Terminal} (h₁ : Writes s s₁ [] [plain .start])
    (hds : ReadsDeclarations s₁ s₂ ds ts) (hb : ReadsBlock .topLevel 0 s₂ s₃ b us)
    (hname : ∀ x, us.head? = some (.name x) → x ∈ functionsBehind [] ds)
    (hfinish : s₃.token.kind = .finish) (h₂ : Writes s₃ s' [] [plain .halt])
    (hbook : s.book = {}) (hlog : s.code = []) :
    ReadsSource s s' ⟨ds, b⟩ (ts ++ us) s'.log.instructions := by
  have hlength₁ : s₁.code.length = 1 := by simpa [hlog] using h₁.length_code
  have hdsReading := hds.reading
  rw [hb.advances.terminals] at hdsReading
  have hall := ((h₁.toAdvances.trans hds.advances).trans hb.advances).trans h₂.toAdvances
  have hscoped := And.intro hds.wellScoped hb.wellScoped
  rw [hds.names, hds.functionNames, h₁.book, hbook] at hscoped
  rw [hds.advances.length_code, hds.names, hds.entries, hlength₁, h₁.book, hbook] at hall
  have hadv : Advances s s' (ts ++ us) (Grammar.Source.code ⟨ds, b⟩) := by
    rw [List.append_nil] at hall
    exact hall
  have hbinds := hb.binds.writes h₂
  refine ⟨⟨ts, us, rfl, ?_, ?_, hname⟩, hscoped, hadv, ?_, ?_, ?_, hbinds.sound⟩
  · rw [terminals_of_tokens h₂.tokens_eq]
    exact hdsReading
  · rw [terminals_of_tokens h₂.tokens_eq]
    simpa using hb.reading
  · rw [h₂.token_eq]
    exact hfinish
  · rw [← hadv.code_of_nil hlog]
    rfl
  · rw [hbinds.names, hds.names, h₁.book, hbook]
    rfl

theorem programWithin_ok {budget : Nat} {p : Program} (h : programWithin budget s = .ok p s')
    (hbook : s.book = {}) (hlog : s.code = []) : ∃ source ts, ReadsSource s s' source ts p := by
  unfold programWithin at h
  simp only [bind_eq_ok] at h
  obtain ⟨_, s₁, h₁, _, s₂, h₂, _, s₃, h₃, last, s₄, h₄, h⟩ := h
  obtain ⟨_, s₅, h₅, h₆⟩ := bind_eq_ok.mp h
  have hs : s.book.Sound := by
    rw [hbook]
    exact AddressBook.sound_empty
  have hw₁ := emitPlain_ok h₁
  obtain ⟨⟨ds, ts, hds⟩, -, hname⟩ := declarationsWithin_ok h₂ (hw₁.sound hs)
  have hblock : ∃ b us, ReadsBlock .topLevel 0 s₂ s₃ b us :=
    (statementsRead budget).statements hds.sound (by simp) h₃
  obtain ⟨b, us, hb⟩ := hblock
  obtain ⟨hfinish, rfl⟩ := expectFinish_ok h₄
  obtain ⟨rfl, rfl⟩ : s₅.log.instructions = p ∧ s₅ = s' := by
    injection h₆ with hp hs'
    exact ⟨hp, hs'⟩
  refine ⟨⟨ds, b⟩, ts ++ us, .of_parts hw₁ hds hb ?_ hfinish (emitPlain_ok h₅) hbook hlog⟩
  intro x hx
  have hhead : s₂.terminals.head? = some (.name x) := by
    rw [hb.advances.terminals, List.head?_append, hx]
    rfl
  obtain ⟨hk, rfl⟩ := name_of_head? hhead
  have hmem := hname hk
  rw [hds.functionNames, hw₁.book, hbook] at hmem
  exact hmem

/-- What has been read is a layout of the tree. -/
theorem ReadsSource.explains {source : Grammar.Source} {ts : List Terminal} {p : Program}
    (h : ReadsSource s s' source ts p) : source.Explains s.tokens p := by
  refine ⟨?_, h.wellScoped, h.code⟩
  obtain ⟨body, htokens, rfl, hkinds⟩ := h.advances.tokens
  exact ⟨body, s'.token, s'.upcoming, htokens, h.finish, hkinds, Source.lays_of_reading h.reading⟩

/-- A stream that is compiled begins with what is read as a tree. -/
theorem run_reads {t : Token} {rest : List Token} {p : Program} {book : AddressBook} {log : Log}
    (h : run (t :: rest) {} {} = (.ok p, book, log)) :
    ∃ s' source ts, ReadsSource ⟨t, rest, {}, {}⟩ s' source ts p ∧ s'.book = book := by
  simp only [run] at h
  split at h
  · rename_i p' s heq
    injection h with hp hrest
    injection hp with hp
    injection hrest with hbook hlog
    subst hp hbook
    obtain ⟨source, ts, hsource⟩ := programWithin_ok heq rfl rfl
    exact ⟨s, source, ts, hsource, rfl⟩
  · simp at h

/-- A stream that is compiled spells a tree, and the program that comes out is the code of the
tree. -/
theorem run_ok {tokens : List Token} {p : Program} (h : (run tokens {} {}).1 = .ok p) :
    ∃ source : Grammar.Source, source.Explains tokens p := by
  cases tokens with
  | nil => simp [run] at h
  | cons t rest =>
    obtain ⟨s', source, ts, hsource, -⟩ := run_reads (Prod.ext h rfl)
    exact ⟨source, hsource.explains⟩

/-- The globals that are counted with the program are those bound at the end of the tree. -/
theorem exists_explains {tokens : List Token} {p : Program} {globals : Nat}
    (h : compileTokens tokens = .ok (p, globals)) :
    ∃ source : Grammar.Source, source.Explains tokens p ∧
      globals = (source.statements.names source.names).globals.length := by
  rcases hrun : run tokens {} {} with ⟨_ | p', book, log⟩
  · simp [compileTokens, hrun, Except.map] at h
  · obtain ⟨rfl, rfl⟩ : p' = p ∧ book.nextGlobal = globals := by
      simpa [compileTokens, hrun, Except.map] using h
    cases tokens with
    | nil => simp [run] at hrun
    | cons t rest =>
      obtain ⟨s', source, ts, hsource, rfl⟩ := run_reads hrun
      refine ⟨source, hsource.explains, ?_⟩
      rw [hsource.sound.nextGlobal, Grammar.Source.names, ← hsource.names]
      simp [AddressBook.names, Layer.names]

/-- Up to its end, a stream that spells a tree has the terminals of the tree, indentation aside. -/
theorem terminals_of_spells {source : Grammar.Source} {tokens : List Token}
    (h : source.Spells tokens) :
    unindented ((tokens.takeWhile (·.kind ≠ .finish)).map Terminal.ofToken) = source.terminals := by
  obtain ⟨body, last, rest, rfl, hlast, hbody, hlays⟩ := h
  have htake : (body ++ last :: rest).takeWhile (·.kind ≠ .finish) = body := by
    rw [List.takeWhile_append_of_pos (by simpa using hbody)]
    simp [hlast]
  rw [htake]
  exact Grammar.Source.terminals_of_lays hlays

/-- One pass with patches is the same as two passes: the stream that is compiled is the layout of a
tree, in which a statement behind indentation belongs to the innermost block and an `else` to the
innermost `if`, and the program is the code of that tree, in which every target has been counted from
the sizes of the parts. -/
theorem run_eq_code {tokens : List Token} {p : Program} (h : (run tokens {} {}).1 = .ok p) :
    ∃ source : Grammar.Source, source.Spells tokens ∧
      unindented ((tokens.takeWhile (·.kind ≠ .finish)).map Terminal.ofToken) =
        source.terminals ∧
      source.Scoped ∧ p.toList = source.code := by
  obtain ⟨source, hsource⟩ := run_ok h
  exact ⟨source, hsource.spells, terminals_of_spells hsource.spells, hsource.wellScoped,
    hsource.code⟩

/-- A token of this kind on the first line. -/
def token (kind : Kind) (lexeme : String) : Token := ⟨kind, lexeme, 1, 0, 0⟩

/-- A declaration of `x`; a function `f` of `a` that calls itself with `x` if `a` is greater than `x`
and prints `a` otherwise; a call of it with `x`. -/
def recursiveTokens : List Token :=
  [token .name "x", token (.sign .assign) "=", token (.word .inputWord) "input",
    token (.sign .opening) "(", token (.sign .closing) ")",
    token (.word .defWord) "def", token .name "f", token (.sign .opening) "(", token .name "a",
    token (.sign .closing) ")", token (.sign .colon) ":", token .indent "  ",
    token (.word .ifWord) "if", token .name "a", token (.sign .greater) ">", token .name "x",
    token (.sign .colon) ":", token .indent "  ", token .name "f", token (.sign .opening) "(",
    token .name "x", token (.sign .closing) ")",
    token (.word .elseWord) "else", token (.sign .colon) ":", token .indent "  ",
    token (.word .printWord) "print", token (.sign .opening) "(", token .name "a",
    token (.sign .closing) ")",
    token .name "f", token (.sign .opening) "(", token .name "x", token (.sign .closing) ")",
    token .finish ""]

/-- The program that they stand for. -/
def recursiveProgram : Program :=
  #[plain .start, withInt .allocate 1, plain .read, withInt .storeGlobal 0,
    withInt .jump 18, plain .enter, withInt .storeLocal 0, withInt .loadLocal 0,
    withInt .loadGlobal 0, plain .greater, withInt .jumpIfZero 15, withInt .pushReturn 14,
    withInt .loadGlobal 0, withInt .call 5, withInt .jump 17, withInt .loadLocal 0, plain .print,
    plain .leave, withInt .pushReturn 21, withInt .loadGlobal 0, withInt .call 5, plain .halt]

theorem run_recursiveTokens : (run recursiveTokens {} {}).1 = .ok recursiveProgram := by
  decide +kernel

/-- One pass over a function with a choice inside and a call of itself. -/
theorem run_eq_code_recursive : (run recursiveTokens {} {}).1 = .ok recursiveProgram ∧
    ∃ source : Grammar.Source, source.Spells recursiveTokens ∧
      unindented ((recursiveTokens.takeWhile (·.kind ≠ .finish)).map Terminal.ofToken) =
        source.terminals ∧
      source.Scoped ∧ recursiveProgram.toList = source.code :=
  ⟨run_recursiveTokens, run_eq_code run_recursiveTokens⟩

/-- The expression that is just a variable. -/
def mention (x : String) : Expression := .ofSum (.ofTerm (.ofFactor (.name x)))

/-- The block of the function in them. -/
def recursiveBody : Block :=
  .cons (.alternative ⟨mention "a", .greater, mention "x"⟩
    (.cons (.call "f" [mention "x"]) .nil) (.cons (.print (mention "a")) .nil)) .nil

/-- The tree that they spell. -/
def recursiveSource : Grammar.Source where
  declarations := [.assign "x" .input, .define "f" ["a"] recursiveBody]
  statements := .cons (.call "f" [mention "x"]) .nil

theorem recursiveSource_lays :
    recursiveSource.Lays false (recursiveTokens.dropLast.map Terminal.ofToken) := by
  have hyes : Block.Lays .block false (.cons (.call "f" [mention "x"]) .nil) _ :=
    .cons (k := 1) ⟨rfl, by decide⟩ (.call ..) (.nil (k := 0) fun _ => rfl)
  have hno : Block.Lays .block false (.cons (.print (mention "a")) .nil) _ :=
    .cons (k := 1) ⟨rfl, by decide⟩ (.print _) (.nil (k := 0) fun _ => rfl)
  have hbody : recursiveBody.Lays .block false _ :=
    .cons (k := 1) ⟨rfl, by decide⟩ (.alternative hyes rfl hno) (.nil (k := 0) fun _ => rfl)
  have hmain : Block.Lays .topLevel true (.cons (.call "f" [mention "x"]) .nil) _ :=
    .cons (k := 0) (fun _ => rfl) (.call ..) (.nil (k := 0) fun _ => rfl)
  exact .declaration (.assign ..) (.declaration (.define hbody) (.statements hmain))

theorem recursiveSource_explains : recursiveSource.Explains recursiveTokens recursiveProgram where
  spells :=
    ⟨recursiveTokens.dropLast, token .finish "", [], rfl, rfl, by decide, recursiveSource_lays⟩
  wellScoped := by
    simp [Grammar.Source.Scoped, DeclarationsScoped, Declaration.Scoped, recursiveSource,
      recursiveBody, Block.Scoped, Statement.Scoped, Condition.Scoped, Expr.Scoped, mention,
      functionsBehind, namesBehind, Declaration.functions, Declaration.names, Block.names,
      Statement.names, Names.bind, Names.enter, Names.extend, Names.scope?, Names.inner]
  code := by decide

theorem recursiveSource_callsMatch : recursiveSource.CallsMatch := by
  simp [Grammar.Source.CallsMatch, Declaration.CallsMatch, recursiveSource, recursiveBody,
    Block.CallsMatch, Statement.CallsMatch, Definitions.arity, Grammar.Source.definitions,
    definitionsBehind, Declaration.definitions]

end Compilation

end StackPrimer

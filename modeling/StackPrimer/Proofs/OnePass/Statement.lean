import Mathlib.Data.List.TakeWhile
import StackPrimer.Proofs.Grammar.Reading
import StackPrimer.Proofs.OnePass.Expression

/-!
# Statements in one pass

A statement that is compiled has a tree, and the instructions written are the code of that tree. A
jump is written before its target is known; when it lands, the target is what the sizes of the parts
say, because everything in between has been written since.

Which tree it is depends on the tokens behind: those not passed yet are part of what is said about a
statement or a block that has been read.

Results:
* `statementsRead`: every production of statements belongs to a tree.
-/

namespace StackPrimer.Compilation

open Grammar

variable {s s' : State}

/-! ## Indentation -/

/-- Indentation is passed as far as it goes. -/
theorem skipIndents_ok (h : skipIndents s = .ok () s') :
    ∃ k, Writes s s' (indents k) [] ∧ s'.token.kind ≠ .indent ∧
      (s.token.kind = .indent → 0 < k) := by
  unfold skipIndents at h
  split at h
  · cases h
  · rename_i t rest heq
    cases h
    have hsplit := List.takeWhile_append_dropWhile
      (p := fun t : Token => decide (t.kind = .indent)) (l := s.token :: s.upcoming)
    set passed := (s.token :: s.upcoming).takeWhile fun t => decide (t.kind = .indent) with hpassed
    have hindent : ∀ u ∈ passed, u.kind = .indent := by
      intro u hu
      simpa using List.mem_takeWhile_imp hu
    have hlast : t.kind ≠ .indent := by
      have hne : (s.token :: s.upcoming).dropWhile (fun t => decide (t.kind = .indent)) ≠ [] := by
        simp [heq]
      have := List.head_dropWhile_not (fun t : Token => decide (t.kind = .indent)) hne
      simpa [heq] using this
    refine ⟨passed.length, ⟨⟨⟨passed, ?_, ?_, ?_⟩, by simp [State.code]⟩, rfl⟩, hlast, ?_⟩
    · rw [heq] at hsplit
      exact hsplit.symm
    · rw [indents, List.eq_replicate_iff]
      refine ⟨List.length_map .., ?_⟩
      intro u hu
      obtain ⟨v, hv, rfl⟩ := List.mem_map.mp hu
      exact ofToken_eq_mark (hindent v hv) (by simp) (by simp)
    · intro u hu
      simp [hindent u hu]
    · intro hk
      simp [hpassed, hk]

/-- Only indentation is passed to see whether another statement follows. -/
theorem goesOn_ok {place : Place} {more : Bool} (h : goesOn place s = .ok more s') :
    ∃ k, Writes s s' (indents k) [] ∧ s'.token.kind ≠ .indent ∧
      (place = .topLevel ∨ 0 < k → s'.token.kind.startsStatement = more) ∧
      (more = true → place = .block → 0 < k) := by
  unfold goesOn at h
  simp only [bind_eq_ok, currentKind_eq_ok] at h
  obtain ⟨_, _, ⟨rfl, rfl⟩, h⟩ := h
  split at h
  · rename_i hk
    obtain ⟨rfl, rfl⟩ := pure_eq_ok.mp h
    exact ⟨0, .refl s, hk.2, by simp [hk.1], by simp⟩
  · rename_i hk
    simp only [bind_eq_ok, currentKind_eq_ok, pure_eq_ok] at h
    obtain ⟨_, s₁, h₁, _, _, ⟨rfl, rfl⟩, hmore, rfl⟩ := h
    obtain ⟨k, hw, hnot, hsome⟩ := skipIndents_ok h₁
    refine ⟨k, hw, hnot, fun _ => hmore, ?_⟩
    intro _ hplace
    exact hsome (by simpa [hplace] using hk)

theorem head?_terminals_ne {k : Kind} (h : s.token.kind ≠ k) :
    s.terminals.head? ≠ some (.mark k) := by
  intro hhead
  refine h ?_
  have hmark : Terminal.ofToken s.token = .mark k := by simpa [State.terminals, State.tokens] using hhead
  unfold Terminal.ofToken at hmark
  split at hmark <;> simp_all

theorem name_of_head? {x : String} (h : s.terminals.head? = some (.name x)) :
    s.token.kind = .name ∧ s.token.lexeme = x :=
  name_of_ofToken (by simpa [State.terminals, State.tokens] using h)

theorem startsStatement_terminals (s : State) :
    startsStatement s.terminals = s.token.kind.startsStatement := by
  simp [startsStatement, State.terminals, State.tokens]

/-! ## Statements without blocks -/

/-- From one state to the other, this statement has been passed, written as these terminals, and its
code been written. -/
structure ReadsStatement (s s' : State) (st : Statement) (ts : List Terminal) : Prop where
  reading : st.Reading ts s'.terminals
  wellScoped : st.Scoped s.book.functionNames s.book.names
  advances : Advances s s' ts (st.code s.book.entries s.book.names s.code.length)
  binds : Binds s s' (st.names s.book.names)

theorem ReadsStatement.print {s₁ s₂ s₃ s₄ : State} {e : Expression}
    (h₁ : Writes s s₁ [.word .printWord] []) (h₂ : Writes s₁ s₂ [.sign .opening] [])
    (he : Reads s₂ s₃ e) (h₃ : Writes s₃ s₄ [.sign .closing] [])
    (h₄ : Writes s₄ s' [] [plain .print]) (hs : s.book.Sound) :
    ReadsStatement s s' (.print e) (Statement.print e).terminals := by
  obtain ⟨hscoped, hw⟩ := he
  rw [(h₁.trans h₂).names] at hscoped hw
  have hwrites : Writes s s' (Statement.print e).terminals
      ((Statement.print e).code s.book.entries s.book.names s.code.length) := by
    simpa [Statement.terminals, Statement.code] using (((h₁.trans h₂).trans hw).trans h₃).trans h₄
  exact ⟨.print e _, by simpa [Statement.Scoped] using hscoped, hwrites.toAdvances,
    by simpa [Statement.names] using hwrites.binds hs⟩

theorem printingWithin_ok {budget : Nat} (h : printingWithin budget s = .ok () s')
    (hk : s.token.kind = .word .printWord) (hs : s.book.Sound) :
    ∃ st ts, ReadsStatement s s' st ts := by
  unfold printingWithin at h
  simp only [bind_eq_ok] at h
  obtain ⟨_, s₁, h₁, _, s₂, h₂, _, s₃, h₃, _, s₄, h₄, h₅⟩ := h
  have hw₁ := advance_mark h₁ hk (by simp) (by simp) (by simp)
  have hw₂ := expectSign_ok h₂
  obtain ⟨e, he⟩ := expressionWithin_ok h₃ (hw₂.sound (hw₁.sound hs))
  exact ⟨.print e, _, .print hw₁ hw₂ he (expectSign_ok h₄) (emitPlain_ok h₅) hs⟩

/-! ## Assignments -/

/-- From one state to the other, a cell for the name has been reserved if the name is new. -/
structure Reserves (s s' : State) (x : String) : Prop where
  advances : Advances s s' [] (s.book.names.reserve x)
  binds : Binds s s' (s.book.names.bind x)

/-- A name that is bound has its cell. -/
theorem Reserves.of_binds {x : String} (h : s.book.names.binds x = true) (hs : s.book.Sound) :
    Reserves s s x := by
  refine ⟨?_, ?_⟩
  · rw [Names.reserve, if_pos h]
    exact .refl s
  · rw [Names.bind_of_binds h]
    exact .refl hs

/-- A new name is declared. -/
theorem Reserves.of_declare {t : Token} (h : declare t s = .ok () s')
    (hb : s.book.names.binds t.lexeme ≠ true) (hs : s.book.Sound) : Reserves s s' t.lexeme := by
  obtain ⟨hadv, hbind⟩ := declare_ok h hs
  refine ⟨?_, hbind⟩
  rw [Names.reserve, if_neg hb]
  exact hadv

theorem ReadsStatement.assign {s₁ s₂ s₃ s₄ : State} {x : String} {e : Expression}
    (h₁ : Writes s s₁ [.name x] []) (h₂ : Writes s₁ s₂ [.sign .assign] []) (h₃ : Reserves s₂ s₃ x)
    (he : Reads s₃ s₄ e) (h₄ : Writes s₄ s' [] [s₄.book.names.store x]) (hs : s.book.Sound) :
    ReadsStatement s s' (.assign x e) (Statement.assign x e).terminals := by
  have hw := h₁.trans h₂
  have hadv := h₃.advances
  have hbind := h₃.binds
  obtain ⟨hscoped, hwe⟩ := he
  rw [hw.names] at hadv hbind
  rw [hwe.names, hbind.names] at h₄
  rw [hbind.names] at hscoped hwe
  refine ⟨.assign x e _, hscoped, ?_, ?_⟩
  · simpa [Statement.terminals, Statement.code] using
      ((hw.toAdvances.trans hadv).trans hwe.toAdvances).trans h₄.toAdvances
  · simpa [Statement.names] using ((hw.binds hs).trans hbind).writes (hwe.trans h₄)

/-- What an assignment does after its name. -/
theorem assignmentWithin_ok {budget : Nat} {name : Token}
    (h : assignmentWithin budget name s = .ok () s') (hk : s.token.kind = .sign .assign)
    (hs : s.book.Sound) :
    ∃ s₁ s₂ s₃, Writes s s₁ [.sign .assign] [] ∧ Reserves s₁ s₂ name.lexeme ∧
      (∃ e : Expression, Reads s₂ s₃ e) ∧
      Writes s₃ s' [] [s₃.book.names.store name.lexeme] := by
  unfold assignmentWithin at h
  simp only [bind_eq_ok, declares_eq_ok] at h
  obtain ⟨_, s₁, h₁, _, _, ⟨rfl, rfl⟩, h⟩ := h
  have hw₁ := advance_mark h₁ hk (by simp) (by simp) (by simp)
  have hs₁ := hw₁.sound hs
  have hreserve : ∃ s₂, Reserves s₁ s₂ name.lexeme ∧
      (expressionWithin budget >>= fun _ => Compilation.store name) s₂ = .ok () s' := by
    by_cases hb : s₁.book.names.binds name.lexeme = true
    · rw [if_pos hb] at h
      exact ⟨s₁, .of_binds hb hs₁, h⟩
    · rw [if_neg hb, bind_eq_ok] at h
      obtain ⟨_, s₂, h₂, h⟩ := h
      exact ⟨s₂, .of_declare h₂ hb hs₁, h⟩
  obtain ⟨s₂, hres, h⟩ := hreserve
  obtain ⟨_, s₃, h₃, h₄⟩ := bind_eq_ok.mp h
  obtain ⟨e, he⟩ := expressionWithin_ok h₃ hres.binds.sound
  have hscope : s₃.book.names.scope? name.lexeme = some s₃.book.names.home := by
    rw [he.writes.names, hres.binds.names, Names.home_bind]
    exact Names.scope?_bind ..
  exact ⟨s₁, s₂, s₃, hw₁, hres, ⟨e, he⟩,
    store_ok h₄ (he.writes.sound hres.binds.sound) hscope⟩

/-! ## Calls -/

/-- From one state to the other, these arguments have been passed, written as these terminals, and
their code been written. -/
def ReadsArguments (s s' : State) (arguments : List Expression) (ts : List Terminal) : Prop :=
  (∀ e ∈ arguments, e.Scoped s.book.names) ∧
    Writes s s' ts (argumentsCode s.book.names arguments)

namespace ReadsArguments

variable {s₁ s₂ : State} {e : Expression} {rest : List Expression}

theorem writes {arguments : List Expression} {ts : List Terminal}
    (h : ReadsArguments s s' arguments ts) : Writes s s' ts (argumentsCode s.book.names arguments) :=
  h.2

theorem nil (s : State) : ReadsArguments s s [] [] := ⟨by simp, .refl s⟩

theorem first (he : Reads s s₁ e)
    (hrest : ReadsArguments s₁ s' rest (rest.flatMap fun e => .sign .comma :: e.terminals)) :
    ReadsArguments s s' (e :: rest)
      (Terminal.commaSeparated ((e :: rest).map Expr.terminals)) := by
  obtain ⟨hscoped, hw⟩ := he
  obtain ⟨hscoped', hw'⟩ := hrest
  rw [hw.names] at hscoped' hw'
  refine ⟨by simpa using ⟨hscoped, hscoped'⟩, ?_⟩
  simpa [argumentsCode, Terminal.commaSeparated, List.flatMap_map] using hw.trans hw'

theorem more (h₁ : Writes s s₁ [.sign .comma] []) (he : Reads s₁ s₂ e)
    (hrest : ReadsArguments s₂ s' rest (rest.flatMap fun e => .sign .comma :: e.terminals)) :
    ReadsArguments s s' (e :: rest)
      ((e :: rest).flatMap fun e => .sign .comma :: e.terminals) := by
  obtain ⟨hscoped, hw⟩ := he
  obtain ⟨hscoped', hw'⟩ := hrest
  rw [hw.names] at hscoped' hw'
  rw [h₁.names] at hscoped hw hscoped' hw'
  refine ⟨by simpa using ⟨hscoped, hscoped'⟩, ?_⟩
  simpa [argumentsCode] using (h₁.trans hw).trans hw'

end ReadsArguments

theorem moreArgumentsWithin_ok {budget : Nat} (h : moreArgumentsWithin budget s = .ok () s')
    (hs : s.book.Sound) :
    ∃ arguments : List Expression, ReadsArguments s s' arguments
      (arguments.flatMap fun e => .sign .comma :: e.terminals) := by
  induction budget generalizing s with
  | zero => exact absurd h throw_ne_ok
  | succ budget ih =>
    rw [moreArgumentsWithin] at h
    simp only [bind_eq_ok, currentKind_eq_ok] at h
    obtain ⟨_, _, ⟨rfl, rfl⟩, h⟩ := h
    split at h
    · rename_i hk
      simp only [bind_eq_ok] at h
      obtain ⟨_, s₁, h₁, _, s₂, h₂, h₃⟩ := h
      have hw₁ := advance_mark h₁ hk (by simp) (by simp) (by simp)
      obtain ⟨e, he⟩ := expressionWithin_ok h₂ (hw₁.sound hs)
      obtain ⟨rest, hrest⟩ := ih h₃ (he.writes.sound (hw₁.sound hs))
      exact ⟨e :: rest, .more hw₁ he hrest⟩
    · obtain ⟨-, rfl⟩ := pure_eq_ok.mp h
      exact ⟨[], .nil s⟩

theorem argumentsWithin_ok {budget : Nat} (h : argumentsWithin budget s = .ok () s')
    (hs : s.book.Sound) :
    ∃ arguments : List Expression, ReadsArguments s s' arguments
      (Terminal.commaSeparated (arguments.map Expr.terminals)) := by
  unfold argumentsWithin at h
  simp only [bind_eq_ok, currentKind_eq_ok] at h
  obtain ⟨_, _, ⟨rfl, rfl⟩, h⟩ := h
  split at h
  · obtain ⟨-, rfl⟩ := pure_eq_ok.mp h
    exact ⟨[], .nil s⟩
  · simp only [bind_eq_ok] at h
    obtain ⟨_, s₁, h₁, h₂⟩ := h
    obtain ⟨e, he⟩ := expressionWithin_ok h₁ hs
    obtain ⟨rest, hrest⟩ := moreArgumentsWithin_ok h₂ (he.writes.sound hs)
    exact ⟨e :: rest, .first he hrest⟩

/-- From one state to the other, the arguments of a call have been passed, in parentheses. The return
address, which is at the address `back`, has not been set yet. -/
structure Calls (back : Int) (entry : Nat) (s s' : State) (arguments : List Expression) : Prop where
  wellScoped : ∀ e ∈ arguments, e.Scoped s.book.names
  back : back = (s.code.length : Nat)
  advances : Advances s s'
    (.sign .opening :: Terminal.commaSeparated (arguments.map Expr.terminals) ++ [.sign .closing])
    ([] ++ .of .pushReturn (some (.int 0)) ::
      (argumentsCode s.book.names arguments ++ [withInt .call entry]))
  book : s'.book = s.book

theorem Calls.of_parts {s₁ s₂ s₃ s₄ : State} {back : Int} {entry : Nat}
    {arguments : List Expression} (h₁ : emitInt .pushReturn 0 s = .ok back s₁)
    (h₂ : Writes s₁ s₂ [.sign .opening] [])
    (h₃ : ReadsArguments s₂ s₃ arguments
      (Terminal.commaSeparated (arguments.map Expr.terminals)))
    (h₄ : Writes s₃ s₄ [.sign .closing] []) (h₅ : Writes s₄ s' [] [withInt .call entry]) :
    Calls back entry s s' arguments := by
  obtain ⟨hback, hw₁⟩ := emitInt_ok h₁
  have hw₂ := hw₁.trans h₂
  obtain ⟨hscoped, hw₃⟩ := h₃
  rw [hw₂.names] at hscoped hw₃
  have hall := ((hw₂.trans hw₃).trans h₄).trans h₅
  exact ⟨hscoped, hback, by simpa using hall.toAdvances, hall.book⟩

/-- The return address is behind the call. -/
theorem Calls.reads {s₁ s₂ : State} {f : String} {back : Int} {entry : Nat}
    {arguments : List Expression} (h₁ : Writes s s₁ [.name f] [])
    (hentry : s₁.book.entries f = some entry) (hf : f ∈ s₁.book.functionNames)
    (hc : Calls back entry s₁ s₂ arguments) (h : land back s₂ = .ok () s') (hs : s.book.Sound) :
    ReadsStatement s s' (.call f arguments) (Statement.call f arguments).terminals := by
  have hlength : s₁.code.length = s.code.length := by simpa using h₁.length_code
  have hscoped := hc.wellScoped
  have hall := hc.advances
  rw [h₁.book] at hentry hf hscoped hall
  obtain ⟨hadv, -, hbook⟩ := hall.land
    (s.code.length + (argumentsCode s.book.names arguments).length + 2) h
    (by simp [hc.back]) (by simp; omega)
  refine ⟨.call f arguments _, ⟨hf, hscoped⟩, ?_, ?_⟩
  · simpa [Statement.terminals, Statement.code, hentry] using h₁.toAdvances.trans hadv
  · simpa [Statement.names] using (h₁.binds hs).of_book (hbook.trans hc.book)

/-- What a call does after its name. -/
theorem callWithin_ok {budget : Nat} {name : Token} (h : callWithin budget name s = .ok () s')
    (hk : s.token.kind = .sign .opening) (hs : s.book.Sound) :
    name.lexeme ∈ s.book.functionNames ∧
      ∃ s₁ back entry arguments, s.book.entries name.lexeme = some entry ∧
        Calls back entry s s₁ arguments ∧ land back s₁ = .ok () s' := by
  unfold callWithin at h
  simp only [bind_eq_ok, entry?_eq_ok] at h
  obtain ⟨_, _, ⟨rfl, rfl⟩, h⟩ := h
  cases hentry : s.book.entry? name.lexeme with
  | none =>
    rw [hentry] at h
    exact absurd h throw_ne_ok
  | some entry =>
    rw [hentry] at h
    simp only [bind_eq_ok] at h
    obtain ⟨back, s₁, h₁, _, s₂, h₂, _, s₃, h₃, _, s₄, h₄, _, s₅, h₅, h₆⟩ := h
    have hw₁ := (emitInt_ok h₁).2
    have hk₁ : s₁.token.kind = .sign .opening := by rw [hw₁.token_eq, hk]
    have hw₂ := advance_mark h₂ hk₁ (by simp) (by simp) (by simp)
    obtain ⟨arguments, harguments⟩ := argumentsWithin_ok h₃ (hw₂.sound (hw₁.sound hs))
    obtain ⟨n, rfl⟩ := Int.eq_ofNat_of_zero_le (hs.entries _ _ hentry)
    refine ⟨AddressBook.mem_functionNames hentry, s₅, back, n, arguments, ?_, ?_, h₆⟩
    · simp [AddressBook.entries, hentry]
    · exact .of_parts h₁ hw₂ harguments (expectSign_ok h₄) (emitInt_ok h₅).2

theorem namedWithin_ok {budget : Nat} (h : namedWithin budget s = .ok () s')
    (hs : s.book.Sound) : ∃ st ts, ReadsStatement s s' st ts := by
  unfold namedWithin at h
  simp only [bind_eq_ok, current_eq_ok] at h
  obtain ⟨name, s₁, h₁, _, _, ⟨rfl, rfl⟩, h⟩ := h
  have hw₁ := expectName_ok h₁
  cases hk : s₁.token.kind with
  | sign x =>
    rw [hk] at h
    cases x with
    | assign =>
      obtain ⟨s₂, s₃, s₄, hw₂, hres, ⟨e, he⟩, hw₄⟩ := assignmentWithin_ok h hk (hw₁.sound hs)
      exact ⟨.assign name.lexeme e, _, .assign hw₁ hw₂ hres he hw₄ hs⟩
    | opening =>
      obtain ⟨hf, s₂, back, entry, arguments, hentry, hcalls, hland⟩ :=
        callWithin_ok h hk (hw₁.sound hs)
      exact ⟨.call name.lexeme arguments, _, hcalls.reads hw₁ hentry hf hland hs⟩
    | _ => exact absurd h throw_ne_ok
  | _ =>
    rw [hk] at h
    exact absurd h throw_ne_ok

/-! ## Sequences of statements -/

section Sequences

variable {s₁ s₂ : State} {k : Nat} {st : Statement} {rest : Block} {ts us : List Terminal}

/-- The code of a statement with indentation in front, and of the statements after it. -/
theorem ReadsStatement.advances_cons (hst : ReadsStatement s₁ s₂ st ts)
    (hw : Writes s s₁ (indents k) [])
    (hrest : Advances s₂ s' us (rest.code s₂.book.entries s₂.book.names s₂.code.length)) :
    Advances s s' (indents k ++ ts ++ us)
      ((Block.cons st rest).code s.book.entries s.book.names s.code.length) := by
  have hlength : s₁.code.length = s.code.length := by simpa using hw.length_code
  have hfirst := hst.advances
  rw [hst.advances.length_code, hst.binds.entries, hst.binds.names] at hrest
  rw [hw.book, hlength] at hfirst hrest
  simpa [Block.code] using (hw.toAdvances.trans hfirst).trans hrest

/-- The names bound by a statement and by the statements after it. -/
theorem ReadsStatement.binds_cons (hst : ReadsStatement s₁ s₂ st ts) (hs : s.book.Sound)
    (hw : Writes s s₁ (indents k) []) (hrest : Binds s₂ s' (rest.names s₂.book.names)) :
    Binds s s' ((Block.cons st rest).names s.book.names) := by
  have hfirst := hst.binds
  rw [hst.binds.names] at hrest
  rw [hw.book] at hfirst hrest
  simpa [Block.names] using ((hw.binds hs).trans hfirst).trans hrest

end Sequences

/-- From one state to the other, these statements have been passed, with `j` indentations passed
before, and their code been written. -/
structure ReadsBlock (place : Place) (j : Nat) (s s' : State) (b : Block)
    (ts : List Terminal) : Prop where
  reading : b.Reading place (indents j ++ ts) s'.terminals
  wellScoped : b.Scoped s.book.functionNames s.book.names
  advances : Advances s s' ts (b.code s.book.entries s.book.names s.code.length)
  binds : Binds s s' (b.names s.book.names)

namespace ReadsBlock

variable {place : Place} {j k : Nat}

theorem nil (hs : s.book.Sound) (hw : Writes s s' (indents k) [])
    (hindent : s'.terminals.head? ≠ some .indent)
    (hstop : place = .topLevel ∨ 0 < j + k → startsStatement s'.terminals = false) :
    ReadsBlock place j s s' .nil (indents k) where
  reading := by
    rw [← indents_add]
    exact .nil hindent hstop
  wellScoped := by simp [Block.Scoped]
  advances := by simpa [Block.code] using hw.toAdvances
  binds := by simpa [Block.names] using hw.binds hs

/-- A statement with indentation in front, and the statements after it. -/
theorem cons {s₁ s₂ : State} {st : Statement} {rest : Block} {ts us : List Terminal}
    (hs : s.book.Sound) (hw : Writes s s₁ (indents k) []) (hblock : place = .block → 0 < j + k)
    (hst : ReadsStatement s₁ s₂ st ts) (hrest : ReadsBlock place 0 s₂ s' rest us) :
    ReadsBlock place j s s' (.cons st rest) (indents k ++ ts ++ us) where
  reading := by
    have hreading := hst.reading
    rw [hrest.advances.terminals] at hreading
    rw [← List.append_assoc, ← List.append_assoc, ← indents_add]
    exact .cons hblock hreading (by simpa using hrest.reading)
  wellScoped := by
    have h₁ := hst.wellScoped
    have h₂ := hrest.wellScoped
    rw [hst.binds.functionNames, hst.binds.names] at h₂
    rw [hw.book] at h₁ h₂
    exact ⟨h₁, h₂⟩
  advances := hst.advances_cons hw hrest.advances
  binds := hst.binds_cons hs hw hrest.binds

end ReadsBlock

/-- A block is statements with indentation in front. -/
theorem ReadsBlock.block {s₁ : State} {b : Block} {ts : List Terminal}
    (hw : Writes s s₁ [.indent] []) (hb : ReadsBlock .block 1 s₁ s' b ts) (hs : s.book.Sound) :
    ReadsBlock .block 0 s s' b (.indent :: ts) := by
  have hlength : s₁.code.length = s.code.length := by simpa using hw.length_code
  have hscoped := hb.wellScoped
  have hadv := hb.advances
  have hbind := hb.binds
  rw [hw.book] at hscoped hadv hbind
  rw [hlength] at hadv
  refine ⟨?_, hscoped, ?_, (hw.binds hs).trans hbind⟩
  · simpa [indents] using hb.reading
  · simpa using hw.toAdvances.trans hadv

/-! ## Statements with blocks -/

/-- From one state to the other, a condition and a block have been passed, with a keyword in front.
The jump over the block, which is at the address `past`, has not landed yet. -/
structure Guarded (w : Keyword) (past : Int) (s s' : State) (c : Condition) (b : Block)
    (ts : List Terminal) : Prop where
  reading : b.Reading .block (.indent :: ts) s'.terminals
  test : c.Scoped s.book.names
  wellScoped : b.Scoped s.book.functionNames s.book.names
  past : past = (s.code.length + (c.code s.book.names).length : Nat)
  advances : Advances s s' (.word w :: c.terminals ++ .sign .colon :: .indent :: ts)
    (c.code s.book.names ++ .of .jumpIfZero (some (.int 0)) ::
      b.code s.book.entries s.book.names (s.code.length + (c.code s.book.names).length + 1))
  binds : Binds s s' (b.names s.book.names)

theorem Guarded.of_parts {s₁ s₂ s₃ s₄ : State} {w : Keyword} {past : Int} {c : Condition}
    {b : Block} {ts : List Terminal} (h₁ : Writes s s₁ [.word w] []) (hc : ReadsCondition s₁ s₂ c)
    (h₂ : Writes s₂ s₃ [.sign .colon] []) (h₃ : emitInt .jumpIfZero 0 s₃ = .ok past s₄)
    (hb : ReadsBlock .block 0 s₄ s' b (.indent :: ts)) (hs : s.book.Sound) :
    Guarded w past s s' c b ts := by
  obtain ⟨htest, hwc⟩ := hc
  obtain ⟨hpast, hw₃⟩ := emitInt_ok h₃
  rw [h₁.names] at htest hwc
  have hwrites := (h₁.trans hwc).trans h₂
  have hw := hwrites.trans hw₃
  have hlength : s₄.code.length = s.code.length + (c.code s.book.names).length + 1 := by
    simpa [Nat.add_assoc] using hw.length_code
  have hscoped := hb.wellScoped
  have hadv := hb.advances
  have hbind := hb.binds
  rw [hlength] at hadv
  rw [hw.book] at hscoped hadv hbind
  refine ⟨by simpa using hb.reading, htest, hscoped, ?_, ?_, (hw.binds hs).trans hbind⟩
  · rw [hpast, hwrites.length_code]
    simp
  · simpa using hw.toAdvances.trans hadv

/-- One more instruction behind the block, before the jump over it lands. -/
theorem Guarded.unlanded {w : Keyword} {past : Int} {s₁ s₂ : State} {c : Condition} {b : Block}
    {ts : List Terminal} {i : Instruction} (hg : Guarded w past s s₁ c b ts)
    (hw : Writes s₁ s₂ [] [i]) :
    Advances s s₂ (.word w :: c.terminals ++ .sign .colon :: .indent :: ts)
      (c.code s.book.names ++ .of .jumpIfZero (some (.int 0)) ::
        (b.code s.book.entries s.book.names (s.code.length + (c.code s.book.names).length + 1) ++
          [i])) := by
  simpa using hg.advances.trans hw.toAdvances

/-- Without `else` the jump over the block lands behind it. -/
theorem Guarded.choice {past : Int} {s₁ : State} {c : Condition} {yes : Block} {ts : List Terminal}
    (hg : Guarded .ifWord past s s₁ c yes ts) (hk : s₁.token.kind ≠ .word .elseWord)
    (h : land past s₁ = .ok () s') :
    ReadsStatement s s' (.choice c yes)
      (.word .ifWord :: c.terminals ++ .sign .colon :: .indent :: ts) := by
  set first := yes.code s.book.entries s.book.names
    (s.code.length + (c.code s.book.names).length + 1)
  obtain ⟨hadv, htokens, hbook⟩ := hg.advances.land
    (s.code.length + (c.code s.book.names).length + 1 + first.length) h hg.past rfl
  refine ⟨?_, ⟨hg.test, hg.wellScoped⟩, ?_, ?_⟩
  · rw [terminals_of_tokens htokens]
    exact .choice hg.reading (head?_terminals_ne hk)
  · simpa [Statement.code] using hadv
  · simpa [Statement.names] using hg.binds.of_book hbook

/-- The jump back closes a loop, and the jump over the block lands behind it. -/
theorem Guarded.loop {past : Int} {s₁ s₂ : State} {c : Condition} {body : Block}
    {ts : List Terminal} (hg : Guarded .whileWord past s s₁ c body ts)
    (hw : Writes s₁ s₂ [] [withInt .jump s.code.length]) (h : land past s₂ = .ok () s') :
    ReadsStatement s s' (.loop c body)
      (.word .whileWord :: c.terminals ++ .sign .colon :: .indent :: ts) := by
  have hbefore := hg.unlanded hw
  set n := s.book.names
  set inside := body.code s.book.entries n (s.code.length + (c.code n).length + 1)
  obtain ⟨hadv, htokens, hbook⟩ := hbefore.land
    (s.code.length + (c.code n).length + 1 + inside.length + 1) h hg.past (by simp; omega)
  refine ⟨?_, ⟨hg.test, hg.wellScoped⟩, ?_, ?_⟩
  · rw [terminals_of_tokens (htokens.trans hw.tokens_eq)]
    exact .loop hg.reading
  · simpa [Statement.code] using hadv
  · simpa [Statement.names] using (hg.binds.writes hw).of_book hbook

/-- Up to the second block of a choice: the jump over the first block has landed behind the jump over
the second one, which has not. -/
structure Switched (skip : Int) (s s₁ s' : State) (c : Condition) (yes : Block) (ts : List Terminal)
    (middle : Nat) : Prop where
  middle_eq : middle = s.code.length + (c.code s.book.names).length + 1 +
    (yes.code s.book.entries s.book.names
      (s.code.length + (c.code s.book.names).length + 1)).length + 1
  skip_eq : skip + 1 = middle
  length : s'.code.length = middle
  advances : Advances s s'
    (.word .ifWord :: c.terminals ++ .sign .colon :: .indent :: ts ++ [.word .elseWord, .sign .colon])
    (c.code s.book.names ++ withInt .jumpIfZero middle :: yes.code s.book.entries s.book.names
      (s.code.length + (c.code s.book.names).length + 1) ++ [.of .jump (some (.int 0))])
  binds : Binds s s' (yes.names s.book.names)
  terminals : s₁.terminals = .word .elseWord :: .sign .colon :: s'.terminals

theorem Guarded.switched {past skip : Int} {s₁ s₂ s₃ s₄ : State} {c : Condition} {yes : Block}
    {ts : List Terminal} (hg : Guarded .ifWord past s s₁ c yes ts)
    (hk : s₁.token.kind = .word .elseWord) (h₂ : emitInt .jump 0 s₁ = .ok skip s₂)
    (h₃ : land past s₂ = .ok () s₃) (h₄ : advance s₃ = .ok () s₄)
    (h₅ : expectSign .colon s₄ = .ok () s') : ∃ middle, Switched skip s s₁ s' c yes ts middle := by
  obtain ⟨hskip, hw₂⟩ := emitInt_ok h₂
  have hbefore := hg.unlanded hw₂
  set n := s.book.names with hn
  set first := yes.code s.book.entries n (s.code.length + (c.code n).length + 1) with hfirst
  set middle := s.code.length + (c.code n).length + 1 + first.length + 1 with hmiddle
  obtain ⟨hadv₃, htokens₃, hbook₃⟩ := hbefore.land middle h₃ hg.past (by simp; omega)
  have hk₃ : s₃.token.kind = .word .elseWord := by
    rw [(List.cons.inj htokens₃).1, hw₂.token_eq, hk]
  have hw₅ := (advance_mark h₄ hk₃ (by simp) (by simp) (by simp)).trans (expectSign_ok h₅)
  have hlength : s'.code.length = middle := by
    rw [hw₅.length_code, hadv₃.length_code]
    simp
    omega
  have hterminals : s₁.terminals = .word .elseWord :: .sign .colon :: s'.terminals := by
    have hpassed := hw₅.terminals
    rwa [State.terminals, htokens₃, hw₂.tokens_eq] at hpassed
  refine ⟨middle, hmiddle, ?_, hlength, ?_, ((hg.binds.writes hw₂).of_book hbook₃).writes hw₅,
    hterminals⟩
  · rw [hskip, hg.advances.length_code, ← hn, ← hfirst]
    simp
    omega
  · simpa using hadv₃.trans hw₅.toAdvances

/-- With the second block the jump over it can land behind it. -/
theorem Switched.unlanded {skip : Int} {s₁ s₂ : State} {c : Condition} {yes no : Block}
    {ts us : List Terminal} {middle : Nat} (hw : Switched skip s s₁ s₂ c yes ts middle)
    (hno : ReadsBlock .block 0 s₂ s' no us) :
    Advances s s'
      (.word .ifWord :: c.terminals ++ .sign .colon :: .indent :: ts ++
        .word .elseWord :: .sign .colon :: us)
      ((c.code s.book.names ++ withInt .jumpIfZero middle :: yes.code s.book.entries s.book.names
          (s.code.length + (c.code s.book.names).length + 1)) ++ .of .jump (some (.int 0)) ::
        no.code s.book.entries (yes.names s.book.names) middle) ∧
    skip = (s.code.length + (c.code s.book.names ++ withInt .jumpIfZero middle ::
      yes.code s.book.entries s.book.names
        (s.code.length + (c.code s.book.names).length + 1)).length : Nat) := by
  have hadv := hno.advances
  rw [hw.length, hw.binds.entries, hw.binds.names] at hadv
  refine ⟨by simpa using hw.advances.trans hadv, ?_⟩
  have hskip := hw.skip_eq
  have hmiddle := hw.middle_eq
  simp
  omega

/-- With `else` the first jump lands in front of the second block, and the second jump behind it. -/
theorem Switched.alternative {past skip : Int} {s₁ s₂ s₃ : State} {c : Condition} {yes no : Block}
    {ts us : List Terminal} {middle : Nat} (hw : Switched skip s s₁ s₂ c yes ts middle)
    (hg : Guarded .ifWord past s s₁ c yes ts) (hno : ReadsBlock .block 0 s₂ s₃ no (.indent :: us))
    (h : land skip s₃ = .ok () s') :
    ReadsStatement s s' (.alternative c yes no)
      (.word .ifWord :: c.terminals ++ .sign .colon :: .indent :: ts ++
        .word .elseWord :: .sign .colon :: .indent :: us) := by
  obtain ⟨hall, hpast⟩ := hw.unlanded hno
  have hscoped := hno.wellScoped
  have hbind := hw.binds.trans hno.binds
  rw [hw.binds.functionNames, hw.binds.names] at hscoped
  rw [hw.binds.names] at hbind
  have hmiddle := hw.middle_eq
  set n := s.book.names
  set first := yes.code s.book.entries n (s.code.length + (c.code n).length + 1)
  set second := no.code s.book.entries (yes.names n) middle
  obtain ⟨hadv, htokens, hbook⟩ := hall.land (middle + second.length) h hpast (by simp; omega)
  refine ⟨?_, ⟨hg.test, hg.wellScoped, hscoped⟩, ?_, ?_⟩
  · have hyes := hg.reading
    rw [hw.terminals, hno.advances.terminals] at hyes
    rw [terminals_of_tokens htokens]
    exact .alternative hyes hno.reading
  · have hcode : (Statement.alternative c yes no).code s.book.entries n s.code.length =
        c.code n ++ withInt .jumpIfZero middle :: first ++
          withInt .jump (middle + second.length) :: second := by
      simp only [Statement.code]
      rw [← hmiddle]
    rw [hcode]
    exact hadv
  · simpa [Statement.names] using hbind.of_book hbook

/-! ## Productions -/

/-- Every production within this budget belongs to a tree. -/
structure StatementsRead (budget : Nat) : Prop where
  statement : ∀ {s s' : State}, s.book.Sound → statementWithin budget s = .ok () s' →
    ∃ st ts, ReadsStatement s s' st ts
  choice : ∀ {s s' : State}, s.book.Sound → choiceWithin budget s = .ok () s' →
    ∃ st ts, ReadsStatement s s' st ts
  loop : ∀ {s s' : State}, s.book.Sound → loopWithin budget s = .ok () s' →
    ∃ st ts, ReadsStatement s s' st ts
  block : ∀ {s s' : State}, s.book.Sound → blockWithin budget s = .ok () s' →
    ∃ b ts, ReadsBlock .block 0 s s' b (.indent :: ts)
  statements : ∀ {s s' : State} {place : Place} {j : Nat}, s.book.Sound →
    (place = .block → 0 < j) → statementsWithin budget place s = .ok () s' →
    ∃ b ts, ReadsBlock place j s s' b ts
  more : ∀ {s s' : State} {place : Place}, s.book.Sound →
    moreStatementsWithin budget place s = .ok () s' → ∃ b ts, ReadsBlock place 0 s s' b ts

namespace StatementsRead

variable {budget : Nat}

theorem statement_succ (ih : StatementsRead budget) (hs : s.book.Sound)
    (h : statementWithin (budget + 1) s = .ok () s') : ∃ st ts, ReadsStatement s s' st ts := by
  rw [statementWithin] at h
  simp only [bind_eq_ok, currentKind_eq_ok] at h
  obtain ⟨_, _, ⟨rfl, rfl⟩, h⟩ := h
  cases hk : s.token.kind with
  | word w =>
    rw [hk] at h
    cases w with
    | printWord => exact printingWithin_ok h hk hs
    | ifWord => exact ih.choice hs h
    | whileWord => exact ih.loop hs h
    | _ => exact namedWithin_ok h hs
  | _ =>
    rw [hk] at h
    exact namedWithin_ok h hs

theorem guarded_ok (ih : StatementsRead budget) {s₁ s₂ s₃ s₄ : State} {w : Keyword} {t : Token}
    {e : Expectation} {past : Int} (h₁ : expect (.word w) e s = .ok t s₁)
    (h₂ : conditionWithin budget s₁ = .ok () s₂) (h₃ : expectSign .colon s₂ = .ok () s₃)
    (h₄ : emitInt .jumpIfZero 0 s₃ = .ok past s₄) (h₅ : blockWithin budget s₄ = .ok () s')
    (hs : s.book.Sound) : ∃ c b ts, Guarded w past s s' c b ts := by
  have hw₁ := expectWord_ok h₁
  have hw₃ := expectSign_ok h₃
  obtain ⟨c, hc⟩ := conditionWithin_ok h₂ (hw₁.sound hs)
  have hs₄ := (emitInt_ok h₄).2.sound (hw₃.sound (hc.writes.sound (hw₁.sound hs)))
  obtain ⟨b, ts, hb⟩ := ih.block hs₄ h₅
  exact ⟨c, b, ts, .of_parts hw₁ hc hw₃ h₄ hb hs⟩

theorem choice_succ (ih : StatementsRead budget) (hs : s.book.Sound)
    (h : choiceWithin (budget + 1) s = .ok () s') : ∃ st ts, ReadsStatement s s' st ts := by
  rw [choiceWithin] at h
  simp only [bind_eq_ok, currentKind_eq_ok] at h
  obtain ⟨_, s₁, h₁, _, s₂, h₂, _, s₃, h₃, past, s₄, h₄, _, s₅, h₅, _, _, ⟨rfl, rfl⟩, h⟩ := h
  obtain ⟨c, yes, ts, hg⟩ := ih.guarded_ok h₁ h₂ h₃ h₄ h₅ hs
  split at h
  · rename_i hk
    simp only [bind_eq_ok] at h
    obtain ⟨skip, s₆, h₆, _, s₇, h₇, _, s₈, h₈, _, s₉, h₉, _, s₁₀, h₁₀, h⟩ := h
    obtain ⟨middle, hw⟩ := hg.switched hk h₆ h₇ h₈ h₉
    obtain ⟨no, us, hno⟩ := ih.block hw.binds.sound h₁₀
    exact ⟨_, _, hw.alternative hg hno h⟩
  · rename_i hk
    exact ⟨_, _, hg.choice hk h⟩

theorem loop_succ (ih : StatementsRead budget) (hs : s.book.Sound)
    (h : loopWithin (budget + 1) s = .ok () s') : ∃ st ts, ReadsStatement s s' st ts := by
  rw [loopWithin] at h
  simp only [bind_eq_ok, here_eq_ok] at h
  obtain ⟨_, s₁, h₁, _, _, ⟨rfl, rfl⟩, _, s₂, h₂, _, s₃, h₃, past, s₄, h₄, _, s₅, h₅,
    _, s₆, h₆, h⟩ := h
  have htop : s₁.code.length = s.code.length := by simpa using (expectWord_ok h₁).length_code
  obtain ⟨c, body, ts, hg⟩ := ih.guarded_ok h₁ h₂ h₃ h₄ h₅ hs
  have hw₆ := (emitInt_ok h₆).2
  rw [htop] at hw₆
  exact ⟨_, _, hg.loop hw₆ h⟩

theorem block_succ (ih : StatementsRead budget) (hs : s.book.Sound)
    (h : blockWithin (budget + 1) s = .ok () s') :
    ∃ b ts, ReadsBlock .block 0 s s' b (.indent :: ts) := by
  rw [blockWithin] at h
  simp only [bind_eq_ok] at h
  obtain ⟨_, s₁, h₁, h₂⟩ := h
  obtain ⟨-, hk, hw⟩ := expect_ok h₁ (by simp)
  rw [ofToken_eq_mark hk (by simp) (by simp)] at hw
  have hinner : ∃ b ts, ReadsBlock .block 1 s₁ s' b ts :=
    ih.statements (hw.sound hs) (by simp) h₂
  obtain ⟨b, ts, hb⟩ := hinner
  exact ⟨b, ts, .block hw hb hs⟩

theorem statements_succ (ih : StatementsRead budget) {place : Place} {j : Nat} (hs : s.book.Sound)
    (hblock : place = .block → 0 < j)
    (h : statementsWithin (budget + 1) place s = .ok () s') :
    ∃ b ts, ReadsBlock place j s s' b ts := by
  rw [statementsWithin] at h
  simp only [bind_eq_ok, currentKind_eq_ok] at h
  obtain ⟨_, s₁, h₁, _, _, ⟨rfl, rfl⟩, h⟩ := h
  obtain ⟨k, hw, hnot, -⟩ := skipIndents_ok h₁
  split at h
  · simp only [bind_eq_ok] at h
    obtain ⟨_, s₂, h₂, h₃⟩ := h
    obtain ⟨st, ts, hst⟩ := ih.statement (hw.sound hs) h₂
    obtain ⟨rest, us, hrest⟩ := ih.more hst.binds.sound h₃
    exact ⟨_, _, .cons hs hw (fun hplace => Nat.add_pos_left (hblock hplace) k) hst hrest⟩
  · rename_i hstop
    obtain ⟨-, rfl⟩ := pure_eq_ok.mp h
    refine ⟨_, _, .nil hs hw (head?_terminals_ne hnot) fun _ => ?_⟩
    rw [startsStatement_terminals]
    simpa using hstop

theorem more_succ (ih : StatementsRead budget) {place : Place} (hs : s.book.Sound)
    (h : moreStatementsWithin (budget + 1) place s = .ok () s') :
    ∃ b ts, ReadsBlock place 0 s s' b ts := by
  rw [moreStatementsWithin] at h
  simp only [bind_eq_ok] at h
  obtain ⟨more, s₁, h₁, h⟩ := h
  obtain ⟨k, hw, hnot, hstarts, hblock⟩ := goesOn_ok h₁
  split at h
  · rename_i hmore
    simp only [bind_eq_ok] at h
    obtain ⟨_, s₂, h₂, h₃⟩ := h
    obtain ⟨st, ts, hst⟩ := ih.statement (hw.sound hs) h₂
    obtain ⟨rest, us, hrest⟩ := ih.more hst.binds.sound h₃
    exact ⟨_, _, .cons hs hw (by simpa using hblock hmore) hst hrest⟩
  · rename_i hmore
    obtain ⟨-, rfl⟩ := pure_eq_ok.mp h
    refine ⟨_, _, .nil hs hw (head?_terminals_ne hnot) fun hplace => ?_⟩
    rw [startsStatement_terminals, hstarts (by simpa using hplace)]
    simpa using hmore

end StatementsRead

/-- All productions of statements belong to trees. -/
theorem statementsRead (budget : Nat) : StatementsRead budget := by
  induction budget with
  | zero =>
    constructor
    · intro s s' _ h
      exact absurd h throw_ne_ok
    · intro s s' _ h
      exact absurd h throw_ne_ok
    · intro s s' _ h
      exact absurd h throw_ne_ok
    · intro s s' _ h
      exact absurd h throw_ne_ok
    · intro s s' place j _ _ h
      exact absurd h throw_ne_ok
    · intro s s' place _ h
      exact absurd h throw_ne_ok
  | succ budget ih =>
    exact ⟨ih.statement_succ, ih.choice_succ, ih.loop_succ, ih.block_succ, ih.statements_succ,
      ih.more_succ⟩

end StackPrimer.Compilation

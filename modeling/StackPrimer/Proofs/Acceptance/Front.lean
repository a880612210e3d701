import StackPrimer.Proofs.Acceptance.Program
import StackPrimer.Proofs.Grammar.Front
import StackPrimer.Proofs.InStep.Program

/-!
# Going on behind the front of a program

What stands at the front of a stream may be a program of its own. The compilation of the stream first
does with it what it would do with that program, and then goes on.

Results:
* `program_front`: behind a front that does not end with a block, statements come next.
* `program_open`: behind a front that ends with a block, where no statement follows, only the end or
  more declarations come next.
-/

namespace StackPrimer.Compilation

open Grammar

variable {s s' : State} {budget reserve : Nat} {behind : List Terminal}

/-! ## Going on behind statements -/

theorem endsExpression_of_front {b : Block} {us after : List Terminal} (h : b.Front us after)
    (hafter : EndsExpression after) : EndsExpression (us ++ after) := by
  cases h with
  | nil => exact hafter
  | @cons k s rest ts vs _ hs hrest =>
    rw [List.append_assoc, List.append_assoc]
    cases k with
    | zero => exact endsExpression_of_startsStatement (startsStatement_append hs _)
    | succ k => exact endsExpression_cons rfl rfl _

/-- At the top level the statements after some others are like those at the beginning. -/
theorem moreStatements_topLevel (budget : Nat) :
    moreStatementsWithin budget .topLevel = statementsWithin budget .topLevel := by
  cases budget with
  | zero => rfl
  | succ budget =>
    have hgoes : goesOn .topLevel = do skipIndents; return (← currentKind).startsStatement := by
      funext s
      unfold goesOn
      rw [bind_of_ok (currentKind_ok s), if_neg (by simp)]
    rw [moreStatementsWithin, statementsWithin, hgoes]
    simp only [bind_assoc, pure_bind]

/-- From one state to the other, these statements have been passed. -/
structure Fronts (s s' : State) (b : Block) (ts : List Terminal) : Prop where
  advances : Advances s s' ts (b.code s.book.entries s.book.names s.code.length)
  binds : Binds s s' (b.names s.book.names)

theorem Fronts.cons {s₁ s₂ : State} {k : Nat} {st : Statement} {rest : Block}
    {ts us : List Terminal} (hs : s.book.Sound) (hw : Writes s s₁ (indents k) [])
    (hst : ReadsStatement s₁ s₂ st ts) (hrest : Fronts s₂ s' rest us) :
    Fronts s s' (.cons st rest) (indents k ++ ts ++ us) where
  advances := hst.advances_cons hw hrest.advances
  binds := hst.binds_cons hs hw hrest.binds

/-- Behind the last of the statements the sequence goes on. -/
theorem statements_front {b : Block} {ts : List Terminal} {budget : Nat} {s : State}
    (hfront : b.Front ts behind) (hbehind : EndsExpression behind)
    (h : Ahead budget 3 s (ts ++ behind)) (hscoped : b.Scoped s.book.functionNames s.book.names) :
    ∃ s', statementsWithin budget .topLevel s = statementsWithin (budget - b.count) .topLevel s' ∧
      Fronts s s' b ts := by
  induction hfront generalizing budget s with
  | nil => exact ⟨s, rfl, .refl s, .refl h.sound⟩
  | @cons k st rest ts us behind hs hrest ih =>
    rw [List.append_assoc, List.append_assoc] at h
    have hstart := startsStatement_append hs (us ++ behind)
    obtain ⟨budget, rfl, hahead⟩ := h.spend
    obtain ⟨_, s₁, hskip, hw⟩ := succeeds_skipIndents hahead (head?_ne_indent hstart)
    have hahead₁ := hahead.writes hw
    rw [← hw.book] at hscoped
    obtain ⟨_, s₂, hrun, hreads⟩ := accepted_statement hs (endsExpression_of_front hrest hbehind)
      (hahead₁.mono (by omega)) hscoped.1
    have hscoped₂ : rest.Scoped s₂.book.functionNames s₂.book.names := by
      rw [hreads.binds.functionNames, hreads.binds.names]
      exact hscoped.2
    have hahead₂ : Ahead budget 3 s₂ (us ++ behind) := by
      obtain ⟨t, vs, rfl, -⟩ := exists_head_reading hs
      exact (hahead₁.advances hreads.advances hreads.binds.sound).mono
        (show 3 ≤ 2 + 5 * (indents k).length + 5 * (t :: vs).length by simp; omega)
    obtain ⟨s₃, hmore, hfronts⟩ := ih hbehind hahead₂ hscoped₂
    refine ⟨s₃, ?_, .cons h.sound hw hreads hfronts⟩
    · have hkind : s₁.token.kind.startsStatement = true := by
        rw [← startsStatement_terminals, hahead₁.terminals, hstart]
      rw [statementsWithin, bind_of_ok hskip, bind_of_ok (currentKind_ok s₁), if_pos hkind,
        bind_of_ok hrun, moreStatements_topLevel, hmore]
      simp [Block.count]

/-! ## Going on behind a program -/

/-- The state holds the names and the code of the program, but for the last instruction. -/
structure HoldsFront (source : Grammar.Source) (s : State) : Prop where
  code : s.code ++ [plain .halt] = source.code
  names : s.book.names = source.statements.names (namesBehind {} source.declarations)
  functionNames : s.book.functionNames = functionsBehind [] source.declarations
  entries : s.book.entries = entriesBehind noEntries {} 1 source.declarations
  sound : s.book.Sound

theorem HoldsFront.of_parts {s₁ s₂ : State} {ds : List Declaration} {b : Block} {ts us : List Terminal}
    (h₁ : Writes s s₁ [] [plain .start]) (hds : ReadsDeclarations s₁ s₂ ds ts)
    (hb : Fronts s₂ s' b us) (hbook : s.book = {}) (hlog : s.code = []) : HoldsFront ⟨ds, b⟩ s' := by
  have hlength₁ : s₁.code.length = 1 := by simpa [hlog] using h₁.length_code
  have hcode := hb.advances.code
  have hdsCode := hds.advances.code
  rw [hds.names, hds.entries, hds.advances.length_code, hlength₁, h₁.book, hbook] at hcode
  rw [hlength₁, h₁.book, hbook, h₁.code, hlog] at hdsCode
  have hnames := hb.binds.names
  have hfunctions := hds.functionNames
  have hentries := hds.entries
  rw [hds.names, h₁.book, hbook] at hnames
  rw [h₁.book, hbook] at hfunctions
  rw [hlength₁, h₁.book, hbook] at hentries
  refine ⟨?_, hnames, ?_, ?_, hb.binds.sound⟩
  · rw [hcode, hdsCode]
    rfl
  · rw [hb.binds.functionNames, hfunctions]
    rfl
  · rw [hb.binds.entries, hentries]
    rfl

theorem endsDeclarations_indents {functions : List String} {ts : List Terminal}
    (h : EndsDeclarations functions ts) (k : Nat) : EndsDeclarations functions (indents k ++ ts) := by
  cases k with
  | zero => exact h
  | succ k => exact endsDeclarations_indent functions _

/-- Behind the first instruction of a program there are its declarations. -/
theorem program_starts {ts : List Terminal} (h : Ahead budget 3 s ts) (hbook : s.book = {}) :
    ∃ s₁, Writes s s₁ [] [plain .start] ∧ Ahead budget 3 s₁ ts ∧ s₁.book = {} ∧
      programWithin budget s = (do
        declarationsWithin budget
        statementsWithin budget .topLevel
        endingWithin) s₁ := by
  obtain ⟨s₁, hstart⟩ : ∃ s₁, emitPlain .start s = .ok () s₁ := exists_emitPlain rfl s
  have hw := emitPlain_ok hstart
  exact ⟨s₁, hw, h.stay hw, by rw [hw.book, hbook], bind_of_ok hstart⟩

/-- What stands at the front is a program of its own that leaves no block open, and what stands behind
it is no more of its last statement and no declaration: then the compilation does with the front what
it does with that program, and goes on with the statements behind. -/
theorem program_front {source : Grammar.Source} {ts : List Terminal}
    (hreading : source.Reading ts [.mark .finish]) (hscoped : source.Scoped)
    (hclosed : source.leavesOpen = false) (hbehind : EndsExpression behind)
    (hnext : source.statements = .nil →
      EndsDeclarations (functionsBehind [] source.declarations) behind)
    (h : Ahead budget 3 s (ts ++ behind)) (hbook : s.book = {}) (hlog : s.code = []) :
    ∃ s' us k is, ts = us ++ indents k ∧ Advances s s' us is ∧ HoldsFront source s' ∧
      programWithin budget s =
        (statementsWithin (budget - source.statements.count) .topLevel >>= fun _ => endingWithin)
          s' := by
  obtain ⟨ds, b⟩ := source
  obtain ⟨us₁, us₂, rfl, hds, hb, hname⟩ := hreading
  -- the terminals of the statements, and the indentation behind the last one
  obtain ⟨k, vs, rfl, hfront⟩ : ∃ k vs, us₂ = vs ++ indents k ∧ ∀ after, b.Front vs after := by
    refine hb.front ?_
    cases b with
    | nil => rfl
    | cons => exact hclosed
  have hdsReading : DeclarationsReading ds us₁ (vs ++ indents k ++ behind) := by
    cases b with
    | nil => exact hds.of_closed hclosed _
    | cons st rest =>
      obtain ⟨v, vs, rfl⟩ := List.exists_cons_of_ne_nil (hfront []).ne_nil
      exact hds.of_follows (.inl rfl)
  have hstop : EndsDeclarations (functionsBehind [] ds) (vs ++ indents k ++ behind) := by
    cases b with
    | nil =>
      cases hfront []
      exact endsDeclarations_indents (hnext rfl) k
    | cons st rest =>
      obtain ⟨v, vs, rfl⟩ := List.exists_cons_of_ne_nil (hfront []).ne_nil
      have hends := endsDeclarations_of_reading hb (by simp) hname
      exact hends
  have hends : EndsExpression (vs ++ indents k ++ behind) := by
    rw [List.append_assoc]
    exact endsExpression_of_front (hfront _) (endsExpression_indents hbehind k)
  obtain ⟨s₁, hw₁, hahead₁, hbook₁, hrun⟩ := program_starts h hbook
  rw [List.append_assoc] at hahead₁
  obtain ⟨_, s₂, hdeclarations, hreads⟩ := accepted_declarations hdsReading
    (hahead₁.mono (show 0 + 1 ≤ 3 by omega)) (by rw [hbook₁]; exact hscoped.1)
    (by rw [hbook₁]; rfl) hends (by rw [hbook₁]; exact hstop)
  have hahead₂ : Ahead budget 3 s₂ (vs ++ (indents k ++ behind)) := by
    rw [← List.append_assoc]
    exact (hahead₁.advances hreads.advances hreads.sound).mono (by omega)
  have hscoped₂ : b.Scoped s₂.book.functionNames s₂.book.names := by
    rw [hreads.functionNames, hreads.names, hbook₁]
    exact hscoped.2
  obtain ⟨s₃, hstatements, hfronts⟩ :=
    statements_front (hfront _) (endsExpression_indents hbehind k) hahead₂ hscoped₂
  refine ⟨s₃, us₁ ++ vs, k, _, by simp,
    (hw₁.toAdvances.trans hreads.advances).trans hfronts.advances,
    .of_parts hw₁ hreads hfronts hbook hlog, ?_⟩
  rw [hrun, bind_of_ok hdeclarations]
  change EStateM.bind _ _ s₂ = EStateM.bind _ _ s₃
  simp only [EStateM.bind, hstatements]

/-- What is left of the compilation behind a program that ends with a block: more declarations, if
there have been no statements yet, or only the end. -/
def remainingWithin (budget : Nat) (source : Grammar.Source) : Action Program :=
  match source.statements with
  | .nil => do
    declarationsWithin (budget - source.declarations.length)
    statementsWithin budget .topLevel
    endingWithin
  | .cons .. => endingWithin

/-- The same where what stands at the front ends with a block and what stands behind it is no
statement. -/
theorem program_open {source : Grammar.Source} {ts : List Terminal}
    (hreading : source.Reading ts behind) (hscoped : source.Scoped)
    (hopen : source.leavesOpen = true) (hbehind : EndsExpression behind)
    (h : Ahead budget 3 s (ts ++ behind)) (hbook : s.book = {}) (hlog : s.code = []) :
    ∃ s' is, Advances s s' ts is ∧ HoldsFront source s' ∧
      programWithin budget s = remainingWithin budget source s' := by
  obtain ⟨ds, b⟩ := source
  obtain ⟨us₁, us₂, rfl, hds, hb, hname⟩ := hreading
  obtain ⟨s₁, hw₁, hahead₁, hbook₁, hrun⟩ := program_starts h hbook
  rw [List.append_assoc] at hahead₁
  have hscoped₁ : DeclarationsScoped s₁.book.functionNames s₁.book.names ds := by
    rw [hbook₁]
    exact hscoped.1
  have hhome : s₁.book.names.home = .global := by
    rw [hbook₁]
    rfl
  have hends := endsExpression_of_reading hb hbehind
  cases b with
  | nil =>
    obtain ⟨k, rfl, -⟩ := hb.eq_indents
    obtain rfl := eq_zero_of_head?_indents (hds.behind hopen)
    obtain ⟨s₂, hdeclarations, hreads, hahead₂⟩ :=
      declarations_front hds (hahead₁.mono (show 0 + 1 ≤ 3 by omega)) hscoped₁ hhome hends
    refine ⟨s₂, _, by simpa [indents] using hw₁.toAdvances.trans hreads.advances,
      .of_parts hw₁ hreads ⟨.refl s₂, .refl hreads.sound⟩ hbook hlog, hrun.trans ?_⟩
    change EStateM.bind _ _ s₁ = EStateM.bind _ _ s₂
    simp only [EStateM.bind, hdeclarations]
  | cons st rest =>
    have hstop : EndsDeclarations (functionsBehind s₁.book.functionNames ds) (us₂ ++ behind) := by
      rw [hbook₁]
      exact endsDeclarations_of_reading hb (fun hnil => absurd hnil hb.ne_nil) hname
    obtain ⟨_, s₂, hdeclarations, hreads⟩ := accepted_declarations hds
      (hahead₁.mono (show 0 + 1 ≤ 3 by omega)) hscoped₁ hhome hends hstop
    have hahead₂ : Ahead budget 3 s₂ (us₂ ++ behind) :=
      (hahead₁.advances hreads.advances hreads.sound).mono (by omega)
    have hscoped₂ : (Block.cons st rest).Scoped s₂.book.functionNames s₂.book.names := by
      rw [hreads.functionNames, hreads.names, hbook₁]
      exact hscoped.2
    obtain ⟨_, s₃, hstatements, hblock⟩ :=
      accepted_statements hb hbehind (j := 0) rfl hahead₂ (by simp) hscoped₂
    refine ⟨s₃, _, (hw₁.toAdvances.trans hreads.advances).trans hblock.advances,
      .of_parts hw₁ hreads ⟨hblock.advances, hblock.binds⟩ hbook hlog, ?_⟩
    rw [hrun, bind_of_ok hdeclarations, bind_of_ok hstatements]
    rfl

end StackPrimer.Compilation

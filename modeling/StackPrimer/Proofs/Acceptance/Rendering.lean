import Mathlib.Data.Set.List
import StackPrimer.Proofs.Acceptance.Program
import StackPrimer.Proofs.Grammar.Sparing

/-!
# Trees as they are usually written

A program is written with one indentation in front of each statement of a block, with none anywhere
else and with parentheses only where the structure of an expression needs them. Since indentation has
no depth, what is written so can be told apart from other trees only under three conditions: a block
is not empty, nothing follows an inner block inside of a block, and no `if` is open in front of an
`else` that is not its own. What is more, the statements of a program may not begin like one more
declaration.

Results:
* `Source.reading_rendered`: a tree that meets these conditions can be read of what it is written as.
* `run_rendering`: it can be written so, and the program of what it is written as is its code.
-/

namespace StackPrimer

namespace Grammar

open Compilation (Place)

/-! ## Trees that can be told apart -/

mutual

/-- The blocks of the statement can be told from what follows them. -/
def Statement.Regular : Statement → Prop
  | .choice _ yes => yes ≠ .nil ∧ yes.Regular .block
  | .alternative _ yes no =>
    yes ≠ .nil ∧ yes.Regular .block ∧ yes.awaitsElse = false ∧ no ≠ .nil ∧ no.Regular .block
  | .loop _ body => body ≠ .nil ∧ body.Regular .block
  | _ => True

/-- The same for statements one after the other, where inside of a block a statement with a block
is the last one. -/
def Block.Regular (place : Place) : Block → Prop
  | .nil => True
  | .cons s rest =>
    s.Regular ∧ (place = .block → s.leavesOpen = true → rest = .nil) ∧ rest.Regular place

end

/-- The block of the declaration, if it has one, can be told from what follows. -/
def Declaration.Regular : Declaration → Prop
  | assign .. => True
  | define _ _ body => body ≠ .nil ∧ body.Regular .block

/-- The parts of a program can be told apart. -/
structure Source.Regular (source : Source) : Prop where
  declarations : ∀ d ∈ source.declarations, d.Regular
  statements : source.statements.Regular .topLevel
  /-- The statements do not begin with what would be one more declaration. -/
  separate : ∀ x e rest, source.statements = .cons (.assign x e) rest →
    x ∈ functionsBehind [] source.declarations

/-! ## What they are written as -/

mutual

/-- The terminals of a statement with one indentation in front of each statement of a block. -/
def Statement.rendered : Statement → List Terminal
  | .print e => (Statement.print e).terminals
  | .assign x e => (Statement.assign x e).terminals
  | .call f arguments => (Statement.call f arguments).terminals
  | .choice c yes => .word .ifWord :: c.terminals ++ .sign .colon :: yes.rendered .block
  | .alternative c yes no =>
    .word .ifWord :: c.terminals ++ .sign .colon :: yes.rendered .block ++
      .word .elseWord :: .sign .colon :: no.rendered .block
  | .loop c body => .word .whileWord :: c.terminals ++ .sign .colon :: body.rendered .block

/-- The same for statements one after the other at this place. -/
def Block.rendered (place : Place) : Block → List Terminal
  | .nil => []
  | .cons s rest =>
    indents (if place = .block then 1 else 0) ++ s.rendered ++ rest.rendered place

end

/-- The terminals of a declaration with one indentation in front of each statement of its block. -/
def Declaration.rendered (d : Declaration) : List Terminal :=
  match d with
  | assign .. => d.header
  | define _ _ body => d.header ++ body.rendered .block

/-- The terminals of a program with one indentation in front of each statement of a block. -/
def Source.rendered (source : Source) : List Terminal :=
  source.declarations.flatMap Declaration.rendered ++ source.statements.rendered .topLevel

/-- What a program is usually written as: there are no more parentheses than needed, either. -/
def Source.rendering (source : Source) : List Terminal := source.spare.rendered

/-! ## Parentheses do not matter for telling apart -/

theorem Block.spare_eq_nil {b : Block} : b.spare = .nil ↔ b = .nil := by
  cases b <;> simp [Block.spare]

mutual

theorem Statement.Regular.spare : ∀ {s : Statement}, s.Regular → s.spare.Regular
  | .print _, _ => trivial
  | .assign .., _ => trivial
  | .call .., _ => trivial
  | .choice .., ⟨hne, hyes⟩ => ⟨mt Block.spare_eq_nil.mp hne, hyes.spare⟩
  | .alternative _ yes _, ⟨hyes, hy, helse, hno, hn⟩ =>
    ⟨mt Block.spare_eq_nil.mp hyes, hy.spare, yes.awaitsElse_spare.trans helse,
      mt Block.spare_eq_nil.mp hno, hn.spare⟩
  | .loop .., ⟨hne, hbody⟩ => ⟨mt Block.spare_eq_nil.mp hne, hbody.spare⟩

theorem Block.Regular.spare {place : Place} :
    ∀ {b : Block}, b.Regular place → b.spare.Regular place
  | .nil, _ => trivial
  | .cons s _, ⟨hs, hlast, hrest⟩ =>
    ⟨hs.spare, fun hplace hopen => by rw [hlast hplace (s.leavesOpen_spare ▸ hopen), Block.spare],
      hrest.spare⟩

end

theorem Declaration.Regular.spare {d : Declaration} (h : d.Regular) : d.spare.Regular := by
  cases d with
  | assign x e => trivial
  | define f parameters body => exact ⟨mt Block.spare_eq_nil.mp h.1, h.2.spare⟩

theorem Source.Regular.spare {source : Source} (h : source.Regular) : source.spare.Regular where
  declarations d hd := by
    obtain ⟨d, hmem, rfl⟩ := List.mem_map.mp hd
    exact (h.declarations d hmem).spare
  statements := h.statements.spare
  separate x e rest hb := by
    have hseparate := h.separate x
    rcases source with ⟨ds, b⟩
    rw [Source.spare, functionsBehind_spare]
    cases b with
    | nil => cases hb
    | cons s rest =>
      cases s <;> cases hb
      exact hseparate _ _ rfl

/-! ## What stands behind -/

/-- What stands here belongs to no block in front of it. -/
def EndsBlocks (ts : List Terminal) : Prop :=
  ts.head? ≠ some .indent ∧ ts.head? ≠ some (.word .elseWord)

theorem EndsBlocks.of_startsStatement {ts : List Terminal} (h : startsStatement ts = true) :
    EndsBlocks ts :=
  ⟨fun hhead => by simp [startsStatement, hhead, Kind.startsStatement] at h,
    fun hhead => by simp [startsStatement, hhead, Kind.startsStatement] at h⟩

theorem Statement.startsStatement_rendered (s : Statement) (ts : List Terminal) :
    startsStatement (s.rendered ++ ts) = true := by
  cases s <;> rfl

theorem Block.exists_rendered {b : Block} (h : b ≠ .nil) :
    ∃ ts, b.rendered .block = .indent :: ts := by
  cases b with
  | nil => exact absurd rfl h
  | cons s rest => exact ⟨_, rfl⟩

/-- The statements of a program begin, if there are any, where blocks end. -/
theorem Block.endsBlocks_rendered (b : Block) {behind : List Terminal} (h : EndsBlocks behind) :
    EndsBlocks (b.rendered .topLevel ++ behind) := by
  cases b with
  | nil => exact h
  | cons s rest =>
    rw [Block.rendered, List.append_assoc, List.append_assoc]
    exact .of_startsStatement (s.startsStatement_rendered _)

theorem endsBlocks_declarations (ds : List Declaration) {behind : List Terminal}
    (h : EndsBlocks behind) : EndsBlocks (ds.flatMap Declaration.rendered ++ behind) := by
  cases ds with
  | nil => exact h
  | cons d ds => cases d <;> exact ⟨by simp [Declaration.rendered, Declaration.header],
      by simp [Declaration.rendered, Declaration.header]⟩

/-! ## Reading what is written -/

mutual

/-- A statement can be read of what it is written as, where what it leaves open does not go on. -/
theorem Statement.reading_rendered : ∀ (s : Statement) {behind : List Terminal}, s.Regular →
    (s.leavesOpen = true → behind.head? ≠ some .indent) →
    (s.awaitsElse = true → behind.head? ≠ some (.word .elseWord)) →
    s.Reading s.rendered behind
  | .print e, behind, _, _, _ => .print e behind
  | .assign x e, behind, _, _, _ => .assign x e behind
  | .call f arguments, behind, _, _, _ => .call f arguments behind
  | .choice c yes, behind, ⟨hne, hyes⟩, hindent, helse => by
    obtain ⟨ts, hts⟩ := Block.exists_rendered hne
    have hreading := yes.reading_rendered hyes (hindent rfl) (fun _ => helse rfl) (by simp)
    rw [hts] at hreading
    rw [Statement.rendered, hts]
    exact .choice hreading (helse rfl)
  | .alternative c yes no, behind, ⟨hyes, hy, hclosed, hno, hn⟩, hindent, helse => by
    obtain ⟨ts, hts⟩ := Block.exists_rendered hyes
    obtain ⟨us, hus⟩ := Block.exists_rendered hno
    have hfirst : yes.Reading .block (yes.rendered .block)
        (.word .elseWord :: .sign .colon :: .indent :: us ++ behind) :=
      yes.reading_rendered hy (by simp) (by simp [hclosed]) (by simp)
    have hsecond := no.reading_rendered hn (hindent rfl) helse (by simp)
    rw [hts] at hfirst
    rw [hus] at hsecond
    rw [Statement.rendered, hts, hus]
    exact .alternative hfirst hsecond
  | .loop c body, behind, ⟨hne, hbody⟩, hindent, helse => by
    obtain ⟨ts, hts⟩ := Block.exists_rendered hne
    have hreading := body.reading_rendered hbody (hindent rfl) helse (by simp)
    rw [hts] at hreading
    rw [Statement.rendered, hts]
    exact .loop hreading

/-- The same for statements one after the other, where the terminals behind belong to no block and, at
the top level, begin no statement. -/
theorem Block.reading_rendered {place : Place} : ∀ (b : Block) {behind : List Terminal},
    b.Regular place → behind.head? ≠ some .indent →
    (b.awaitsElse = true → behind.head? ≠ some (.word .elseWord)) →
    (place = .topLevel → startsStatement behind = false) →
    b.Reading place (b.rendered place) behind
  | .nil, behind, _, hindent, _, hstop =>
    .nil (k := 0) hindent (Or.rec hstop fun h => absurd h (Nat.lt_irrefl 0))
  | .cons s .nil, behind, ⟨hs, _, hrest⟩, hindent, helse, hstop =>
    .cons (fun hplace => by simp [hplace]) (s.reading_rendered hs (fun _ => hindent) helse)
      (Block.reading_rendered .nil hrest hindent (by simp [Block.awaitsElse]) hstop)
  | .cons s (.cons s' rest), behind, ⟨hs, hlast, hrest⟩, hindent, helse, hstop => by
    -- inside of a block nothing follows what leaves a block open
    have hends : s.leavesOpen = true →
        EndsBlocks (Block.rendered place (.cons s' rest) ++ behind) := by
      intro hopen
      cases place with
      | block => cases hlast rfl hopen
      | topLevel =>
        rw [Block.rendered, List.append_assoc, List.append_assoc]
        exact .of_startsStatement (s'.startsStatement_rendered _)
    exact .cons (fun hplace => by simp [hplace])
      (s.reading_rendered hs (fun hopen => (hends hopen).1)
        fun helse => (hends (leavesOpen_of_awaitsElse helse)).2)
      (Block.reading_rendered (.cons s' rest) hrest hindent helse hstop)

end

theorem Declaration.reading_rendered (d : Declaration) {behind : List Terminal} (h : d.Regular)
    (hbehind : EndsBlocks behind) : d.Reading d.rendered behind := by
  cases d with
  | assign x e => exact .assign x e behind
  | define f parameters body =>
    obtain ⟨ts, hts⟩ := Block.exists_rendered h.1
    have hreading := body.reading_rendered h.2 hbehind.1 (fun _ => hbehind.2) (by simp)
    rw [hts] at hreading
    rw [Declaration.rendered, hts]
    exact .define hreading

theorem declarations_reading_rendered (ds : List Declaration) {behind : List Terminal}
    (h : ∀ d ∈ ds, d.Regular) (hbehind : EndsBlocks behind) :
    DeclarationsReading ds (ds.flatMap Declaration.rendered) behind := by
  induction ds with
  | nil => exact .nil
  | cons d ds ih =>
    rw [List.forall_mem_cons] at h
    exact .cons (d.reading_rendered h.1 (endsBlocks_declarations ds hbehind)) (ih h.2)

/-- A tree whose parts can be told apart can be read of what it is written as. -/
theorem Source.reading_rendered {source : Source} (h : source.Regular) (hscoped : source.Scoped)
    (us : List Terminal) : source.Reading source.rendered (.mark .finish :: us) := by
  have hends : EndsBlocks (.mark .finish :: us) := ⟨by simp, by simp⟩
  refine ⟨_, _, rfl,
    declarations_reading_rendered _ h.declarations (source.statements.endsBlocks_rendered hends),
    source.statements.reading_rendered h.statements hends.1 (fun _ => hends.2) (fun _ => rfl), ?_⟩
  intro x hx
  obtain ⟨ds, b⟩ := source
  cases b with
  | nil => cases hx
  | cons s rest =>
    cases s with
    | assign y e =>
      cases hx
      exact h.separate _ e rest rfl
    | call f arguments =>
      cases hx
      exact hscoped.2.1.1
    | _ => cases hx

/-! ## Tokens for what is written -/

/-- Some token has this terminal. -/
def Terminal.Written (t : Terminal) : Prop := t ∈ Set.range Terminal.ofToken

namespace Terminal

@[simp] theorem written_name (x : String) : (name x).Written := ⟨⟨.name, x, 1, 0, 0⟩, rfl⟩

@[simp] theorem written_number (x : String) : (number x).Written := ⟨⟨.number, x, 1, 0, 0⟩, rfl⟩

@[simp] theorem written_sign (x : Sign) : (sign x).Written := ⟨⟨.sign x, "", 1, 0, 0⟩, rfl⟩

@[simp] theorem written_word (w : Keyword) : (word w).Written := ⟨⟨.word w, "", 1, 0, 0⟩, rfl⟩

@[simp] theorem written_indent : indent.Written := ⟨⟨.indent, "", 1, 0, 0⟩, rfl⟩

theorem written_commaSeparated (parts : List (List Terminal))
    (h : ∀ part ∈ parts, ∀ t ∈ part, t.Written) : ∀ t ∈ commaSeparated parts, t.Written := by
  cases parts with
  | nil => simp [commaSeparated]
  | cons first rest =>
    rw [List.forall_mem_cons] at h
    have hrest : ∀ t ∈ rest.flatMap (sign .comma :: ·), t.Written := by
      intro t ht
      obtain ⟨part, hpart, ht⟩ := List.mem_flatMap.mp ht
      rcases List.mem_cons.mp ht with rfl | ht
      · exact written_sign .comma
      · exact h.2 part hpart t ht
    exact List.forall_mem_append.mpr ⟨h.1, hrest⟩

end Terminal

theorem Expr.written {l : Level} (e : Expr l) : ∀ t ∈ e.terminals, t.Written := by
  induction e with
  | ofSum e ih => exact ih
  | ofTerm e ih => exact ih
  | ofFactor e ih => exact ih
  | _ => simp_all [terminals, or_imp]

theorem Condition.written (c : Condition) : ∀ t ∈ c.terminals, t.Written := by
  simpa [terminals, or_imp, forall_and] using ⟨c.left.written, c.right.written⟩

mutual

theorem Statement.written : ∀ (s : Statement), ∀ t ∈ s.rendered, t.Written
  | .print e => by simpa [Statement.rendered, Statement.terminals, or_imp, forall_and] using e.written
  | .assign x e => by simpa [Statement.rendered, Statement.terminals, or_imp, forall_and] using e.written
  | .call f arguments => by
    have h := Terminal.written_commaSeparated (arguments.map Expr.terminals)
      (List.forall_mem_map.mpr fun e _ => e.written)
    simpa [Statement.rendered, Statement.terminals, or_imp, forall_and] using h
  | .choice c yes => by
    simpa [Statement.rendered, or_imp, forall_and] using ⟨c.written, yes.written⟩
  | .alternative c yes no => by
    simpa [Statement.rendered, or_imp, forall_and] using ⟨c.written, yes.written, no.written⟩
  | .loop c body => by
    simpa [Statement.rendered, or_imp, forall_and] using ⟨c.written, body.written⟩

theorem Block.written {place : Place} : ∀ (b : Block), ∀ t ∈ b.rendered place, t.Written
  | .nil => by simp [Block.rendered]
  | .cons s rest => by
    simpa [Block.rendered, indents, or_imp, forall_and] using ⟨s.written, rest.written⟩

end

theorem Declaration.written (d : Declaration) : ∀ t ∈ d.rendered, t.Written := by
  cases d with
  | assign x e => simpa [rendered, header, or_imp, forall_and] using e.written
  | define f parameters body =>
    have h := Terminal.written_commaSeparated (parameters.map fun x => [Terminal.name x])
      (List.forall_mem_map.mpr (by simp))
    simpa [rendered, header, or_imp, forall_and] using ⟨h, body.written⟩

/-- Every program can be written. -/
theorem Source.exists_tokens (source : Source) :
    ∃ body : List Token, body.map Terminal.ofToken = source.rendering := by
  have h : ∀ t ∈ source.rendering, t.Written := by
    refine List.forall_mem_append.mpr ⟨fun t ht => ?_, source.spare.statements.written⟩
    obtain ⟨d, -, ht⟩ := List.mem_flatMap.mp ht
    exact d.written t ht
  have hrange : source.rendering ∈ Set.range (List.map Terminal.ofToken) := by
    rw [Set.range_list_map]
    exact h
  exact hrange

end Grammar

namespace Compilation

open Grammar

/-- A program whose parts can be told apart and whose names denote what they are used for can be
written as usual. Whatever tokens it is written with, they are accepted up to the end, and the program
they stand for is the code of the tree. -/
theorem run_rendering {source : Grammar.Source} (hregular : source.Regular)
    (hscoped : source.Scoped) :
    (∃ body : List Token, body.map Terminal.ofToken = source.rendering) ∧
      ∀ (body : List Token) (last : Token) (rest : List Token),
        body.map Terminal.ofToken = source.rendering → last.kind = .finish →
        ∃ p, (run (body ++ last :: rest) {} {}).1 = .ok p ∧ p.toList = source.code := by
  refine ⟨source.exists_tokens, fun body last rest hbody hlast => ?_⟩
  have hreading : source.spare.Reading (body.map Terminal.ofToken)
      ((last :: rest).map Terminal.ofToken) := by
    rw [hbody, List.map_cons, ofToken_eq_mark hlast (by simp) (by simp)]
    exact Source.reading_rendered hregular.spare (source.scoped_spare.mpr hscoped) _
  rw [← source.code_spare]
  exact run_of_reading hreading hlast (source.scoped_spare.mpr hscoped)

/-- The difference of two variables. -/
def difference (x y : String) : Expr .sum :=
  .add (.ofTerm (.ofFactor (.name x))) .minus (.ofFactor (.name y))

/-- The block of a function of `a`: with parentheses, of which the argument of the call needs none and
the product needs those around its first factor. -/
def differenceBody : Block :=
  .cons (.alternative ⟨mention "a", .greater, mention "x"⟩
    (.cons (.call "f" [.ofSum (.ofTerm (.ofFactor (.group (.ofSum (difference "a" "x")))))]) .nil)
    (.cons (.print (.ofSum (.ofTerm (.multiply (.ofFactor (.group (.ofSum (difference "a" "x"))))
      .times (.group (mention "a")))))) .nil)) .nil

/-- A program with that function. -/
def differenceSource : Grammar.Source where
  declarations := [.assign "x" .input, .define "f" ["a"] differenceBody]
  statements := .cons (.call "f" [mention "x"]) .nil

/-- What it is usually written as. -/
def differenceTokens : List Token :=
  [token .name "x", token (.sign .assign) "=", token (.word .inputWord) "input",
    token (.sign .opening) "(", token (.sign .closing) ")",
    token (.word .defWord) "def", token .name "f", token (.sign .opening) "(", token .name "a",
    token (.sign .closing) ")", token (.sign .colon) ":", token .indent "  ",
    token (.word .ifWord) "if", token .name "a", token (.sign .greater) ">", token .name "x",
    token (.sign .colon) ":", token .indent "  ", token .name "f", token (.sign .opening) "(",
    token .name "a", token (.sign .minus) "-", token .name "x", token (.sign .closing) ")",
    token (.word .elseWord) "else", token (.sign .colon) ":", token .indent "  ",
    token (.word .printWord) "print", token (.sign .opening) "(", token (.sign .opening) "(",
    token .name "a", token (.sign .minus) "-", token .name "x", token (.sign .closing) ")",
    token (.sign .times) "*", token .name "a", token (.sign .closing) ")",
    token .name "f", token (.sign .opening) "(", token .name "x", token (.sign .closing) ")"]

theorem differenceSource_regular : differenceSource.Regular where
  declarations := by
    simp [differenceSource, differenceBody, Declaration.Regular, Block.Regular, Statement.Regular,
      Block.awaitsElse, Statement.awaitsElse]
  statements := by simp [differenceSource, Block.Regular, Statement.Regular]
  separate := by simp [differenceSource]

theorem differenceSource_scoped : differenceSource.Scoped := by
  simp [Grammar.Source.Scoped, DeclarationsScoped, Declaration.Scoped, differenceSource,
    differenceBody, difference, Block.Scoped, Statement.Scoped, Condition.Scoped, Expr.Scoped,
    mention, functionsBehind, namesBehind, Declaration.functions, Declaration.names, Block.names,
    Statement.names, Names.bind, Names.enter, Names.extend, Names.scope?, Names.inner]

/-- A function with a choice inside, written with parentheses only where they are needed. -/
theorem run_rendering_difference :
    (differenceSource.Regular ∧ differenceSource.Scoped ∧
      differenceTokens.map Terminal.ofToken = differenceSource.rendering) ∧
    ∃ p, (run (differenceTokens ++ [token .finish ""]) {} {}).1 = .ok p ∧
      p.toList = differenceSource.code := by
  have h : differenceTokens.map Terminal.ofToken = differenceSource.rendering := by rfl
  exact ⟨⟨differenceSource_regular, differenceSource_scoped, h⟩,
    (run_rendering differenceSource_regular differenceSource_scoped).2 _ _ [] h rfl⟩

end Compilation

end StackPrimer

import StackPrimer.Compilation.Statement
import StackPrimer.Proofs.Grammar.Tree

/-!
# Where indentation stands

A tree says nothing about indentation. Here is where a stream of tokens may have it, and to which
tree it then belongs. The depth of indentation is not known, so that two rules decide:

* a statement that follows indentation inside a block belongs to the innermost block that is open;
* an `else` belongs to the innermost `if` that is open and still without one.

The first is `Allows`: where statements leave an inner block open, no statement of an outer block can
follow indentation. The second is the condition on `alternative` in `Statement.Lays`.

Results:
* `Source.terminals_of_lays`: a tree laid out has its own terminals, indentation aside.
-/

namespace StackPrimer.Grammar

open Compilation (Place)

/-! ## What is open behind a statement -/

/-- Whether the statement ends with a block, which is then still open. -/
def Statement.leavesOpen : Statement → Bool
  | .choice .. | .alternative .. | .loop .. => true
  | _ => false

mutual

/-- Whether an `if` without `else` is open behind the statement. -/
def Statement.awaitsElse : Statement → Bool
  | .choice .. => true
  | .alternative _ _ no => no.awaitsElse
  | .loop _ body => body.awaitsElse
  | _ => false

/-- Whether an `if` without `else` is open behind the last statement. -/
def Block.awaitsElse : Block → Bool
  | .nil => false
  | .cons s .nil => s.awaitsElse
  | .cons _ rest => rest.awaitsElse

end

/-- Whether the declaration ends with a block. -/
def Declaration.leavesOpen : Declaration → Bool
  | assign .. => false
  | define .. => true

/-! ## Layout -/

/-- Indentation, so many times. -/
def indents (k : Nat) : List Terminal := List.replicate k .indent

@[simp] theorem indents_zero : indents 0 = [] := rfl

theorem indents_add (j k : Nat) : indents (j + k) = indents j ++ indents k :=
  List.replicate_append_replicate.symm

/-- Whether a statement at this place may have `k` indentations in front, where a block is open
inside of the place or not. In a block each statement has some, but none can follow an inner block;
at the top level indentation would put the statement into the block that is open. -/
def Allows (place : Place) (opened : Bool) (k : Nat) : Prop :=
  match place with
  | .block => opened = false ∧ 0 < k
  | .topLevel => opened = true → k = 0

mutual

/-- The statement may be written as these terminals. -/
inductive Statement.Lays : Statement → List Terminal → Prop
  | print (e : Expression) : Statement.Lays (.print e) (Statement.print e).terminals
  | assign (x : String) (e : Expression) :
      Statement.Lays (.assign x e) (Statement.assign x e).terminals
  | call (f : String) (arguments : List Expression) :
      Statement.Lays (.call f arguments) (Statement.call f arguments).terminals
  | choice {c : Condition} {yes : Block} {ts : List Terminal} :
      Block.Lays .block false yes (.indent :: ts) →
      Statement.Lays (.choice c yes)
        (.word .ifWord :: c.terminals ++ .sign .colon :: .indent :: ts)
  | alternative {c : Condition} {yes no : Block} {ts us : List Terminal} :
      Block.Lays .block false yes (.indent :: ts) → yes.awaitsElse = false →
      Block.Lays .block false no (.indent :: us) →
      Statement.Lays (.alternative c yes no)
        (.word .ifWord :: c.terminals ++ .sign .colon :: .indent :: ts ++
          .word .elseWord :: .sign .colon :: .indent :: us)
  | loop {c : Condition} {body : Block} {ts : List Terminal} :
      Block.Lays .block false body (.indent :: ts) →
      Statement.Lays (.loop c body)
        (.word .whileWord :: c.terminals ++ .sign .colon :: .indent :: ts)

/-- The statements at this place may be written as these terminals, after something that leaves a
block open or not. -/
inductive Block.Lays : Place → Bool → Block → List Terminal → Prop
  | nil {place : Place} {opened : Bool} {k : Nat} : (opened = true → k = 0) →
      Block.Lays place opened .nil (indents k)
  | cons {place : Place} {opened : Bool} {k : Nat} {s : Statement} {rest : Block}
      {ts us : List Terminal} :
      Allows place opened k → Statement.Lays s ts → Block.Lays place s.leavesOpen rest us →
      Block.Lays place opened (.cons s rest) (indents k ++ ts ++ us)

end

/-- The declaration may be written as these terminals. -/
inductive Declaration.Lays : Declaration → List Terminal → Prop
  | assign (x : String) (e : Expression) :
      Declaration.Lays (.assign x e) (Declaration.assign x e).terminals
  | define {f : String} {parameters : List String} {body : Block} {ts : List Terminal} :
      Block.Lays .block false body (.indent :: ts) →
      Declaration.Lays (.define f parameters body)
        ((Declaration.define f parameters body).header ++ .indent :: ts)

/-- The program may be written as these terminals: declarations have no indentation in front. The
flag says whether something that leaves a block open comes before. -/
inductive Source.Lays : Bool → Source → List Terminal → Prop
  | statements {opened : Bool} {b : Block} {ts : List Terminal} :
      Block.Lays .topLevel opened b ts → Source.Lays opened ⟨[], b⟩ ts
  | declaration {opened : Bool} {d : Declaration} {ds : List Declaration} {b : Block}
      {ts us : List Terminal} :
      d.Lays ts → Source.Lays d.leavesOpen ⟨ds, b⟩ us →
      Source.Lays opened ⟨d :: ds, b⟩ (ts ++ us)

/-- The stream is the program laid out, up to and including the first token that is the end. -/
def Source.Spells (source : Source) (tokens : List Token) : Prop :=
  ∃ body last rest, tokens = body ++ last :: rest ∧ last.kind = .finish ∧
    (∀ t ∈ body, t.kind ≠ .finish) ∧ Source.Lays false source (body.map Terminal.ofToken)

/-! ## Terminals without indentation -/

/-- The terminals other than indentation. -/
def unindented (ts : List Terminal) : List Terminal := ts.filter (· ≠ .indent)

@[simp] theorem unindented_nil : unindented [] = [] := rfl

@[simp] theorem unindented_cons_indent (ts : List Terminal) :
    unindented (.indent :: ts) = unindented ts := by
  simp [unindented]

@[simp] theorem unindented_cons_name (x : String) (ts : List Terminal) :
    unindented (.name x :: ts) = .name x :: unindented ts := by
  simp [unindented]

@[simp] theorem unindented_cons_number (x : String) (ts : List Terminal) :
    unindented (.number x :: ts) = .number x :: unindented ts := by
  simp [unindented]

@[simp] theorem unindented_cons_sign (x : Sign) (ts : List Terminal) :
    unindented (.sign x :: ts) = .sign x :: unindented ts := by
  simp [unindented]

@[simp] theorem unindented_cons_word (w : Keyword) (ts : List Terminal) :
    unindented (.word w :: ts) = .word w :: unindented ts := by
  simp [unindented]

@[simp] theorem unindented_append (ts us : List Terminal) :
    unindented (ts ++ us) = unindented ts ++ unindented us :=
  List.filter_append ..

@[simp] theorem unindented_indents (k : Nat) : unindented (indents k) = [] := by
  simp [unindented, indents]

/-- An expression has no indentation. -/
@[simp] theorem Expr.unindented_terminals {l : Level} (e : Expr l) :
    unindented e.terminals = e.terminals := by
  induction e with
  | input => rfl
  | ofSum e ih => exact ih
  | ofTerm e ih => exact ih
  | add left s right ihl ihr => simp [Expr.terminals, ihl, ihr]
  | ofFactor e ih => exact ih
  | multiply left s right ihl ihr => simp [Expr.terminals, ihl, ihr]
  | name x => simp [Expr.terminals]
  | number x => simp [Expr.terminals]
  | group e ih => simp [Expr.terminals, ih]

@[simp] theorem Condition.unindented_terminals (c : Condition) :
    unindented c.terminals = c.terminals := by
  simp [Condition.terminals]

theorem unindented_commaSeparated {parts : List (List Terminal)}
    (h : ∀ part ∈ parts, unindented part = part) :
    unindented (Terminal.commaSeparated parts) = Terminal.commaSeparated parts := by
  have hrest : ∀ parts : List (List Terminal), (∀ part ∈ parts, unindented part = part) →
      unindented (parts.flatMap (.sign .comma :: ·)) = parts.flatMap (.sign .comma :: ·) := by
    intro parts
    induction parts with
    | nil => simp
    | cons part parts ih =>
      intro h
      rw [List.forall_mem_cons] at h
      simp [h.1, ih h.2]
  cases parts with
  | nil => rfl
  | cons first rest =>
    rw [List.forall_mem_cons] at h
    simp [Terminal.commaSeparated, h.1, hrest rest h.2]

mutual

/-- A statement laid out has its own terminals, indentation aside. -/
theorem Statement.terminals_of_lays :
    ∀ {s : Statement} {ts : List Terminal}, s.Lays ts → unindented ts = s.terminals
  | _, _, .print e => by simp [Statement.terminals]
  | _, _, .assign x e => by simp [Statement.terminals]
  | _, _, .call f arguments => by
    have h : unindented (Terminal.commaSeparated (arguments.map Expr.terminals)) = _ :=
      unindented_commaSeparated (by simp)
    simp [Statement.terminals, h]
  | _, _, .choice hyes => by
    have h := Block.terminals_of_lays hyes
    rw [unindented_cons_indent] at h
    simp [Statement.terminals, h]
  | _, _, .alternative hyes _ hno => by
    have h := Block.terminals_of_lays hyes
    have h' := Block.terminals_of_lays hno
    rw [unindented_cons_indent] at h h'
    simp [Statement.terminals, h, h']
  | _, _, .loop hbody => by
    have h := Block.terminals_of_lays hbody
    rw [unindented_cons_indent] at h
    simp [Statement.terminals, h]

/-- The same for statements one after the other. -/
theorem Block.terminals_of_lays :
    ∀ {place : Place} {opened : Bool} {b : Block} {ts : List Terminal}, b.Lays place opened ts →
      unindented ts = b.terminals
  | _, _, _, _, .nil _ => by simp [Block.terminals]
  | _, _, _, _, .cons _ hs hrest => by
    simp [Block.terminals, Statement.terminals_of_lays hs, Block.terminals_of_lays hrest]

end

theorem Declaration.terminals_of_lays {d : Declaration} {ts : List Terminal} (h : d.Lays ts) :
    unindented ts = d.terminals := by
  cases h with
  | assign x e => simp [Declaration.terminals, Declaration.header]
  | @define f parameters body ts hbody =>
    have h := Block.terminals_of_lays hbody
    have h' : unindented
        (Terminal.commaSeparated (parameters.map fun x => [Terminal.name x])) = _ :=
      unindented_commaSeparated (by simp)
    rw [unindented_cons_indent] at h
    simp [Declaration.terminals, Declaration.header, h, h']

/-- A program laid out has its own terminals, indentation aside. -/
theorem Source.terminals_of_lays {opened : Bool} {source : Source} {ts : List Terminal}
    (h : Source.Lays opened source ts) : unindented ts = source.terminals := by
  induction h with
  | statements hb => simp [Source.terminals, Block.terminals_of_lays hb]
  | declaration hd _ ih =>
    simp only [Source.terminals] at ih
    simp [Source.terminals, Declaration.terminals_of_lays hd, ih]

end StackPrimer.Grammar

import StackPrimer.Proofs.Grammar.Code

/-!
# Trees with few parentheses

Parentheses are in the tree of an expression because they are in its grammar, but they mean nothing
beyond the structure that they give. A formula is that structure alone. Its tree has parentheses
where a part binds less tightly than its place asks for, and nowhere else.

Results:
* `Formula.formula_expr`: the tree of a formula has the structure of the formula.
* `Formula.length_expr_le`: no tree of that structure has fewer terminals.
* `Source.code_spare`, `Source.scoped_spare`: with few parentheses a program has the code and the
  names that it has with more.
-/

namespace StackPrimer.Grammar

/-! ## Formulas -/

/-- The structure of an expression. -/
inductive Formula
  | input
  | name (text : String)
  | number (x : Literal)
  | add (left : Formula) (s : AddSign) (right : Formula)
  | multiply (left : Formula) (s : MulSign) (right : Formula)

/-- The structure of an expression, which its parentheses are no part of. -/
def Expr.formula {l : Level} : Expr l → Formula
  | input => .input
  | ofSum e => e.formula
  | ofTerm e => e.formula
  | add left s right => .add left.formula s right.formula
  | ofFactor e => e.formula
  | multiply left s right => .multiply left.formula s right.formula
  | name x => .name x
  | number x => .number x
  | group e => e.formula

/-! ## Parentheses where they are needed -/

/-- How tightly trees of a nonterminal bind. -/
def Level.tightness : Level → Nat
  | expression => 0
  | sum => 1
  | term => 2
  | factor => 3

namespace Expr

/-- Any tree as an expression of its own. -/
def alone : {l : Level} → Expr l → Expression
  | .expression, e => e
  | .sum, e => .ofSum e
  | .term, e => .ofSum (.ofTerm e)
  | .factor, e => .ofSum (.ofTerm (.ofFactor e))

/-- Any tree in the place of a factor. -/
def asFactor : {l : Level} → Expr l → Expr .factor
  | .factor, e => e
  | _, e => .group e.alone

/-- Any tree in the place of a term. -/
def asTerm : {l : Level} → Expr l → Expr .term
  | .term, e => e
  | _, e => .ofFactor e.asFactor

/-- Any tree in the place of a sum. -/
def asSum : {l : Level} → Expr l → Expr .sum
  | .sum, e => e
  | _, e => .ofTerm e.asTerm

/-- Any tree in a place for the nonterminal: with parentheses, if it does not bind tightly enough. -/
def placed {l : Level} (e : Expr l) : (place : Level) → Expr place
  | .expression => e.alone
  | .sum => e.asSum
  | .term => e.asTerm
  | .factor => e.asFactor

variable {l : Level}

@[simp] theorem formula_placed (e : Expr l) (place : Level) : (e.placed place).formula = e.formula := by
  cases place <;> cases l <;> rfl

@[simp] theorem code_placed (n : Names) (e : Expr l) (place : Level) :
    (e.placed place).code n = e.code n := by
  cases place <;> cases l <;> rfl

@[simp] theorem scoped_placed (n : Names) (e : Expr l) (place : Level) :
    (e.placed place).Scoped n = e.Scoped n := by
  cases place <;> cases l <;> rfl

/-- Parentheses stand around what binds less tightly than its place asks for. -/
theorem terminals_placed (e : Expr l) (place : Level) :
    (e.placed place).terminals =
      if l.tightness < place.tightness then .sign .opening :: e.terminals ++ [.sign .closing]
      else e.terminals := by
  cases place <;> cases l <;> rfl

end Expr

namespace Formula

/-- The tree of a formula in a place for the nonterminal. -/
def expr : Formula → (place : Level) → Expr place
  | input => Expr.input.placed
  | name x => (Expr.name x).placed
  | number x => (Expr.number x).placed
  | add left s right => (Expr.add (left.expr .sum) s (right.expr .term)).placed
  | multiply left s right => (Expr.multiply (left.expr .term) s (right.expr .factor)).placed

/-- The tree of a formula has the structure of the formula. -/
@[simp] theorem formula_expr (f : Formula) (place : Level) : (f.expr place).formula = f := by
  induction f generalizing place with
  | input => exact Expr.formula_placed ..
  | name x => exact Expr.formula_placed ..
  | number x => exact Expr.formula_placed ..
  | add left s right ihl ihr => rw [expr, Expr.formula_placed, Expr.formula, ihl, ihr]
  | multiply left s right ihl ihr => rw [expr, Expr.formula_placed, Expr.formula, ihl, ihr]

/-- Each formula is put into its place by `Expr.placed`. -/
theorem exists_expr_eq_placed (f : Formula) :
    ∃ (l : Level) (e : Expr l), ∀ place, f.expr place = e.placed place := by
  cases f <;> exact ⟨_, _, fun _ => rfl⟩

/-- A place that asks for less takes no more terminals. -/
theorem length_expr_le_of_tightness_le (f : Formula) {place place' : Level}
    (h : place.tightness ≤ place'.tightness) :
    (f.expr place).terminals.length ≤ (f.expr place').terminals.length := by
  obtain ⟨l, e, he⟩ := f.exists_expr_eq_placed
  rw [he, he, Expr.terminals_placed, Expr.terminals_placed]
  split <;> split <;> (simp; try omega)

/-- Wherever a formula stands, it takes one pair of parentheses at most. -/
theorem length_expr_le_add_two (f : Formula) (place place' : Level) :
    (f.expr place).terminals.length ≤ (f.expr place').terminals.length + 2 := by
  obtain ⟨l, e, he⟩ := f.exists_expr_eq_placed
  rw [he, he, Expr.terminals_placed, Expr.terminals_placed]
  split <;> split <;> (simp; try omega)

/-- No tree of the structure has fewer terminals than the tree of the formula. -/
theorem length_expr_le {l : Level} (e : Expr l) :
    (e.formula.expr l).terminals.length ≤ e.terminals.length := by
  induction e with
  | input => exact Nat.le_refl _
  | ofSum e ih => exact Nat.le_trans (length_expr_le_of_tightness_le e.formula (by decide)) ih
  | ofTerm e ih => exact Nat.le_trans (length_expr_le_of_tightness_le e.formula (by decide)) ih
  | add left s right ihl ihr =>
    rw [Expr.formula, expr, Expr.terminals_placed, if_neg (by decide)]
    simp only [Expr.terminals, List.length_append, List.length_cons]
    omega
  | ofFactor e ih => exact Nat.le_trans (length_expr_le_of_tightness_le e.formula (by decide)) ih
  | multiply left s right ihl ihr =>
    rw [Expr.formula, expr, Expr.terminals_placed, if_neg (by decide)]
    simp only [Expr.terminals, List.length_append, List.length_cons]
    omega
  | name x => exact Nat.le_refl _
  | number x => exact Nat.le_refl _
  | group e ih =>
    have h := e.formula.length_expr_le_add_two .factor .expression
    simp only [Expr.terminals, List.length_append, List.length_cons, List.length_nil]
    rw [Expr.formula]
    omega

/-- The code of an expression is the code of the tree of its structure. -/
@[simp] theorem code_expr (n : Names) {l : Level} (e : Expr l) (place : Level) :
    (e.formula.expr place).code n = e.code n := by
  induction e generalizing place with
  | input => exact Expr.code_placed ..
  | ofSum e ih => exact ih place
  | ofTerm e ih => exact ih place
  | add left s right ihl ihr =>
    rw [Expr.formula, expr, Expr.code_placed, Expr.code, ihl, ihr, Expr.code]
  | ofFactor e ih => exact ih place
  | multiply left s right ihl ihr =>
    rw [Expr.formula, expr, Expr.code_placed, Expr.code, ihl, ihr, Expr.code]
  | name x => exact Expr.code_placed ..
  | number x => exact Expr.code_placed ..
  | group e ih => exact ih place

@[simp] theorem scoped_expr (n : Names) {l : Level} (e : Expr l) (place : Level) :
    (e.formula.expr place).Scoped n = e.Scoped n := by
  induction e generalizing place with
  | input => exact Expr.scoped_placed ..
  | ofSum e ih => exact ih place
  | ofTerm e ih => exact ih place
  | add left s right ihl ihr =>
    rw [Expr.formula, expr, Expr.scoped_placed, Expr.Scoped, ihl, ihr, Expr.Scoped]
  | ofFactor e ih => exact ih place
  | multiply left s right ihl ihr =>
    rw [Expr.formula, expr, Expr.scoped_placed, Expr.Scoped, ihl, ihr, Expr.Scoped]
  | name x => exact Expr.scoped_placed ..
  | number x => exact Expr.scoped_placed ..
  | group e ih => exact ih place

end Formula

/-! ## Programs with few parentheses -/

/-- The expression with parentheses only where its structure needs them. -/
def Expression.spare (e : Expression) : Expression := e.formula.expr .expression

/-- The condition with parentheses only where they are needed. -/
def Condition.spare (c : Condition) : Condition :=
  ⟨Expression.spare c.left, c.comparison, Expression.spare c.right⟩

mutual

/-- The statement with parentheses only where they are needed. -/
def Statement.spare : Statement → Statement
  | .print e => .print (Expression.spare e)
  | .assign x e => .assign x (Expression.spare e)
  | .call f arguments => .call f (arguments.map Expression.spare)
  | .choice c yes => .choice c.spare yes.spare
  | .alternative c yes no => .alternative c.spare yes.spare no.spare
  | .loop c body => .loop c.spare body.spare

/-- The same for statements one after the other. -/
def Block.spare : Block → Block
  | .nil => .nil
  | .cons s rest => .cons s.spare rest.spare

end

/-- The declaration with parentheses only where expressions need them. -/
def Declaration.spare : Declaration → Declaration
  | assign x e => assign x (Expression.spare e)
  | define f parameters body => define f parameters body.spare

/-- The program with parentheses only where expressions need them. -/
def Source.spare (source : Source) : Source :=
  ⟨source.declarations.map Declaration.spare, source.statements.spare⟩

/-! ## Nothing else changes -/

@[simp] theorem Expression.code_spare (n : Names) (e : Expression) :
    (Expression.spare e).code n = e.code n :=
  Formula.code_expr ..

@[simp] theorem Expression.scoped_spare (n : Names) (e : Expression) :
    (Expression.spare e).Scoped n = e.Scoped n :=
  Formula.scoped_expr ..

@[simp] theorem Condition.code_spare (n : Names) (c : Condition) : c.spare.code n = c.code n := by
  simp [Condition.spare, Condition.code]

@[simp] theorem Condition.scoped_spare (n : Names) (c : Condition) :
    c.spare.Scoped n = c.Scoped n := by
  simp [Condition.spare, Condition.Scoped]

@[simp] theorem argumentsCode_spare (n : Names) (arguments : List Expression) :
    argumentsCode n (arguments.map Expression.spare) = argumentsCode n arguments := by
  simp [argumentsCode, List.flatMap_map]

mutual

@[simp] theorem Statement.names_spare (n : Names) : ∀ s : Statement, s.spare.names n = s.names n
  | .print _ => rfl
  | .assign .. => rfl
  | .call .. => rfl
  | .choice _ yes => yes.names_spare n
  | .alternative _ yes no => by
    simp only [Statement.spare, Statement.names, yes.names_spare, no.names_spare]
  | .loop _ body => body.names_spare n

@[simp] theorem Block.names_spare (n : Names) : ∀ b : Block, b.spare.names n = b.names n
  | .nil => rfl
  | .cons s rest => by simp only [Block.spare, Block.names, s.names_spare, rest.names_spare]

end

mutual

@[simp] theorem Statement.code_spare (entries : Entries) (n : Names) (start : Nat) :
    ∀ s : Statement, s.spare.code entries n start = s.code entries n start
  | .print e => by simp [Statement.spare, Statement.code]
  | .assign x e => by simp [Statement.spare, Statement.code]
  | .call f arguments => by simp [Statement.spare, Statement.code]
  | .choice c yes => by simp [Statement.spare, Statement.code, yes.code_spare]
  | .alternative c yes no => by
    simp [Statement.spare, Statement.code, yes.code_spare, no.code_spare]
  | .loop c body => by simp [Statement.spare, Statement.code, body.code_spare]

@[simp] theorem Block.code_spare (entries : Entries) (n : Names) (start : Nat) :
    ∀ b : Block, b.spare.code entries n start = b.code entries n start
  | .nil => rfl
  | .cons s rest => by simp [Block.spare, Block.code, s.code_spare, rest.code_spare]

end

mutual

@[simp] theorem Statement.scoped_spare (functions : List String) (n : Names) :
    ∀ s : Statement, s.spare.Scoped functions n = s.Scoped functions n
  | .print e => by simp [Statement.spare, Statement.Scoped]
  | .assign x e => by simp [Statement.spare, Statement.Scoped]
  | .call f arguments => by simp [Statement.spare, Statement.Scoped]
  | .choice c yes => by simp [Statement.spare, Statement.Scoped, yes.scoped_spare]
  | .alternative c yes no => by
    simp [Statement.spare, Statement.Scoped, yes.scoped_spare, no.scoped_spare]
  | .loop c body => by simp [Statement.spare, Statement.Scoped, body.scoped_spare]

@[simp] theorem Block.scoped_spare (functions : List String) (n : Names) :
    ∀ b : Block, b.spare.Scoped functions n = b.Scoped functions n
  | .nil => rfl
  | .cons s rest => by simp [Block.spare, Block.Scoped, s.scoped_spare, rest.scoped_spare]

end

@[simp] theorem Statement.leavesOpen_spare (s : Statement) : s.spare.leavesOpen = s.leavesOpen := by
  cases s <;> rfl

mutual

@[simp] theorem Statement.awaitsElse_spare : ∀ s : Statement, s.spare.awaitsElse = s.awaitsElse
  | .print _ => rfl
  | .assign .. => rfl
  | .call .. => rfl
  | .choice .. => rfl
  | .alternative _ _ no => no.awaitsElse_spare
  | .loop _ body => body.awaitsElse_spare

@[simp] theorem Block.awaitsElse_spare : ∀ b : Block, b.spare.awaitsElse = b.awaitsElse
  | .nil => rfl
  | .cons s .nil => s.awaitsElse_spare
  | .cons _ (.cons s rest) => (Block.cons s rest).awaitsElse_spare

end

namespace Declaration

@[simp] theorem names_spare (n : Names) (d : Declaration) : d.spare.names n = d.names n := by
  cases d <;> rfl

@[simp] theorem functions_spare (functions : List String) (d : Declaration) :
    d.spare.functions functions = d.functions functions := by
  cases d <;> rfl

@[simp] theorem entries_spare (entries : Entries) (start : Nat) (d : Declaration) :
    d.spare.entries entries start = d.entries entries start := by
  cases d <;> rfl

@[simp] theorem code_spare (entries : Entries) (n : Names) (start : Nat) (d : Declaration) :
    d.spare.code entries n start = d.code entries n start := by
  cases d with
  | assign x e => simp [spare, code]
  | define f parameters body =>
    have h : (define f parameters body.spare).entries entries start =
        (define f parameters body).entries entries start := rfl
    simp [spare, code, h]

@[simp] theorem scoped_spare (functions : List String) (n : Names) (d : Declaration) :
    d.spare.Scoped functions n = d.Scoped functions n := by
  cases d <;> simp [spare, Scoped]

end Declaration

@[simp] theorem namesBehind_spare (n : Names) (ds : List Declaration) :
    namesBehind n (ds.map Declaration.spare) = namesBehind n ds := by
  simp [namesBehind, List.foldl_map]

@[simp] theorem functionsBehind_spare (functions : List String) (ds : List Declaration) :
    functionsBehind functions (ds.map Declaration.spare) = functionsBehind functions ds := by
  simp [functionsBehind, List.foldl_map]

@[simp] theorem declarationsCode_spare (entries : Entries) (n : Names) (start : Nat)
    (ds : List Declaration) :
    declarationsCode entries n start (ds.map Declaration.spare) =
      declarationsCode entries n start ds := by
  induction ds generalizing entries n start with
  | nil => rfl
  | cons d ds ih => simp [declarationsCode, ih]

@[simp] theorem entriesBehind_spare (entries : Entries) (n : Names) (start : Nat)
    (ds : List Declaration) :
    entriesBehind entries n start (ds.map Declaration.spare) = entriesBehind entries n start ds := by
  induction ds generalizing entries n start with
  | nil => rfl
  | cons d ds ih => simp [entriesBehind, ih]

theorem declarationsScoped_spare (functions : List String) (n : Names) (ds : List Declaration) :
    DeclarationsScoped functions n (ds.map Declaration.spare) =
      DeclarationsScoped functions n ds := by
  induction ds generalizing functions n with
  | nil => rfl
  | cons d ds ih => simp [DeclarationsScoped, ih]

/-- With few parentheses a program has the same code. -/
theorem Source.code_spare (source : Source) : source.spare.code = source.code := by
  simp [Source.spare, Source.code]

/-- With few parentheses the names of a program denote what they are used for. -/
theorem Source.scoped_spare (source : Source) : source.spare.Scoped ↔ source.Scoped := by
  simp [Source.spare, Source.Scoped, declarationsScoped_spare]

end StackPrimer.Grammar

import StackPrimer.Number.Reading
import StackPrimer.Token.Basic

/-!
# Syntax trees

```
program     := declaration* statement*
declaration := name = expression | def name ( [name (, name)*] ) : block
statement   := print ( expression ) | name = expression | name ( [expression (, expression)*] )
             | if condition : block [else : block] | while condition : block
condition   := expression relation expression
expression  := input ( ) | sum
sum         := term | sum (+ | -) term
term        := factor | term (* | /) factor
factor      := name | number | ( expression )
```

A tree holds what this grammar says and nothing else: indentation is no part of it. The nonterminals
of expressions are the indices of one family of types, so that every tree of an expression has
multiplication bind tighter than addition and groups to the left.
-/

namespace StackPrimer.Grammar

/-! ## Terminals -/

/-- What a token contributes to a tree: its kind, and its lexeme if it is a name or a number. -/
inductive Terminal
  | name (text : String)
  | number (lexeme : String)
  | mark (kind : Kind)
  deriving DecidableEq, Repr

namespace Terminal

/-- The terminal of a token. -/
def ofToken (t : Token) : Terminal :=
  match t.kind with
  | .name => name t.lexeme
  | .number => number t.lexeme
  | k => mark k

/-- The kind of the tokens of a terminal. -/
def kind : Terminal → Kind
  | name _ => .name
  | number _ => .number
  | mark k => k

@[simp] theorem kind_ofToken (t : Token) : (ofToken t).kind = t.kind := by
  unfold ofToken
  split <;> simp_all [kind]

@[simp] theorem kind_mark (k : Kind) : (mark k).kind = k := rfl

/-- An operator or delimiter. -/
abbrev sign (s : Sign) : Terminal := mark (.sign s)

/-- A reserved word. -/
abbrev word (k : Keyword) : Terminal := mark (.word k)

/-- One indentation. -/
abbrev indent : Terminal := mark .indent

/-- Lists of terminals with commas between them. -/
def commaSeparated : List (List Terminal) → List Terminal
  | [] => []
  | first :: rest => first ++ rest.flatMap (sign .comma :: ·)

end Terminal

/-! ## Expressions -/

/-- The signs between the terms of a sum. -/
inductive AddSign
  | plus
  | minus
  deriving DecidableEq, Repr

/-- The sign as a token. -/
def AddSign.sign : AddSign → Sign
  | plus => .plus
  | minus => .minus

/-- The signs between the factors of a term. -/
inductive MulSign
  | times
  | divide
  deriving DecidableEq, Repr

/-- The sign as a token. -/
def MulSign.sign : MulSign → Sign
  | times => .times
  | divide => .divide

/-- The signs of conditions. -/
inductive Comparison
  | equal
  | notEqual
  | atLeast
  | atMost
  | greater
  | less
  deriving DecidableEq, Repr

/-- The sign as a token. -/
def Comparison.sign : Comparison → Sign
  | equal => .equal
  | notEqual => .notEqual
  | atLeast => .atLeast
  | atMost => .atMost
  | greater => .greater
  | less => .less

/-- A number as it is written, with its value. -/
structure Literal where
  lexeme : String
  value : Float
  reads : Number.readFloat? lexeme = some value

/-- The nonterminals of expressions. -/
inductive Level
  | expression
  | sum
  | term
  | factor
  deriving DecidableEq, Repr

/-- The trees of each nonterminal. -/
inductive Expr : Level → Type
  | input : Expr .expression
  | ofSum (e : Expr .sum) : Expr .expression
  | ofTerm (e : Expr .term) : Expr .sum
  | add (left : Expr .sum) (s : AddSign) (right : Expr .term) : Expr .sum
  | ofFactor (e : Expr .factor) : Expr .term
  | multiply (left : Expr .term) (s : MulSign) (right : Expr .factor) : Expr .term
  | name (text : String) : Expr .factor
  | number (x : Literal) : Expr .factor
  | group (e : Expr .expression) : Expr .factor

/-- An expression of its own. -/
abbrev Expression := Expr .expression

/-- The terminals of an expression. -/
def Expr.terminals {l : Level} : Expr l → List Terminal
  | input => [.word .inputWord, .sign .opening, .sign .closing]
  | ofSum e => e.terminals
  | ofTerm e => e.terminals
  | add left s right => left.terminals ++ .sign s.sign :: right.terminals
  | ofFactor e => e.terminals
  | multiply left s right => left.terminals ++ .sign s.sign :: right.terminals
  | name x => [.name x]
  | number x => [.number x.lexeme]
  | group e => .sign .opening :: e.terminals ++ [.sign .closing]

/-- Two expressions compared. -/
structure Condition where
  left : Expression
  comparison : Comparison
  right : Expression

/-- The terminals of a condition. -/
def Condition.terminals (c : Condition) : List Terminal :=
  c.left.terminals ++ .sign c.comparison.sign :: c.right.terminals

/-! ## Statements -/

mutual

/-- Statements. A choice without `else` and one with `else` are different statements. -/
inductive Statement
  | print (e : Expression)
  | assign (name : String) (e : Expression)
  | call (name : String) (arguments : List Expression)
  | choice (c : Condition) (yes : Block)
  | alternative (c : Condition) (yes no : Block)
  | loop (c : Condition) (body : Block)

/-- Statements one after the other. -/
inductive Block
  | nil
  | cons (s : Statement) (rest : Block)

end

mutual

/-- The terminals of a statement, indentation aside. -/
def Statement.terminals : Statement → List Terminal
  | .print e => .word .printWord :: .sign .opening :: e.terminals ++ [.sign .closing]
  | .assign x e => .name x :: .sign .assign :: e.terminals
  | .call f arguments =>
    .name f :: .sign .opening :: Terminal.commaSeparated (arguments.map Expr.terminals) ++
      [.sign .closing]
  | .choice c yes => .word .ifWord :: c.terminals ++ .sign .colon :: yes.terminals
  | .alternative c yes no =>
    .word .ifWord :: c.terminals ++ .sign .colon :: yes.terminals ++
      .word .elseWord :: .sign .colon :: no.terminals
  | .loop c body => .word .whileWord :: c.terminals ++ .sign .colon :: body.terminals

/-- The terminals of statements one after the other, indentation aside. -/
def Block.terminals : Block → List Terminal
  | .nil => []
  | .cons s rest => s.terminals ++ rest.terminals

end

/-! ## Programs -/

/-- Declarations. -/
inductive Declaration
  | assign (name : String) (e : Expression)
  | define (name : String) (parameters : List String) (body : Block)

/-- The terminals of a declaration up to its block, if it has one. -/
def Declaration.header : Declaration → List Terminal
  | assign x e => .name x :: .sign .assign :: e.terminals
  | define f parameters _ =>
    .word .defWord :: .name f :: .sign .opening ::
      Terminal.commaSeparated (parameters.map fun x => [.name x]) ++
        [.sign .closing, .sign .colon]

/-- The terminals of a declaration, indentation aside. -/
def Declaration.terminals (d : Declaration) : List Terminal :=
  match d with
  | assign .. => d.header
  | define _ _ body => d.header ++ body.terminals

/-- The tree of a program. -/
structure Source where
  declarations : List Declaration
  statements : Block

/-- The terminals of a program, indentation aside. -/
def Source.terminals (source : Source) : List Terminal :=
  source.declarations.flatMap Declaration.terminals ++ source.statements.terminals

end StackPrimer.Grammar

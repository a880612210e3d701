import StackPrimer.Compilation.Expression

/-!
# Compiling statements

```
statement := print ( expression )
           | if condition : block [else : block]
           | while condition : block
           | name = expression
           | name ( [expression (, expression)*] )
block     := indentation statements
```

Inside a block each further statement has indentation of its own in front; a statement without it
is no part of the block. At the top level indentation means nothing. How deep the indentation is
never matters.

A jump whose target is not known yet is written with the target zero and lands later.
-/

namespace StackPrimer.Compilation

/-- Where statements follow one another. -/
inductive Place
  | topLevel
  | block
  deriving DecidableEq, Repr

/-- Whether another statement follows at this place; passes the indentation in front of it. -/
def goesOn (place : Place) : Action Bool := do
  if place = .block ∧ (← currentKind) ≠ .indent then return false
  skipIndents
  return (← currentKind).startsStatement

/-- The arguments of a call after the first, within a budget. -/
def moreArgumentsWithin : (budget : Nat) → Action Unit
  | 0 => throw .outOfTokens
  | budget + 1 => do
    if (← currentKind) = .sign .comma then
      advance
      expressionWithin budget
      moreArgumentsWithin budget

/-- The arguments of a call within a budget. -/
def argumentsWithin (budget : Nat) : Action Unit := do
  if (← currentKind) = .sign .closing then return ()
  expressionWithin budget
  moreArgumentsWithin budget

/-- An assignment to a name, within a budget. It declares the name in the current scope, unless the
name is there: inside a function this makes a local that shadows a global. -/
def assignmentWithin (budget : Nat) (name : Token) : Action Unit := do
  advance
  unless ← declares name do
    declare name
  expressionWithin budget
  store name

/-- A call of a function, within a budget. -/
def callWithin (budget : Nat) (name : Token) : Action Unit := do
  match ← entry? name with
  | none => throw (.undeclared .function name)
  | some entry =>
    let back ← emitInt .pushReturn 0
    advance
    argumentsWithin budget
    expectSign .closing
    let _ ← emitInt .call entry
    land back

/-- A statement that begins with a name, within a budget. -/
def namedWithin (budget : Nat) : Action Unit := do
  let name ← expect .name .statement
  let t ← current
  match t.kind with
  | .sign .assign => assignmentWithin budget name
  | .sign .opening => callWithin budget name
  | _ => throw (.unexpected t .assignmentOrCall)

/-- A statement that prints, within a budget. -/
def printingWithin (budget : Nat) : Action Unit := do
  advance
  expectSign .opening
  expressionWithin budget
  expectSign .closing
  emitPlain .print

mutual

/-- A statement within a budget. -/
def statementWithin : (budget : Nat) → Action Unit
  | 0 => throw .outOfTokens
  | budget + 1 => do
    match ← currentKind with
    | .word .printWord => printingWithin budget
    | .word .ifWord => choiceWithin budget
    | .word .whileWord => loopWithin budget
    | _ => namedWithin budget

/-- A choice within a budget. -/
def choiceWithin : (budget : Nat) → Action Unit
  | 0 => throw .outOfTokens
  | budget + 1 => do
    let _ ← expect (.word .ifWord)
    conditionWithin budget
    expectSign .colon
    let past ← emitInt .jumpIfZero 0
    blockWithin budget
    if (← currentKind) = .word .elseWord then
      let skip ← emitInt .jump 0
      land past
      advance
      expectSign .colon
      blockWithin budget
      land skip
    else land past

/-- A loop within a budget. -/
def loopWithin : (budget : Nat) → Action Unit
  | 0 => throw .outOfTokens
  | budget + 1 => do
    let _ ← expect (.word .whileWord)
    let top ← here
    conditionWithin budget
    expectSign .colon
    let past ← emitInt .jumpIfZero 0
    blockWithin budget
    let _ ← emitInt .jump top
    land past

/-- A block within a budget. -/
def blockWithin : (budget : Nat) → Action Unit
  | 0 => throw .outOfTokens
  | budget + 1 => do
    let _ ← expect .indent
    statementsWithin budget .block

/-- A sequence of statements within a budget. -/
def statementsWithin : (budget : Nat) → Place → Action Unit
  | 0, _ => throw .outOfTokens
  | budget + 1, place => do
    skipIndents
    if (← currentKind).startsStatement then
      statementWithin budget
      moreStatementsWithin budget place

/-- The statements of a sequence after the first. -/
def moreStatementsWithin : (budget : Nat) → Place → Action Unit
  | 0, _ => throw .outOfTokens
  | budget + 1, place => do
    if ← goesOn place then
      statementWithin budget
      moreStatementsWithin budget place

end

end StackPrimer.Compilation

import StackPrimer.Number.Reading
import StackPrimer.Compilation.Action

/-!
# Compiling expressions

```
expression := input ( ) | term ((+ | -) term)*
term       := factor ((* | /) factor)*
factor     := name | number | ( expression )
condition  := expression relation expression
```

The code of an expression leaves one more value on the stack. Productions recurse within a budget, of
which each level takes one. No more than four levels lie between one token and the next, so that five
for every token that is left are more than can be used.
-/

namespace StackPrimer.Compilation

/-- The operation of a relation. -/
def relation? : Kind → Option Opcode
  | .sign .equal => some .equal
  | .sign .notEqual => some .notEqual
  | .sign .atLeast => some .atLeast
  | .sign .atMost => some .atMost
  | .sign .greater => some .greater
  | .sign .less => some .less
  | _ => none

/-- The operation of a sign between terms. -/
def additive? : Kind → Option Opcode
  | .sign .plus => some .add
  | .sign .minus => some .subtract
  | _ => none

/-- The operation of a sign between factors. -/
def multiplicative? : Kind → Option Opcode
  | .sign .times => some .multiply
  | .sign .divide => some .divide
  | _ => none

/-- Writes the instruction that pushes a number. -/
def constant (t : Token) : Action Unit := do
  match Number.readFloat? t.lexeme with
  | none => throw (.badNumber t.lexeme)
  | some x =>
    let _ ← emit .constant (some (.float x))

/-- More levels than productions can nest in with the tokens that are left. -/
def State.budget (s : State) : Nat := 5 * (s.upcoming.length + 2)

mutual

/-- An expression within a budget. -/
def expressionWithin : (budget : Nat) → Action Unit
  | 0 => throw .outOfTokens
  | budget + 1 => do
    if (← currentKind) = .word .inputWord then
      advance
      expectSign .opening
      expectSign .closing
      emitPlain .read
    else
      termWithin budget
      sumWithin budget

/-- The terms of an expression after the first. -/
def sumWithin : (budget : Nat) → Action Unit
  | 0 => throw .outOfTokens
  | budget + 1 => do
    match additive? (← currentKind) with
    | none => return ()
    | some op =>
      advance
      termWithin budget
      emitPlain op
      sumWithin budget

/-- A term within a budget. -/
def termWithin : (budget : Nat) → Action Unit
  | 0 => throw .outOfTokens
  | budget + 1 => do
    factorWithin budget
    productWithin budget

/-- The factors of a term after the first. -/
def productWithin : (budget : Nat) → Action Unit
  | 0 => throw .outOfTokens
  | budget + 1 => do
    match multiplicative? (← currentKind) with
    | none => return ()
    | some op =>
      advance
      factorWithin budget
      emitPlain op
      productWithin budget

/-- A factor within a budget. -/
def factorWithin : (budget : Nat) → Action Unit
  | 0 => throw .outOfTokens
  | budget + 1 => do
    let t ← current
    match t.kind with
    | .name =>
      advance
      load t
    | .number =>
      advance
      constant t
    | .sign .opening =>
      advance
      expressionWithin budget
      expectSign .closing
    | _ => throw (.unexpected t .operand)

end

/-- An expression. -/
def expression : Action Unit := fun s => expressionWithin s.budget s

/-- A condition within a budget. -/
def conditionWithin (budget : Nat) : Action Unit := do
  expressionWithin budget
  let t ← current
  match relation? t.kind with
  | none => throw (.unexpected t .comparison)
  | some op =>
    advance
    expressionWithin budget
    emitPlain op

/-- A condition. -/
def condition : Action Unit := fun s => conditionWithin s.budget s

end StackPrimer.Compilation

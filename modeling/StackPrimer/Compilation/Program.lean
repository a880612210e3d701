import StackPrimer.Token.Stream
import StackPrimer.Compilation.Statement

/-!
# Compiling programs

```
program     := declaration* statements end
declaration := name = expression
             | def name ( [name (, name)*] ) : block
```

Declarations come first. A name that denotes a function already begins a call, and with it the
statements. The arguments of a call arrive on the stack from left to right, so that the last
parameter is stored first.
-/

namespace StackPrimer.Compilation

/-- The declaration of a variable, within a budget. -/
def variableDeclarationWithin (budget : Nat) : Action Unit := do
  let name ← expect .name
  if (← currentKind) = .sign .opening then throw (.undeclared .function name)
  declare name
  expectSign .assign
  expressionWithin budget
  store name

/-- The parameters of a function after the first, within a budget: their addresses, the last one in
front, atop those of the parameters before. -/
def moreParametersWithin : (budget : Nat) → (before : List Int) → Action (List Int)
  | 0, _ => throw .outOfTokens
  | budget + 1, before => do
    if (← currentKind) = .sign .comma then
      advance
      let name ← expect .name
      let address ← addVariable name
      moreParametersWithin budget (address :: before)
    else return before

/-- The addresses of the parameters of a function, the last one in front, within a budget. -/
def parametersWithin (budget : Nat) : Action (List Int) := do
  if (← currentKind) = .name then
    let name ← expect .name
    let address ← addVariable name
    moreParametersWithin budget [address]
  else return []

/-- Writes instructions that pop into the cells of the current frame at these addresses. -/
def storeAll : List Int → Action Unit
  | [] => return ()
  | address :: rest => do
    let _ ← emitInt .storeLocal address
    storeAll rest

/-- The declaration of a function, within a budget. Where it stands in the code, it is jumped
over. -/
def functionDeclarationWithin (budget : Nat) : Action Unit := do
  let _ ← expect (.word .defWord)
  let name ← expect .name
  let guard ← emitInt .jump 0
  addFunction name
  enterFunction
  emitPlain .enter
  expectSign .opening
  let addresses ← parametersWithin budget
  expectSign .closing
  expectSign .colon
  storeAll addresses
  blockWithin budget
  exitFunction
  emitPlain .leave
  land guard

/-- Declarations within a budget. -/
def declarationsWithin : (budget : Nat) → Action Unit
  | 0 => throw .outOfTokens
  | budget + 1 => do
    let t ← current
    match t.kind with
    | .word .defWord =>
      functionDeclarationWithin budget
      declarationsWithin budget
    | .name =>
      if (← entry? t).isNone then
        variableDeclarationWithin budget
        declarationsWithin budget
    | _ => return ()

/-- A program within a budget. -/
def programWithin (budget : Nat) : Action Program := do
  emitPlain .start
  declarationsWithin budget
  statementsWithin budget .topLevel
  let _ ← expect .finish .statementOrFinish
  emitPlain .halt
  fun s => .ok s.log.instructions s

/-- A program. -/
def program : Action Program := fun s => programWithin s.budget s

/-- Compiles a stream of tokens with a book and a log that may hold earlier names and code. Answers
the whole log as a program, and in any case the book and the log as they are left. -/
def run (tokens : List Token) (book : AddressBook) (log : Log) :
    Except Failure Program × AddressBook × Log :=
  match tokens with
  | [] => (.error .outOfTokens, book, log)
  | t :: rest =>
    match program ⟨t, rest, book, log⟩ with
    | .ok p s => (.ok p, s.book, s.log)
    | .error e s => (.error e, s.book, s.log)

/-- The program that a stream of tokens stands for, and how many globals it has. -/
def compileTokens (tokens : List Token) : Except Failure (Program × Nat) :=
  let (result, book, _) := run tokens {} {}
  result.map fun p => (p, book.nextGlobal)

end StackPrimer.Compilation

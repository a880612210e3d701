import StackPrimer.Code.Log
import StackPrimer.Names.AddressBook
import StackPrimer.Token.Description

/-!
# Actions of a compilation

A compilation reads a stream of tokens once, from left to right, looking at one token at a time. On
the way it consults the address book and writes into the instruction log. An action is a step of
it; a failed action keeps what it has done so far.

Results:
* `advance_finish`: nothing is read past the token at the end.
-/

namespace StackPrimer.Compilation

/-- What a name was taken for. -/
inductive Role
  | variable
  | function
  deriving DecidableEq, Repr

/-- The word for the role. -/
def Role.text : Role → String
  | .variable => "variable"
  | function => "function"

/-- Why a compilation stops. -/
inductive Failure
  /-- The grammar asks for something else at this token. -/
  | unexpected (token : Token) (expected : Expectation)
  /-- The token mentions a name that denotes nothing in this role. -/
  | undeclared (role : Role) (token : Token)
  /-- The token declares a function that there is already. -/
  | redefined (token : Token)
  /-- A token is needed after the last one. -/
  | outOfTokens
  /-- The lexeme of a number is no number. -/
  | badNumber (lexeme : String)
  /-- A value is stored under a name that denotes no variable. -/
  | unbound (name : String)
  /-- The address book refuses. -/
  | book (e : BookError)
  /-- The instruction log refuses. -/
  | log (e : LogError)
  deriving DecidableEq

/-- What is said about the failure. -/
def Failure.message : Failure → String
  | unexpected t e =>
    "line " ++ toString t.line ++ ": expected " ++ e.text ++ " but found " ++ t.shown
  | undeclared role t =>
    "line " ++ toString t.line ++ ": undeclared " ++ role.text ++ " " ++ Text.quoted t.lexeme
  | redefined t =>
    "line " ++ toString t.line ++ ": function " ++ Text.quoted t.lexeme ++ " is defined twice"
  | outOfTokens => ""
  | badNumber lexeme => "could not convert string to float: " ++ Text.quoted lexeme
  | unbound name => "no variable " ++ Text.quoted name ++ " to store to"
  | book e => e.message
  | log e => e.message

/-- How far a compilation has come: the token it looks at, those behind that, the names known and
the code written so far. -/
structure State where
  token : Token
  upcoming : List Token
  book : AddressBook
  log : Log

/-- A step of a compilation. -/
abbrev Action (α : Type) := EStateM Failure State α

/-! ## Tokens -/

/-- The token looked at. -/
def current : Action Token := fun s => .ok s.token s

/-- The kind of the token looked at. -/
def currentKind : Action Kind := fun s => .ok s.token.kind s

/-- Goes on to the next token, except at the end. -/
def advance : Action Unit := fun s =>
  if s.token.kind = .finish then .ok () s
  else
    match s.upcoming with
    | [] => .error .outOfTokens s
    | t :: rest => .ok () { s with token := t, upcoming := rest }

/-- Passes a token of the kind, and answers it. -/
def expect (k : Kind) (expectation : Expectation := .kind k) : Action Token := do
  let t ← current
  if t.kind = k then
    advance
    return t
  else throw (.unexpected t expectation)

/-- Passes a sign. -/
def expectSign (s : Sign) : Action Unit := do
  let _ ← expect (.sign s)

/-- Passes all indentation. -/
def skipIndents : Action Unit := fun s =>
  match (s.token :: s.upcoming).dropWhile (·.kind = .indent) with
  | [] => .error .outOfTokens s
  | t :: rest => .ok () { s with token := t, upcoming := rest }

/-- Nothing is read past the token at the end. -/
theorem advance_finish {s : State} (h : s.token.kind = .finish) : advance s = .ok () s := by
  simp [advance, h]

/-! ## Code -/

/-- The address of the next instruction. -/
def here : Action Int := fun s => .ok s.log.size s

/-- Writes an instruction, and answers its address. -/
def emit (op : Opcode) (operand : Option Operand) : Action Int := fun s =>
  match s.log.emit (.listed op) operand with
  | (.ok address, log) => .ok address { s with log }
  | (.error e, log) => .error (.log e) { s with log }

/-- Writes an instruction without operand. -/
def emitPlain (op : Opcode) : Action Unit := do
  let _ ← emit op none

/-- Writes an instruction with an address or a count, and answers its own address. -/
def emitInt (op : Opcode) (n : Int) : Action Int := emit op (some (.int n))

/-- Makes the instruction at an address jump to the next instruction. -/
def land (address : Int) : Action Unit := fun s =>
  match s.log.patch address (some (.int s.log.size)) with
  | (.ok _, log) => .ok () { s with log }
  | (.error e, log) => .error (.log e) { s with log }

/-! ## Names -/

/-- The address of a name in the current scope, which may be new there. -/
def addVariable (t : Token) : Action Int := fun s =>
  let (address, book) := s.book.addVariable (.ofToken t)
  .ok address { s with book }

/-- Whether the current scope has a variable of that name. -/
def declares (t : Token) : Action Bool := fun s => .ok (s.book.declares t.lexeme) s

/-- The entry address of the function of that name. -/
def entry? (t : Token) : Action (Option Int) := fun s => .ok (s.book.entry? t.lexeme) s

/-- Makes the name denote a function whose code begins with the next instruction. -/
def addFunction (t : Token) : Action Unit := fun s =>
  match s.book.addFunction (.ofToken t) s.log.size with
  | .ok book => .ok () { s with book }
  | .error (.alreadyExists _) => .error (.redefined t) s
  | .error e => .error (.book e) s

/-- Begins the scope of a function. -/
def enterFunction : Action Unit := fun s =>
  match s.book.enter with
  | .ok book => .ok () { s with book }
  | .error e => .error (.book e) s

/-- Ends the scope of a function. -/
def exitFunction : Action Unit := fun s =>
  match s.book.exit with
  | .ok book => .ok () { s with book }
  | .error e => .error (.book e) s

/-- The variable that can be seen under that name. -/
def lookup (t : Token) : Action (Option Variable) := fun s =>
  .ok (s.book.find? t.lexeme) s

/-- Writes the instruction that pushes the variable of that name. -/
def load (t : Token) : Action Unit := do
  match ← lookup t with
  | none => throw (.undeclared .variable t)
  | some v =>
    let _ ← emitInt (if v.scope = .function then .loadLocal else .loadGlobal) v.address

/-- Writes the instruction that pops into the variable of that name. -/
def store (t : Token) : Action Unit := do
  match ← lookup t with
  | none => throw (.unbound t.lexeme)
  | some v =>
    let _ ← emitInt (if v.scope = .function then .storeLocal else .storeGlobal) v.address

/-- Makes room for a variable of that name and writes the instruction that reserves its cell. -/
def declare (t : Token) : Action Unit := do
  let _ ← addVariable t
  let _ ← emitInt .allocate 1

end StackPrimer.Compilation

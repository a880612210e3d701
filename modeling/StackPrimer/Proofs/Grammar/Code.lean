import StackPrimer.Code.Instruction
import StackPrimer.Proofs.Grammar.Layout
import StackPrimer.Proofs.Grammar.Names

/-!
# The code of a tree

Code is written down from a tree, with the address `start` of its first instruction given. Every
target is known when it is written, because it is counted from the sizes of the parts:

* `if` — test; jump if zero behind the block; block
* `if`/`else` — test; jump if zero to the second block; first block; jump behind the second; second
* `while` — test; jump if zero behind the jump back; block; jump back to the test
* call — push the address behind the call; arguments; call
* `def` — jump behind all of it; open a frame; store the parameters, last one first; block; close the
  frame
* assignment — reserve a cell, if the name is new in its scope; value; store

A variable has its place in the list of names of its scope for an address.
-/

namespace StackPrimer.Grammar

/-- An instruction without operand. -/
def plain (op : Opcode) : Instruction := .of op none

/-- An instruction with an address or a count. -/
def withInt (op : Opcode) (n : Nat) : Instruction := .of op (some (.int n))

/-- The operation between terms. -/
def AddSign.opcode : AddSign → Opcode
  | plus => .add
  | minus => .subtract

/-- The operation between factors. -/
def MulSign.opcode : MulSign → Opcode
  | times => .multiply
  | divide => .divide

/-- The operation of a comparison. -/
def Comparison.opcode : Comparison → Opcode
  | equal => .equal
  | notEqual => .notEqual
  | atLeast => .atLeast
  | atMost => .atMost
  | greater => .greater
  | less => .less

/-- The entry addresses of the functions declared so far. -/
abbrev Entries := String → Option Nat

/-! ## Variables -/

namespace Names

/-- The code that pushes a variable; none, if the name cannot be found. -/
def load (n : Names) (x : String) : List Instruction :=
  match n.scope? x with
  | some .global => [withInt .loadGlobal (n.address .global x)]
  | some .function => [withInt .loadLocal (n.address .function x)]
  | none => []

/-- The instruction that pops into a variable of the scope in which names are bound. -/
def store (n : Names) (x : String) : Instruction :=
  match n.home with
  | .global => withInt .storeGlobal (n.address .global x)
  | .function => withInt .storeLocal (n.address .function x)

/-- The code that reserves a cell for a name, unless the name is bound. -/
def reserve (n : Names) (x : String) : List Instruction :=
  if n.binds x then [] else [withInt .allocate 1]

end Names

/-! ## Expressions -/

/-- The code that pushes the value of an expression. -/
def Expr.code (n : Names) {l : Level} : Expr l → List Instruction
  | input => [plain .read]
  | ofSum e => e.code n
  | ofTerm e => e.code n
  | add left s right => left.code n ++ right.code n ++ [plain s.opcode]
  | ofFactor e => e.code n
  | multiply left s right => left.code n ++ right.code n ++ [plain s.opcode]
  | name x => n.load x
  | number x => [.of .constant (some (.float x.value))]
  | group e => e.code n

/-- The code that pushes one if the condition holds and zero if not. -/
def Condition.code (n : Names) (c : Condition) : List Instruction :=
  c.left.code n ++ c.right.code n ++ [plain c.comparison.opcode]

/-- The code that pushes the values of arguments, the first one first. -/
def argumentsCode (n : Names) (arguments : List Expression) : List Instruction :=
  arguments.flatMap (Expr.code n)

/-! ## Statements -/

mutual

/-- The code of a statement. -/
def Statement.code (entries : Entries) (n : Names) (start : Nat) : Statement → List Instruction
  | .print e => e.code n ++ [plain .print]
  | .assign x e => n.reserve x ++ e.code (n.bind x) ++ [(n.bind x).store x]
  | .call f arguments =>
    match entries f with
    | none => []
    | some entry =>
      let values := argumentsCode n arguments
      withInt .pushReturn (start + values.length + 2) :: values ++ [withInt .call entry]
  | .choice c yes =>
    let test := c.code n
    let first := yes.code entries n (start + test.length + 1)
    test ++ withInt .jumpIfZero (start + test.length + 1 + first.length) :: first
  | .alternative c yes no =>
    let test := c.code n
    let first := yes.code entries n (start + test.length + 1)
    let middle := start + test.length + 1 + first.length + 1
    let second := no.code entries (yes.names n) middle
    test ++ withInt .jumpIfZero middle :: first ++
      withInt .jump (middle + second.length) :: second
  | .loop c body =>
    let test := c.code n
    let inside := body.code entries n (start + test.length + 1)
    test ++ withInt .jumpIfZero (start + test.length + 1 + inside.length + 1) :: inside ++
      [withInt .jump start]

/-- The code of statements one after the other. -/
def Block.code (entries : Entries) (n : Names) (start : Nat) : Block → List Instruction
  | .nil => []
  | .cons s rest =>
    let first := s.code entries n start
    first ++ rest.code entries (s.names n) (start + first.length)

end

/-- Where the code goes on behind a test, the jump behind it, and what they guard. -/
theorem length_tested (start target : Nat) (test first : List Instruction) :
    start + (test ++ withInt .jumpIfZero target :: first).length =
      start + test.length + 1 + first.length := by
  rw [List.length_append, List.length_cons]
  omega

/-! ## Programs -/

/-- The entry addresses behind a declaration, whose code begins at `start`: the code of a function
begins with the jump around it. -/
def Declaration.entries (entries : Entries) (start : Nat) : Declaration → Entries
  | assign .. => entries
  | define f .. => fun g => if g = f then some (start + 1) else entries g

/-- The code that stores the arguments of a call, the last one first. -/
def parametersCode (n : Names) (parameters : List String) : List Instruction :=
  parameters.reverse.map fun x => withInt .storeLocal (n.address .function x)

/-- The code of a declaration. A variable gets a cell each time that it is declared. -/
def Declaration.code (entries : Entries) (n : Names) (start : Nat) (d : Declaration) :
    List Instruction :=
  match d with
  | assign x e => withInt .allocate 1 :: e.code (n.bind x) ++ [(n.bind x).store x]
  | define _ parameters body =>
    let inside := n.enter parameters
    let stores := parametersCode inside parameters
    let block := body.code (d.entries entries start) inside (start + 2 + stores.length)
    withInt .jump (start + 2 + stores.length + block.length + 1) :: plain .enter :: stores ++
      block ++ [plain .leave]

/-- The code of declarations one after the other. -/
def declarationsCode (entries : Entries) (n : Names) (start : Nat) :
    List Declaration → List Instruction
  | [] => []
  | d :: ds =>
    let first := d.code entries n start
    first ++ declarationsCode (d.entries entries start) (d.names n) (start + first.length) ds

/-- The entry addresses behind declarations one after the other. -/
def entriesBehind (entries : Entries) (n : Names) (start : Nat) : List Declaration → Entries
  | [] => entries
  | d :: ds =>
    entriesBehind (d.entries entries start) (d.names n)
      (start + (d.code entries n start).length) ds

/-- No function is declared yet. -/
def noEntries : Entries := fun _ => none

/-- The code of a program. -/
def Source.code (source : Source) : List Instruction :=
  let first := declarationsCode noEntries {} 1 source.declarations
  let entries := entriesBehind noEntries {} 1 source.declarations
  plain .start :: first ++
    source.statements.code entries (namesBehind {} source.declarations) (1 + first.length) ++
      [plain .halt]

/-- The stream spells the tree, all names of the tree denote something, and the program is the code
of the tree. -/
structure Source.Explains (source : Source) (tokens : List Token) (p : Program) : Prop where
  spells : source.Spells tokens
  wellScoped : source.Scoped
  code : p.toList = source.code

end StackPrimer.Grammar

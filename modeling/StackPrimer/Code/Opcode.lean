/-!
# Operations of the stack machine

The machine has 26 operations, each with a mnemonic. Those that name an address, a count or a
constant take an operand.

Results:
* `Opcode.ofWord?_word`: a mnemonic names its operation.
* `Opcode.word_of_ofWord?`: only the mnemonic of an operation names it.
* `Mnemonic.word_ofWord`, `Mnemonic.ofWord_word`: first words of instructions and mnemonics
  correspond.
-/

namespace StackPrimer

/-- The operations of the machine. -/
inductive Opcode
  /-- The program begins. -/
  | start
  /-- The program ends. -/
  | halt
  /-- One more memory cell. -/
  | allocate
  /-- Push the operand. -/
  | constant
  /-- Push a global cell. -/
  | loadGlobal
  /-- Pop into a global cell. -/
  | storeGlobal
  /-- Push a cell of the current frame. -/
  | loadLocal
  /-- Pop into a cell of the current frame. -/
  | storeLocal
  | add
  | subtract
  | multiply
  | divide
  | equal
  | notEqual
  | atLeast
  | atMost
  | greater
  | less
  /-- Pop and print. -/
  | print
  /-- Read a number and push it. -/
  | read
  | jump
  /-- Pop, and jump if that was zero. -/
  | jumpIfZero
  /-- Push the address to which the next call returns. -/
  | pushReturn
  | call
  /-- Open a frame. -/
  | enter
  /-- Close the frame and return. -/
  | leave
  deriving DecidableEq, Repr

namespace Opcode

/-- Every operation. -/
def all : List Opcode :=
  [start, halt, allocate, constant, loadGlobal, storeGlobal, loadLocal, storeLocal, add, subtract,
    multiply, divide, equal, notEqual, atLeast, atMost, greater, less, print, read, jump,
    jumpIfZero, pushReturn, call, enter, leave]

/-- The mnemonic of the operation. -/
def word : Opcode → String
  | start => "INPP"
  | halt => "PARA"
  | allocate => "ALME"
  | constant => "CRCT"
  | loadGlobal => "CRVL"
  | storeGlobal => "ARMZ"
  | loadLocal => "CREL"
  | storeLocal => "AMREL"
  | add => "SOMA"
  | subtract => "SUBT"
  | multiply => "MULT"
  | divide => "DIVI"
  | equal => "CMIG"
  | notEqual => "CMDG"
  | atLeast => "CMAI"
  | atMost => "CPMI"
  | greater => "CMMA"
  | less => "CMME"
  | print => "IMPR"
  | read => "LEIT"
  | jump => "DSVI"
  | jumpIfZero => "DSVF"
  | pushReturn => "PUSHER"
  | call => "CHPR"
  | enter => "ENPR"
  | leave => "RTPR"

/-- Whether the operation takes an operand. -/
def takesOperand : Opcode → Bool
  | allocate | constant | loadGlobal | storeGlobal | loadLocal | storeLocal => true
  | jump | jumpIfZero | pushReturn | call => true
  | _ => false

/-- The operation with that mnemonic. -/
def ofWord? (s : String) : Option Opcode := all.find? (·.word = s)

@[simp] theorem ofWord?_word (op : Opcode) : ofWord? op.word = some op := by
  cases op <;> decide

/-- Only the mnemonic of an operation names it. -/
theorem word_of_ofWord? {s : String} {op : Opcode} (h : ofWord? s = some op) : op.word = s := by
  simpa using List.find?_some h

end Opcode

/-- The first word of an instruction: the mnemonic of an operation, or a word that is none. -/
inductive Mnemonic
  | listed (op : Opcode)
  | unlisted (word : String) (not_listed : Opcode.ofWord? word = none)
  deriving DecidableEq

namespace Mnemonic

/-- The word itself. -/
def word : Mnemonic → String
  | listed op => op.word
  | unlisted word _ => word

/-- What a word names. -/
def ofWord (s : String) : Mnemonic :=
  match h : Opcode.ofWord? s with
  | some op => listed op
  | none => unlisted s h

@[simp] theorem word_ofWord (s : String) : (ofWord s).word = s := by
  unfold ofWord
  split
  · rename_i op h
    exact Opcode.word_of_ofWord? h
  · rfl

theorem ofWord_word (m : Mnemonic) : ofWord m.word = m := by
  unfold ofWord
  split
  · rename_i op h
    cases m with
    | listed op' => simp [word] at h; simp [h]
    | unlisted w hw => simp [word, hw] at h
  · rename_i h
    cases m with
    | listed op' => simp [word] at h
    | unlisted w hw => rfl

end Mnemonic

end StackPrimer

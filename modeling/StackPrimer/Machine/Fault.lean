import StackPrimer.Code.Instruction
import StackPrimer.Number.Reading
import StackPrimer.Text.Quoted

/-!
# Faults

All that can go wrong in one instruction, by cause, with the kind of the fault and the message that
a finding shows. A message in which a whole number of more than 4300 digits would have to be shown
is replaced by one about that.
-/

namespace StackPrimer

/-- Data memory never has more cells than this, which is 2²⁰. -/
def memoryLimit : Nat := 1048576

/-- Why an instruction cannot be carried out. -/
inductive Fault
  | noInstruction (address : Int)
  | unknownInstruction (word : String)
  | missingOperand (op : Opcode)
  | stackUnderflow
  | noCell (address : Int)
  | beyondMemory (address : Int)
  | notAnAddress (x : Float)
  | infiniteAddress
  | nanAddress
  | returnWithoutCall
  | tooLarge
  | notANumber (word : String)
  | endOfInput
  deriving DecidableEq

namespace Fault

/-- The address in a message, which may have any number of digits. -/
def address? : Fault → Option Int
  | noInstruction address => some address
  | noCell address => some address
  | beyondMemory address => some address
  | _ => none

/-- Whether the message would have to show too long a number. -/
def isOverlong (f : Fault) : Bool :=
  match f.address? with
  | some address => Number.tenTo Number.digitLimit ≤ address.natAbs
  | none => false

/-- The kind of the fault. -/
def kind (f : Fault) : String :=
  if f.isOverlong then "ValueError"
  else
    match f with
    | infiniteAddress | tooLarge => "OverflowError"
    | nanAddress | notANumber _ => "ValueError"
    | endOfInput => "EOFError"
    | _ => "MachineFault"

/-- What is said about the fault. -/
def message (f : Fault) : String :=
  if f.isOverlong then
    "Exceeds the limit (4300 digits) for integer string conversion; " ++
      "use sys.set_int_max_str_digits() to increase the limit"
  else
    match f with
    | noInstruction address => "no instruction at address " ++ toString address
    | unknownInstruction word => "unknown instruction " ++ Text.quoted word
    | missingOperand op => op.word ++ " needs an operand"
    | stackUnderflow => "operand stack underflow"
    | noCell address => "no memory cell at address " ++ toString address
    | beyondMemory address =>
      "address " ++ toString address ++ " is beyond the " ++ toString memoryLimit ++
        " cells of memory"
    | notAnAddress x => Number.literal x ++ " is not an address"
    | infiniteAddress => "cannot convert float infinity to integer"
    | nanAddress => "cannot convert float NaN to integer"
    | returnWithoutCall => "return without a call"
    | tooLarge => "int too large to convert to float"
    | notANumber word => "could not convert string to float: " ++ Text.quoted word
    | endOfInput => "ran out of input"

end Fault

namespace Operand

/-- The operand as an address. -/
def address : Operand → Except Fault Int
  | int n => .ok n
  | float x =>
    match Number.parts x with
    | .nan => .error .nanAddress
    | .infinite _ => .error .infiniteAddress
    | .finite negative mantissa exponent =>
      match Number.wholeOf? negative mantissa exponent with
      | some n => .ok n
      | none => .error (.notAnAddress x)

/-- The operand as a constant. -/
def constant : Operand → Except Fault Float
  | float x => .ok x
  | int n =>
    match Number.ofInt? n with
    | some x => .ok x
    | none => .error .tooLarge

end Operand

end StackPrimer

import StackPrimer.Code.Instruction
import StackPrimer.Text.Quoted

/-!
# The instruction log

Code is written into a log that only grows. The operand of an instruction already in it may be
replaced later, so that a jump can be written before its target is known.

A change answers in any case with a log: the one that it was asked of, if it is refused.

Results:
* `emit_listed`: an instruction of the machine, with an operand or without one as the operation asks,
  is appended at the address that is answered.
* `size_patch`: replacing an operand adds and removes nothing.
-/

namespace StackPrimer

/-- The instructions written so far. -/
structure Log where
  instructions : Program := #[]
  deriving DecidableEq

/-- Why the log refuses a change. -/
inductive LogError
  /-- The machine has no operation of this name. -/
  | noSuchOperation (word : String)
  /-- The operation has an operand that it does not take, or lacks the one that it takes. -/
  | operandMismatch (op : Opcode) (operand : Option Operand)
  /-- Nothing has been written at this address. -/
  | noInstruction (address : Int)
  /-- The instruction at this address has no operand. -/
  | noOperand (mnemonic : Mnemonic) (address : Int)
  deriving DecidableEq

/-- The operand as a message shows it. -/
def LogError.operandText : Option Operand → String
  | none => "None"
  | some x => x.text

/-- What is said about the refusal. -/
def LogError.message : LogError → String
  | noSuchOperation word => word
  | operandMismatch op operand =>
    "(" ++ Text.quoted op.word ++ ", " ++ operandText operand ++ ")"
  | noInstruction address => "No instruction at address " ++ toString address
  | noOperand mnemonic address =>
    mnemonic.word ++ " at address " ++ toString address ++ " takes no operand"

namespace Log

/-- The address of the next instruction. -/
def size (log : Log) : Nat := log.instructions.size

/-- Appends an instruction; answers its address. -/
def emit (log : Log) (mnemonic : Mnemonic) (operand : Option Operand) :
    Except LogError Nat × Log :=
  match mnemonic with
  | .unlisted word _ => (.error (.noSuchOperation word), log)
  | .listed op =>
    if op.takesOperand = operand.isSome then
      (.ok log.size, ⟨log.instructions.push (.of op operand)⟩)
    else (.error (.operandMismatch op operand), log)

/-- Replaces the operand of the instruction at an address by another one, or by none. -/
def patch (log : Log) (address : Int) (operand : Option Operand) : Except LogError Unit × Log :=
  if 0 ≤ address then
    match log.instructions[address.toNat]? with
    | none => (.error (.noInstruction address), log)
    | some i =>
      if i.operand.isSome then
        (.ok (), ⟨log.instructions.setIfInBounds address.toNat { i with operand }⟩)
      else (.error (.noOperand i.mnemonic address), log)
  else (.error (.noInstruction address), log)

theorem emit_listed {op : Opcode} {operand : Option Operand}
    (h : op.takesOperand = operand.isSome) (log : Log) :
    log.emit (.listed op) operand =
      (.ok log.size, ⟨log.instructions.push (.of op operand)⟩) := by
  simp [emit, h]

/-- Replacing an operand adds and removes nothing. -/
theorem size_patch (log : Log) (address : Int) (operand : Option Operand) :
    (log.patch address operand).2.size = log.size := by
  unfold patch
  split
  · split
    · rfl
    · split <;> simp [size]
  · rfl

end Log

end StackPrimer

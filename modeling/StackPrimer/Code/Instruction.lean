import StackPrimer.Code.Opcode
import StackPrimer.Number.Writing

/-!
# Instructions

An instruction is a mnemonic with or without an operand, and a program is a sequence of
instructions, in which the place of an instruction is its address. Addresses and counts are whole
numbers of any size, constants are double-precision numbers; a listing tells them apart.
-/

namespace StackPrimer

/-- A whole number of any size, or a double-precision number. -/
inductive Operand
  | int (n : Int)
  | float (x : Float)
  deriving DecidableEq, Repr

/-- The operand as a listing shows it. -/
def Operand.text : Operand → String
  | int n => toString n
  | float x => Number.literal x

/-- A mnemonic and what stands after it. -/
structure Instruction where
  mnemonic : Mnemonic
  operand : Option Operand
  deriving DecidableEq

namespace Instruction

/-- The instruction of an operation. -/
def of (op : Opcode) (operand : Option Operand) : Instruction := ⟨.listed op, operand⟩

/-- The instruction as a listing shows it. -/
def text (i : Instruction) : String :=
  match i.operand with
  | none => i.mnemonic.word
  | some x => i.mnemonic.word ++ " " ++ x.text

end Instruction

/-- Instructions by address. -/
abbrev Program := Array Instruction

end StackPrimer

import StackPrimer.Code.Instruction
import StackPrimer.Number.Reading
import StackPrimer.Text.Lines
import StackPrimer.Text.Quoted

/-!
# Listings

A program travels as text, one instruction a line. Reading skips lines without words, takes any word
for a mnemonic, and reads an operand as a whole number if it is one and as any other number
otherwise. A second form, for people, shows the address in front of each instruction.
-/

namespace StackPrimer

/-- Why a line is no instruction. -/
inductive BadLine.Cause
  | tooManyFields
  | operandNotNumber
  deriving DecidableEq, Repr

/-- What is said about the cause. -/
def BadLine.Cause.text : BadLine.Cause → String
  | tooManyFields => "too many fields"
  | operandNotNumber => "operand is not a number"

/-- A line of a listing that is no instruction. -/
structure BadLine where
  number : Nat
  text : String
  cause : BadLine.Cause
  deriving DecidableEq, Repr

/-- The line with its number and what is wrong with it. -/
def BadLine.message (e : BadLine) : String :=
  "line " ++ toString e.number ++ ": " ++ e.cause.text ++ ": " ++ Text.quoted e.text

/-- A whole number if the text is one, any other number otherwise. -/
def Operand.read? (s : String) : Option Operand :=
  match Number.readInt? s with
  | some n => some (.int n)
  | none => (Number.readFloat? s).map .float

/-- The instruction on a line, if there is any; the line has this number. -/
def Instruction.read? (number : Nat) (line : List Char) : Except BadLine (Option Instruction) :=
  match Text.words line with
  | [] => .ok none
  | [word] => .ok (some ⟨.ofWord (String.ofList word), none⟩)
  | [word, operand] =>
    match Operand.read? (String.ofList operand) with
    | some x => .ok (some ⟨.ofWord (String.ofList word), some x⟩)
    | none => .error ⟨number, String.ofList line, .operandNotNumber⟩
  | _ => .error ⟨number, String.ofList line, .tooManyFields⟩

namespace Program

/-- The instructions on lines, the first of which has this number. -/
def readLines (number : Nat) : List (List Char) → Except BadLine (List Instruction)
  | [] => .ok []
  | line :: lines =>
    match Instruction.read? number line with
    | .error e => .error e
    | .ok none => readLines (number + 1) lines
    | .ok (some i) =>
      match readLines (number + 1) lines with
      | .error e => .error e
      | .ok is => .ok (i :: is)

/-- The program that a listing shows. -/
def read? (s : String) : Except BadLine Program :=
  (readLines 1 (Text.listingLines s.toList)).map List.toArray

/-- The listing of a program. -/
def render (p : Program) : String :=
  String.join (p.toList.map fun i => i.text ++ "\n")

/-- A whole number in four places, with zeros in front. -/
def fourPlaces (n : Nat) : String :=
  let digits := Number.digitChars n
  String.ofList (List.replicate (4 - digits.length) '0' ++ digits)

/-- The lines of a listing with addresses, the first of which is `address`. -/
def addressedLines (address : Nat) : List Instruction → List String
  | [] => []
  | i :: is => (fourPlaces address ++ "  " ++ i.text) :: addressedLines (address + 1) is

/-- The listing of a program with the address in front of each instruction. -/
def addressed (p : Program) : String := "\n".intercalate (addressedLines 0 p.toList)

end Program

end StackPrimer

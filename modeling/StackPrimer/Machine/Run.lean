import StackPrimer.Machine.Step
import StackPrimer.Report.Journal

/-!
# Runs

A run begins at the first instruction and goes on until the machine stops, comes to an address
without instruction, or halts on a fault, which is filed. What an earlier run has left on the stacks,
in memory and of the input stays. A very verbose journal follows every instruction.
-/

namespace StackPrimer

/-- How a run ends: normally, or on a fault, or on one that stops all work because the journal has
become full. -/
inductive Outcome
  | completed
  | faulted
  | abandoned
  deriving DecidableEq, Repr

namespace Machine

/-- The text with blanks behind it, up to a width. -/
def padded (width : Nat) (s : String) : String :=
  s ++ String.ofList (List.replicate (width - s.length) ' ')

/-- The numbers on the stack, the top one last. -/
def stackText (stack : List Float) : String :=
  "[" ++ ", ".intercalate (stack.reverse.map Number.literal) ++ "]"

/-- What is said about an instruction before it is carried out. -/
def traceLine (m : Machine) (i : Instruction) : String :=
  Program.fourPlaces m.ip.toNat ++ "  " ++ padded 12 i.text ++ " fp=" ++ toString m.frame ++
    " stack=" ++ stackText m.stack

/-- The journal after the instruction has been announced; one that cannot be decoded is not. -/
def announce (m : Machine) (j : Journal) : Journal :=
  if 2 ≤ j.verbosity then
    match m.instruction? with
    | some i => if (decode i).isOk then j.say 2 (m.traceLine i) else j
    | none => j
  else j

/-- The finding for a fault at the current address. -/
def finding (m : Machine) (j : Journal) (f : Fault) : Finding :=
  .fault (j.verbosity ≠ 0) m.ip m.instruction? f.kind f.message

/-- Goes on for at most `bound` instructions; without an outcome after that. -/
def runWithin : (bound : Nat) → Machine → Journal → Option Outcome × Machine × Journal
  | 0, m, j => (none, m, j)
  | bound + 1, m, j =>
    if m.running && m.instruction?.isSome then
      let j := m.announce j
      match step m with
      | .ok _ m => runWithin bound m j
      | .error f m =>
        let j := j.file (m.finding j f)
        if j.isFull then (some .abandoned, m, j)
        else (some .faulted, { m with running := false }, j)
    else (some .completed, { m with running := false }, j)

/-- Runs the program from its beginning, for at most `bound` instructions. -/
def run (bound : Nat) (m : Machine) (j : Journal) : Option Outcome × Machine × Journal :=
  let j := j.say 1 ("--- Loaded " ++ toString m.program.size ++ " instructions ---")
  match runWithin bound { m with ip := 0, running := true } j with
  | (some .completed, m, j) => (some .completed, m, j.say 1 "--- Execution finished ---")
  | (some .faulted, m, j) => (some .faulted, m, j.say 1 "--- Execution finished ---")
  | unfinished => unfinished

/-- A machine that has not done anything yet. -/
def load (program : Program) (input : String) : Machine := { program, input := .ofText input }

end Machine

end StackPrimer

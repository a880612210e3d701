import StackPrimer.Machine.Fault
import StackPrimer.Machine.Input

/-!
# The stack machine

The machine has a stack of operands, a memory of cells that grows on demand, and a stack of saved
frame pointers. A frame is the part of memory from the frame pointer on; it is opened at the end of
memory. A failed action keeps what it has done so far.

Results:
* `ensure_eq_error_iff`: memory grows up to its limit and no further.
-/

namespace StackPrimer

/-- A machine with its program. The stacks have their tops in front. -/
structure Machine where
  program : Program
  stack : List Float := []
  memory : Array Float := #[]
  /-- The frame pointers of the calls that are open, except the current one. -/
  calls : List Nat := []
  /-- The address of the next instruction. -/
  ip : Int := 0
  /-- The address of the first cell of the current frame. -/
  frame : Nat := 0
  running : Bool := false
  input : Input := {}
  /-- The lines printed so far, the last one in front. -/
  printed : List String := []

namespace Machine

/-- Something that the machine does. -/
abbrev Action (α : Type) := EStateM Fault Machine α

/-- An action from something that may be a fault. -/
def Action.ofExcept {α : Type} : Except Fault α → Action α
  | .ok a => fun m => .ok a m
  | .error f => fun m => .error f m

/-! ## The operand stack -/

/-- Pushes a number. -/
def push (x : Float) : Action Unit := fun m => .ok () { m with stack := x :: m.stack }

/-- Pops a number. -/
def pop : Action Float := fun m =>
  match m.stack with
  | [] => .error .stackUnderflow m
  | x :: stack => .ok x { m with stack }

/-! ## Memory -/

/-- Makes sure that there is a cell at the address; new cells hold zero. -/
def ensure (address : Int) : Action Unit := fun m =>
  if (memoryLimit : Int) ≤ address then .error (.beyondMemory address) m
  else
    let more := (address + 1).toNat - m.memory.size
    .ok () { m with memory := m.memory ++ Array.replicate more 0.0 }

/-- The number in the cell at the address. -/
def fetch (address : Int) : Action Float := fun m =>
  if 0 ≤ address then
    match m.memory[address.toNat]? with
    | some x => .ok x m
    | none => .error (.noCell address) m
  else .error (.noCell address) m

/-- Puts a number into the cell at the address. -/
def store (address : Int) (x : Float) : Action Unit := do
  if address < 0 then throw (.noCell address)
  ensure address
  fun m => .ok () { m with memory := m.memory.setIfInBounds address.toNat x }

theorem ensure_eq_error_iff {address : Int} {m m' : Machine} {f : Fault} :
    ensure address m = .error f m' ↔
      (memoryLimit : Int) ≤ address ∧ f = .beyondMemory address ∧ m' = m := by
  unfold ensure
  split
  · rename_i h
    simp [h, eq_comm]
  · rename_i h
    simp [h]

/-! ## Frames -/

/-- The address of the first cell of the current frame. -/
def frameStart : Action Int := fun m => .ok m.frame m

/-- Opens a frame at the end of memory. -/
def openFrame : Action Unit := fun m =>
  .ok () { m with calls := m.frame :: m.calls, frame := m.memory.size }

/-- Closes the frame: its cells are gone, and the frame before is current again. -/
def closeFrame : Action Unit := fun m =>
  match m.calls with
  | [] => .error .returnWithoutCall m
  | frame :: calls => .ok () { m with memory := m.memory.shrink m.frame, frame, calls }

/-! ## Console -/

/-- Prints a line. -/
def print (line : String) : Action Unit := fun m =>
  .ok () { m with printed := line :: m.printed }

/-- Reads a number, which is the next word of the input. -/
def read : Action Float := fun m =>
  match m.input.next with
  | (none, input) => .error .endOfInput { m with input }
  | (some word, input) =>
    match Number.readFloat? (String.ofList word) with
    | some x => .ok x { m with input }
    | none => .error (.notANumber (String.ofList word)) { m with input }

/-- What has been printed. -/
def output (m : Machine) : String := String.join (m.printed.reverse.map (· ++ "\n"))

end Machine

end StackPrimer

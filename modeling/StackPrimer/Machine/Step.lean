import StackPrimer.Machine.State

/-!
# Carrying out an instruction

An instruction that does not jump is followed by the next one. Of two numbers on the stack the right
one is on top.
-/

namespace StackPrimer

namespace Opcode

/-- The operations that replace two numbers by one. -/
def arithmetic? : Opcode → Option (Float → Float → Float)
  | add => some (· + ·)
  | subtract => some (· - ·)
  | multiply => some (· * ·)
  | divide => some (· / ·)
  | _ => none

/-- The operations that compare two numbers. -/
def comparison? : Opcode → Option (Float → Float → Bool)
  | equal => some (· == ·)
  | notEqual => some (· != ·)
  | atLeast => some fun a b => b ≤ a
  | atMost => some fun a b => a ≤ b
  | greater => some fun a b => b < a
  | less => some fun a b => a < b
  | _ => none

/-- The operations that replace two numbers by one; comparing gives one or zero. -/
def binary? (op : Opcode) : Option (Float → Float → Float) :=
  match op.arithmetic?, op.comparison? with
  | some f, _ => some f
  | none, some r => some fun a b => if r a b then 1 else 0
  | none, none => none

end Opcode

namespace Machine

/-- The operation of an instruction and its operand. An operation that takes no operand ignores the
one that it has, and then any will do. -/
def decode (i : Instruction) : Except Fault (Opcode × Operand) :=
  match i.mnemonic with
  | .unlisted word _ => .error (.unknownInstruction word)
  | .listed op =>
    match i.operand with
    | some x => .ok (op, x)
    | none => if op.takesOperand then .error (.missingOperand op) else .ok (op, .int 0)

/-- Stops the machine after the current instruction. -/
def stop : Action Unit := fun m => .ok () { m with running := false }

/-- Reserves one more cell. -/
def allocate : Action Unit := fun m => ensure m.memory.size m

/-- Replaces the two numbers on top of the stack by one. -/
def combine (f : Float → Float → Float) : Action Unit := do
  let right ← pop
  let left ← pop
  push (f left right)

/-- Carries out an operation that does not replace two numbers by one; answers the address to jump
to, if it jumps. -/
def performOther (op : Opcode) (x : Operand) : Action (Option Int) := do
  match op with
  | .halt =>
    stop
    return none
  | .allocate =>
    allocate
    return none
  | .constant | .pushReturn =>
    push (← Action.ofExcept x.constant)
    return none
  | .loadGlobal =>
    let address ← Action.ofExcept x.address
    push (← fetch address)
    return none
  | .storeGlobal =>
    let address ← Action.ofExcept x.address
    store address (← pop)
    return none
  | .loadLocal =>
    let offset ← Action.ofExcept x.address
    push (← fetch ((← frameStart) + offset))
    return none
  | .storeLocal =>
    let offset ← Action.ofExcept x.address
    let address := (← frameStart) + offset
    store address (← pop)
    return none
  | .print =>
    print (Number.display (← pop))
    return none
  | .read =>
    push (← read)
    return none
  | .jump | .call => return some (← Action.ofExcept x.address)
  | .jumpIfZero =>
    if (← pop) == 0 then return some (← Action.ofExcept x.address)
    return none
  | .enter =>
    openFrame
    return none
  | .leave =>
    closeFrame
    return some (← Action.ofExcept (Operand.address (.float (← pop))))
  | _ => return none

/-- Carries out an operation; answers the address to jump to, if it jumps. -/
def perform (op : Opcode) (x : Operand) : Action (Option Int) :=
  match op.binary? with
  | some f => do
    combine f
    return none
  | none => performOther op x

/-- The instruction at the current address. -/
def instruction? (m : Machine) : Option Instruction :=
  if 0 ≤ m.ip then m.program[m.ip.toNat]? else none

/-- Goes to an address, or to the next instruction. -/
def goTo (target : Option Int) : Action Unit := fun m => .ok () { m with ip := target.getD (m.ip + 1) }

/-- The operation that the machine comes to, with its operand. -/
def decoded : Action (Opcode × Operand) := fun m =>
  match m.instruction? with
  | none => .error (.noInstruction m.ip) m
  | some i =>
    match decode i with
    | .ok r => .ok r m
    | .error f => .error f m

/-- Carries out the instruction at the current address. -/
def step : Action Unit := do
  let (op, x) ← decoded
  goTo (← perform op x)

end Machine

end StackPrimer

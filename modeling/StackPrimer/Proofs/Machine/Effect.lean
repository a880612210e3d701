import StackPrimer.Proofs.Machine.Turn
import StackPrimer.Proofs.Sequence

/-!
# What an operation does

A program need not come from the translation: any operation may stand anywhere, with any operand. There
is one rule for each operation that succeeds, and a few rules for what a fault leaves behind. All that
holds of every program is read off these rules.

Results:
* `Performs.of_ok`: an operation that succeeds does what its rule says.
* `Leaves.of_error`: what a fault leaves behind.
* `step_eq_ok`, `step_eq_error`: the same for the instruction at the current address.
-/

namespace StackPrimer

namespace Opcode

/-- The scope in which the operation stores, if it does. -/
def stores? : Opcode → Option Scope
  | storeGlobal => some .global
  | storeLocal => some .function
  | _ => none

/-- The scope in which the operation loads, if it does. -/
def loads? : Opcode → Option Scope
  | loadGlobal => some .global
  | loadLocal => some .function
  | _ => none

end Opcode

namespace Machine

/-- An address of a scope as an address of memory as a whole. -/
def place (m : Machine) (scope : Scope) (address : Int) : Int :=
  match scope with
  | .global => address
  | .function => m.frame + address

/-- What the operation with this operand does to the machine, and the address to which it jumps, if it
jumps. -/
inductive Performs (m : Machine) : Opcode → Operand → Option Int → Machine → Prop
  | start {x : Operand} : Performs m .start x none m
  | halt {x : Operand} : Performs m .halt x none { m with running := false }
  | allocate {x : Operand} : m.memory.size < memoryLimit →
      Performs m .allocate x none { m with memory := m.memory.push 0.0 }
  | constant {op : Opcode} {x : Operand} {y : Float} : op = .constant ∨ op = .pushReturn →
      x.constant = .ok y → Performs m op x none { m with stack := y :: m.stack }
  | load {op : Opcode} {scope : Scope} {x : Operand} {address : Int} {n : Nat} {y : Float} :
      op.loads? = some scope → x.address = .ok address → m.place scope address = n →
      m.memory[n]? = some y → Performs m op x none { m with stack := y :: m.stack }
  | store {op : Opcode} {scope : Scope} {x : Operand} {address : Int} {n : Nat} {y : Float}
      {stack : List Float} :
      op.stores? = some scope → x.address = .ok address → m.place scope address = n →
      n < memoryLimit → m.stack = y :: stack →
      Performs m op x none { m with stack, memory := written m.memory n y }
  | binary {op : Opcode} {x : Operand} {f : Float → Float → Float} {right left : Float}
      {stack : List Float} :
      op.binary? = some f → m.stack = right :: left :: stack →
      Performs m op x none { m with stack := f left right :: stack }
  | print {x : Operand} {y : Float} {stack : List Float} : m.stack = y :: stack →
      Performs m .print x none { m with stack, printed := Number.display y :: m.printed }
  | read {x : Operand} {word : List Char} {input : Input} {y : Float} :
      m.input.next = (some word, input) → Number.readFloat? (String.ofList word) = some y →
      Performs m .read x none { m with stack := y :: m.stack, input }
  | jump {op : Opcode} {x : Operand} {address : Int} : op = .jump ∨ op = .call →
      x.address = .ok address → Performs m op x (some address) m
  | jumpIfZero {x : Operand} {y : Float} {stack : List Float} {address : Int} :
      m.stack = y :: stack → (y == 0) = true → x.address = .ok address →
      Performs m .jumpIfZero x (some address) { m with stack }
  | pass {x : Operand} {y : Float} {stack : List Float} : m.stack = y :: stack →
      (y == 0) = false → Performs m .jumpIfZero x none { m with stack }
  | enter {x : Operand} :
      Performs m .enter x none { m with calls := m.frame :: m.calls, frame := m.memory.size }
  | leave {x : Operand} {y : Float} {stack : List Float} {frame : Nat} {calls : List Nat}
      {address : Int} :
      m.calls = frame :: calls → m.stack = y :: stack → Operand.address (.float y) = .ok address →
      Performs m .leave x (some address)
        { m with stack, memory := m.memory.take m.frame, frame, calls }

/-- What a fault of the operation leaves of the machine. -/
inductive Leaves (m : Machine) : Opcode → Machine → Prop
  | untouched {op : Opcode} : Leaves m op m
  | popped {op : Opcode} {y : Float} {stack : List Float} : m.stack = y :: stack →
      Leaves m op { m with stack }
  | read {input : Input} : Leaves m .read { m with input }
  | closed {frame : Nat} {calls : List Nat} : m.calls = frame :: calls →
      Leaves m .leave { m with memory := m.memory.take m.frame, frame, calls }
  | closedPopped {y : Float} {stack : List Float} {frame : Nat} {calls : List Nat} :
      m.calls = frame :: calls → m.stack = y :: stack →
      Leaves m .leave { m with stack, memory := m.memory.take m.frame, frame, calls }

/-! ## The parts of operations -/

section Parts

variable {α : Type} {m m' : Machine} {f : Fault}

theorem ofExcept_eq_ok {e : Except Fault α} {a : α} :
    Action.ofExcept e m = .ok a m' ↔ e = .ok a ∧ m = m' := by
  cases e <;> simp [Action.ofExcept]

theorem ofExcept_eq_error {e : Except Fault α} :
    Action.ofExcept e m = .error f m' ↔ e = .error f ∧ m = m' := by
  cases e <;> simp [Action.ofExcept]

theorem push_eq_ok {y : Float} {u : Unit} :
    push y m = .ok u m' ↔ m' = { m with stack := y :: m.stack } := by
  simp [push, eq_comm]

theorem push_ne_error {y : Float} : push y m ≠ .error f m' := by
  simp [push]

theorem pop_eq_ok {y : Float} :
    pop m = .ok y m' ↔ ∃ stack, m.stack = y :: stack ∧ m' = { m with stack } := by
  unfold pop
  split
  · rename_i hnil
    simp [hnil]
  · rename_i y' stack hcons
    simp [hcons, eq_comm]

theorem pop_eq_error (h : pop m = .error f m') : m = m' := by
  unfold pop at h
  split at h
  · cases h
    rfl
  · cases h

theorem fetch_eq_ok {address : Int} {y : Float} (h : fetch address m = .ok y m') :
    ∃ n : Nat, address = n ∧ m.memory[n]? = some y ∧ m' = m := by
  unfold fetch at h
  split at h
  · rename_i hpos
    split at h
    · rename_i hcell
      cases h
      exact ⟨address.toNat, by omega, hcell, rfl⟩
    · cases h
  · cases h

theorem fetch_eq_error {address : Int} (h : fetch address m = .error f m') : m = m' := by
  unfold fetch at h
  split at h
  · split at h
    · cases h
    · cases h
      rfl
  · cases h
    rfl

/-- Storing at a negative address or past the limit of memory is a fault and leaves all as it was; at any
other address it succeeds. -/
theorem store_cases (address : Int) (y : Float) (m : Machine) :
    (∃ n : Nat, address = n ∧ n < memoryLimit ∧
      store address y m = .ok () { m with memory := written m.memory n y }) ∨
    ∃ f, store address y m = .error f m := by
  by_cases hneg : address < 0
  · right
    refine ⟨.noCell address, ?_⟩
    unfold store
    rw [if_pos hneg]
    rfl
  · obtain ⟨n, rfl⟩ : ∃ n : Nat, address = n := ⟨address.toNat, by omega⟩
    rw [store_ok]
    by_cases hlimit : memoryLimit ≤ n
    · exact .inr ⟨_, if_pos hlimit⟩
    · exact .inl ⟨n, rfl, by omega, if_neg hlimit⟩

theorem store_eq_ok {address : Int} {y : Float} (h : store address y m = .ok () m') :
    ∃ n : Nat, address = n ∧ n < memoryLimit ∧ m' = { m with memory := written m.memory n y } := by
  rcases store_cases address y m with ⟨n, hn, hlimit, hok⟩ | ⟨f, herror⟩
  · rw [h] at hok
    cases hok
    exact ⟨n, hn, hlimit, rfl⟩
  · rw [h] at herror
    cases herror

theorem store_eq_error {address : Int} {y : Float} (h : store address y m = .error f m') : m = m' := by
  rcases store_cases address y m with ⟨n, -, -, hok⟩ | ⟨f, herror⟩
  · rw [h] at hok
    cases hok
  · rw [h] at herror
    cases herror
    rfl

theorem read_eq_ok {y : Float} (h : read m = .ok y m') :
    ∃ word input, m.input.next = (some word, input) ∧
      Number.readFloat? (String.ofList word) = some y ∧ m' = { m with input } := by
  unfold read at h
  split at h
  · cases h
  · rename_i word input hnext
    split at h
    · rename_i hread
      cases h
      exact ⟨word, input, hnext, hread, rfl⟩
    · cases h

theorem read_eq_error (h : read m = .error f m') : ∃ input, m' = { m with input } := by
  unfold read at h
  split at h
  · rename_i input _
    cases h
    exact ⟨input, rfl⟩
  · rename_i word input _
    split at h
    · cases h
    · cases h
      exact ⟨input, rfl⟩

theorem closeFrame_eq_ok (h : closeFrame m = .ok () m') :
    ∃ frame calls, m.calls = frame :: calls ∧
      m' = { m with memory := m.memory.take m.frame, frame, calls } := by
  unfold closeFrame at h
  split at h
  · cases h
  · rename_i frame calls hcalls
    cases h
    exact ⟨frame, calls, hcalls, by simp⟩

theorem closeFrame_eq_error (h : closeFrame m = .error f m') : m = m' := by
  unfold closeFrame at h
  split at h
  · cases h
    rfl
  · cases h

end Parts

/-! ## Operations -/

section Operations

variable {m m' : Machine} {f : Fault} {op : Opcode} {x : Operand} {target : Option Int}

theorem perform_of_binary?_eq_none (hop : op.binary? = none) : perform op x = performOther op x := by
  rw [perform, hop]

/-- Loading is the same in both scopes, but for the place. -/
theorem performOther_load {scope : Scope} (hop : op.loads? = some scope) :
    performOther op x m = (do
      let address ← Action.ofExcept x.address
      push (← fetch (m.place scope address))
      return none : Action (Option Int)) m := by
  cases op <;> cases hop
  · rfl
  · unfold performOther
    cases x.address <;> rfl

/-- Storing is the same in both scopes, but for the place. -/
theorem performOther_store {scope : Scope} (hop : op.stores? = some scope) :
    performOther op x m = (do
      let address ← Action.ofExcept x.address
      store (m.place scope address) (← pop)
      return none : Action (Option Int)) m := by
  cases op <;> cases hop
  · rfl
  · unfold performOther
    cases x.address <;> rfl

/-- An operation that succeeds does what its rule says. -/
theorem Performs.of_ok (h : perform op x m = .ok target m') : Performs m op x target m' := by
  cases hop : op.binary? with
  | some g =>
    rw [perform, hop] at h
    simp only [combine, bind_eq_ok, pop_eq_ok, push_eq_ok, pure_eq_ok] at h
    obtain ⟨_, _, ⟨right, _, ⟨stack, hright, rfl⟩, left, _, ⟨stack', hleft, rfl⟩, rfl⟩, rfl, rfl⟩ := h
    obtain rfl : stack = left :: stack' := hleft
    exact .binary hop hright
  | none =>
    rw [perform_of_binary?_eq_none hop] at h
    cases op with
    | start =>
      obtain ⟨rfl, rfl⟩ := pure_eq_ok.mp h
      exact .start
    | halt =>
      cases h
      exact .halt
    | allocate =>
      simp only [performOther, bind_eq_ok, pure_eq_ok, allocate_eq] at h
      obtain ⟨_, _, hallocate, rfl, rfl⟩ := h
      split at hallocate
      · cases hallocate
      · rename_i hlimit
        cases hallocate
        exact .allocate (by omega)
    | constant | pushReturn =>
      simp only [performOther, bind_eq_ok, pure_eq_ok, ofExcept_eq_ok, push_eq_ok] at h
      obtain ⟨y, _, ⟨hy, rfl⟩, _, _, rfl, rfl, rfl⟩ := h
      exact .constant (by simp) hy
    | loadGlobal | loadLocal =>
      rw [performOther_load rfl] at h
      simp only [bind_eq_ok, pure_eq_ok, ofExcept_eq_ok, push_eq_ok] at h
      obtain ⟨address, _, ⟨hx, rfl⟩, y, _, hfetch, _, _, rfl, rfl, rfl⟩ := h
      obtain ⟨n, hn, hy, rfl⟩ := fetch_eq_ok hfetch
      exact .load rfl hx hn hy
    | storeGlobal | storeLocal =>
      rw [performOther_store rfl] at h
      simp only [bind_eq_ok, pure_eq_ok, ofExcept_eq_ok, pop_eq_ok] at h
      obtain ⟨address, _, ⟨hx, rfl⟩, y, _, ⟨stack, hstack, rfl⟩, _, _, hstore, rfl, rfl⟩ := h
      obtain ⟨n, hn, hlimit, rfl⟩ := store_eq_ok hstore
      exact .store rfl hx hn hlimit hstack
    | print =>
      simp only [performOther, bind_eq_ok, pure_eq_ok, pop_eq_ok] at h
      obtain ⟨y, _, ⟨stack, hstack, rfl⟩, _, _, hprint, rfl, rfl⟩ := h
      cases hprint
      exact .print hstack
    | read =>
      simp only [performOther, bind_eq_ok, pure_eq_ok, push_eq_ok] at h
      obtain ⟨y, _, hread, _, _, rfl, rfl, rfl⟩ := h
      obtain ⟨word, input, hnext, hword, rfl⟩ := read_eq_ok hread
      exact .read hnext hword
    | jump | call =>
      simp only [performOther, bind_eq_ok, pure_eq_ok, ofExcept_eq_ok] at h
      obtain ⟨address, _, ⟨hx, rfl⟩, rfl, rfl⟩ := h
      exact .jump (by simp) hx
    | jumpIfZero =>
      simp only [performOther, bind_eq_ok, pop_eq_ok] at h
      obtain ⟨y, _, ⟨stack, hstack, rfl⟩, h⟩ := h
      split at h
      · rename_i hzero
        simp only [bind_eq_ok, pure_eq_ok, ofExcept_eq_ok] at h
        obtain ⟨address, _, ⟨hx, rfl⟩, rfl, rfl⟩ := h
        exact .jumpIfZero hstack hzero hx
      · rename_i hzero
        obtain ⟨rfl, rfl⟩ := pure_eq_ok.mp h
        exact .pass hstack (by simpa using hzero)
    | enter =>
      cases h
      exact .enter
    | leave =>
      simp only [performOther, bind_eq_ok, pure_eq_ok, ofExcept_eq_ok, pop_eq_ok] at h
      obtain ⟨_, _, hclose, y, _, ⟨stack, hstack, rfl⟩, address, _, ⟨hy, rfl⟩, rfl, rfl⟩ := h
      obtain ⟨frame, calls, hcalls, rfl⟩ := closeFrame_eq_ok hclose
      exact .leave hcalls hstack hy
    | _ => cases hop

/-- A fault of an operation leaves what its rule says. -/
theorem Leaves.of_error (h : perform op x m = .error f m') : Leaves m op m' := by
  cases hop : op.binary? with
  | some g =>
    rw [perform, hop] at h
    simp only [combine, bind_eq_error, pop_eq_ok, push_ne_error, pure_ne_error, and_false,
      exists_false, or_false] at h
    rcases h with hpop | ⟨right, _, ⟨stack, hright, rfl⟩, hpop⟩
    · obtain rfl := pop_eq_error hpop
      exact .untouched
    · obtain rfl := pop_eq_error hpop
      exact .popped hright
  | none =>
    rw [perform_of_binary?_eq_none hop] at h
    cases op with
    | start => exact absurd h pure_ne_error
    | halt => cases h
    | enter => cases h
    | allocate =>
      simp only [performOther, bind_eq_error, pure_ne_error, and_false, exists_false, or_false,
        allocate_eq] at h
      split at h
      · cases h
        exact .untouched
      · cases h
    | constant | pushReturn =>
      simp only [performOther, bind_eq_error, pure_ne_error, push_ne_error, ofExcept_eq_error, and_false,
        exists_false, or_false] at h
      obtain ⟨-, rfl⟩ := h
      exact .untouched
    | loadGlobal | loadLocal =>
      rw [performOther_load rfl] at h
      simp only [bind_eq_error, pure_ne_error, push_ne_error, ofExcept_eq_error, ofExcept_eq_ok,
        and_false, exists_false, or_false] at h
      rcases h with ⟨-, rfl⟩ | ⟨_, _, ⟨-, rfl⟩, hfetch⟩
      · exact .untouched
      · obtain rfl := fetch_eq_error hfetch
        exact .untouched
    | storeGlobal | storeLocal =>
      rw [performOther_store rfl] at h
      simp only [bind_eq_error, pure_ne_error, ofExcept_eq_error, ofExcept_eq_ok, pop_eq_ok,
        and_false, exists_false, or_false] at h
      rcases h with ⟨-, rfl⟩ | ⟨_, _, ⟨-, rfl⟩, hpop | ⟨_, _, ⟨_, hstack, rfl⟩, hstore⟩⟩
      · exact .untouched
      · obtain rfl := pop_eq_error hpop
        exact .untouched
      · obtain rfl := store_eq_error hstore
        exact .popped hstack
    | print =>
      simp only [performOther, bind_eq_error, pure_ne_error, and_false, exists_false, or_false] at h
      rcases h with hpop | ⟨_, _, -, hprint⟩
      · obtain rfl := pop_eq_error hpop
        exact .untouched
      · cases hprint
    | read =>
      simp only [performOther, bind_eq_error, pure_ne_error, push_ne_error, and_false, exists_false,
        or_false] at h
      obtain ⟨input, rfl⟩ := read_eq_error h
      exact .read
    | jump | call =>
      simp only [performOther, bind_eq_error, pure_ne_error, ofExcept_eq_error, and_false, exists_false,
        or_false] at h
      obtain ⟨-, rfl⟩ := h
      exact .untouched
    | jumpIfZero =>
      simp only [performOther, bind_eq_error, pop_eq_ok] at h
      rcases h with hpop | ⟨y, _, ⟨stack, hstack, rfl⟩, h⟩
      · obtain rfl := pop_eq_error hpop
        exact .untouched
      · split at h
        · simp only [bind_eq_error, pure_ne_error, ofExcept_eq_error, and_false, exists_false,
            or_false] at h
          obtain ⟨-, rfl⟩ := h
          exact .popped hstack
        · exact absurd h pure_ne_error
    | leave =>
      simp only [performOther, bind_eq_error, pure_ne_error, ofExcept_eq_error, pop_eq_ok, and_false,
        exists_false, or_false] at h
      rcases h with hclose | ⟨_, _, hclose, hpop | ⟨y, _, ⟨stack, hstack, rfl⟩, -, rfl⟩⟩
      · obtain rfl := closeFrame_eq_error hclose
        exact .untouched
      · obtain ⟨frame, calls, hcalls, rfl⟩ := closeFrame_eq_ok hclose
        obtain rfl := pop_eq_error hpop
        exact .closed hcalls
      · obtain ⟨frame, calls, hcalls, rfl⟩ := closeFrame_eq_ok hclose
        exact .closedPopped hcalls hstack
    | _ => cases hop

/-- Only the jump, if there is one, takes the machine to another address. -/
theorem Performs.ip (h : Performs m op x target m') : m'.ip = m.ip := by
  cases h <;> rfl

theorem Performs.program (h : Performs m op x target m') : m'.program = m.program := by
  cases h <;> rfl

theorem Leaves.ip (h : Leaves m op m') : m'.ip = m.ip := by
  cases h <;> rfl

theorem Leaves.program (h : Leaves m op m') : m'.program = m.program := by
  cases h <;> rfl

end Operations

/-! ## Steps -/

/-- The operation that the machine comes to, with its operand, if there is one that can be carried
out. -/
def operation? (m : Machine) : Option (Opcode × Operand) :=
  m.instruction?.bind fun i => (decode i).toOption

/-- The operation is the one that the machine comes to. -/
def ComesTo (m : Machine) (op : Opcode) : Prop := m.operation?.map Prod.fst = some op

instance (m : Machine) (op : Opcode) : Decidable (m.ComesTo op) :=
  inferInstanceAs (Decidable (_ = _))

section Steps

variable {m m' : Machine} {f : Fault}

theorem comesTo_of_operation? {op : Opcode} {x : Operand} (h : m.operation? = some (op, x)) :
    m.ComesTo op := by
  rw [ComesTo, h]
  rfl

/-- A step carries out the operation that the machine comes to, or fails at once if there is none. -/
theorem step_cases (m : Machine) :
    (∃ op x, m.operation? = some (op, x) ∧ step m = landed (perform op x m)) ∨
      ∃ f, m.operation? = none ∧ step m = .error f m := by
  cases hi : m.instruction? with
  | none => exact .inr ⟨_, by rw [operation?, hi]; rfl, step_of_none hi⟩
  | some i =>
    cases hdecode : decode i with
    | ok r =>
      obtain ⟨op, x⟩ := r
      refine .inl ⟨op, x, ?_, ?_⟩
      · rw [operation?, hi, Option.bind_some, hdecode]
        rfl
      · rw [step_eq hi, execute_eq m hdecode]
    | error f =>
      refine .inr ⟨f, ?_, ?_⟩
      · rw [operation?, hi, Option.bind_some, hdecode]
        rfl
      · rw [step_eq hi]
        change EStateM.bind (Action.ofExcept (decode i)) _ m = _
        rw [hdecode]
        rfl

/-- A step that succeeds does what the rule of its operation says, and goes on to an address. -/
theorem step_eq_ok (h : step m = .ok () m') :
    ∃ op x target m₁, m.operation? = some (op, x) ∧ Performs m op x target m₁ ∧
      m' = { m₁ with ip := target.getD (m.ip + 1) } := by
  rcases step_cases m with ⟨op, x, hop, hstep⟩ | ⟨f, -, hstep⟩
  · rw [hstep] at h
    cases hperform : perform op x m with
    | ok target m₁ =>
      rw [hperform] at h
      have hperforms := Performs.of_ok hperform
      cases h
      exact ⟨op, x, target, m₁, hop, hperforms, by rw [hperforms.ip]⟩
    | error f m₁ =>
      rw [hperform] at h
      cases h
  · rw [hstep] at h
    cases h

/-- A step that fails leaves all as it was, or what the rules for a fault of its operation say. -/
theorem step_eq_error (h : step m = .error f m') :
    (m.operation? = none ∧ m' = m) ∨ ∃ op x, m.operation? = some (op, x) ∧ Leaves m op m' := by
  rcases step_cases m with ⟨op, x, hop, hstep⟩ | ⟨f', hop, hstep⟩
  · rw [hstep] at h
    cases hperform : perform op x m with
    | ok target m₁ =>
      rw [hperform] at h
      cases h
    | error f m₁ =>
      rw [hperform] at h
      cases h
      exact .inr ⟨op, x, hop, .of_error hperform⟩
  · rw [hstep] at h
    cases h
    exact .inl ⟨hop, rfl⟩

theorem Turns.program (h : Turns m m') : m'.program = m.program := by
  obtain ⟨op, x, target, m₁, -, hperforms, rfl⟩ := step_eq_ok h.2
  exact hperforms.program

theorem Reaches.program (h : Reaches m m') : m'.program = m.program := by
  induction h with
  | refl => rfl
  | tail _ hturn ih => rw [hturn.program, ih]

end Steps

end Machine

end StackPrimer

import Mathlib.Logic.Relation
import StackPrimer.Machine.Run
import StackPrimer.Proofs.Grammar.Code
import StackPrimer.Proofs.Number.Whole

/-!
# What one instruction does

Each instruction that the translation uses has an equation for carrying it out on a machine whose
stack is as it has to be. A run is made of turns, of which each carries out one instruction.

Results:
* `Input.next_eq`: reading a number takes one word off the words of the input.
* `Machine.step_eq`: a step carries out the instruction at the current address.
* `Machine.runWithin_of_reaches`: running for long enough gets as far as the turns lead.
* `Machine.run_of_reaches`: a run that comes to a machine that has been stopped is complete.
-/

namespace StackPrimer

/-! ## Input -/

namespace Input

/-- The words that are still to be read. -/
def words (input : Input) : List (List Char) := input.pending ++ Text.words input.unread

theorem words_newline (cs ds : List Char) :
    Text.words (cs ++ '\n' :: ds) = Text.words cs ++ Text.words ds :=
  Text.words_append_blank (by decide) cs ds

/-- Fetching takes the first word of the text, the line that has been begun included. -/
theorem fetch_eq (begun cs : List Char) :
    match fetch begun cs with
    | none => Text.words (begun.reverse ++ cs) = []
    | some (word, rest) => Text.words (begun.reverse ++ cs) = word :: rest.words := by
  induction cs generalizing begun with
  | nil =>
    unfold fetch
    cases h : Text.words begun.reverse with
    | nil => simp [h]
    | cons word pending => simp [h, words]
  | cons c cs ih =>
    unfold fetch
    by_cases hc : c = '\n'
    · subst hc
      rw [if_pos rfl, words_newline]
      cases h : Text.words begun.reverse with
      | nil => simpa using ih []
      | cons word pending => simp [words]
    · rw [if_neg hc]
      simpa using ih (c :: begun)

/-- Reading takes one word off the words of the input. -/
theorem next_eq (input : Input) :
    match input.words with
    | [] => input.next = (none, {})
    | word :: rest => ∃ input', input.next = (some word, input') ∧ input'.words = rest := by
  rcases input with ⟨pending, unread⟩
  cases pending with
  | nil =>
    have h := fetch_eq [] unread
    rw [List.reverse_nil, List.nil_append] at h
    cases hf : fetch [] unread with
    | none =>
      rw [hf] at h
      simp [words, h, next, hf]
    | some r =>
      rw [hf] at h
      simp [words, h, next, hf]
  | cons word pending => simp [words, next]

end Input

namespace Machine

open Grammar

/-! ## Memory -/

/-- Memory after a number has been put into a cell, with as many new cells as that takes. -/
def written (memory : Array Float) (address : Nat) (x : Float) : Array Float :=
  (memory ++ Array.replicate (address + 1 - memory.size) 0.0).setIfInBounds address x

section Memory

variable {memory : Array Float} {address : Nat} {x : Float}

theorem size_written : (written memory address x).size = max memory.size (address + 1) := by
  simp [written]
  omega

theorem getElem?_written_self : (written memory address x)[address]? = some x := by
  rw [written, Array.getElem?_setIfInBounds_self_of_lt]
  simp
  omega

/-- Other cells keep what they hold. -/
theorem getElem?_written_of_ne {other : Nat} {y : Float} (h : address ≠ other)
    (hy : memory[other]? = some y) : (written memory address x)[other]? = some y := by
  have hlt : other < memory.size := (Array.getElem?_eq_some_iff.mp hy).1
  rw [written, Array.getElem?_setIfInBounds_ne h, Array.getElem?_append_left hlt, hy]

theorem getElem?_take {n i : Nat} (h : i < n) : (memory.take n)[i]? = memory[i]? := by
  rw [Array.take_eq_extract, Array.getElem?_extract, Nat.zero_add]
  split
  · rfl
  · rw [Array.getElem?_eq_none]
    omega

/-- Cells in front of the one that is written stay as they are. -/
theorem take_written {n : Nat} (h : n ≤ address) (hn : n ≤ memory.size) :
    (written memory address x).take n = memory.take n := by
  apply Array.ext_getElem?
  intro i
  by_cases hi : i < n
  · have hsome : memory[i]? = some memory[i] := Array.getElem?_eq_getElem (by omega)
    rw [getElem?_take hi, getElem?_take hi, hsome]
    exact getElem?_written_of_ne (by omega) hsome
  · rw [Array.getElem?_eq_none, Array.getElem?_eq_none]
    · simp
      omega
    · simp
      omega

theorem take_push {n : Nat} (hn : n ≤ memory.size) : (memory.push x).take n = memory.take n := by
  apply Array.ext
  · simp
    omega
  · intro i hi _
    have hlt : i < memory.size := by
      simp at hi
      omega
    simp [Array.getElem_push_lt hlt]

end Memory

/-- The address of a variable's cell in memory as a whole. -/
def cell (m : Machine) (scope : Scope) (address : Nat) : Nat :=
  match scope with
  | .global => address
  | .function => m.frame + address

/-- The operation that pushes a variable of the scope. -/
def loading : Scope → Opcode
  | .global => .loadGlobal
  | .function => .loadLocal

/-- The operation that pops into a variable of the scope. -/
def storing : Scope → Opcode
  | .global => .storeGlobal
  | .function => .storeLocal

theorem load_eq {n : Names} {x : String} {scope : Scope} (h : n.scope? x = some scope) :
    n.load x = [withInt (loading scope) (n.address scope x)] := by
  unfold Names.load
  rw [h]
  cases scope <;> rfl

theorem store_eq (n : Names) (x : String) :
    n.store x = withInt (storing n.home) (n.address n.home x) := by
  unfold Names.store
  cases n.home <;> rfl

/-! ## Single instructions -/

/-- Carries out the instruction, wherever it may stand. -/
def execute (i : Instruction) : Action Unit := do
  let (op, x) ← Action.ofExcept (decode i)
  goTo (← perform op x)

/-- A step carries out the instruction at the current address. -/
theorem step_eq {m : Machine} {i : Instruction} (h : m.instruction? = some i) :
    step m = execute i m := by
  have hdecoded : decoded m = Action.ofExcept (decode i) m := by
    unfold decoded
    rw [h]
    cases hi : decode i <;> simp [Action.ofExcept, hi]
  change EStateM.bind decoded _ m = EStateM.bind _ _ m
  unfold EStateM.bind
  rw [hdecoded]

section Execute

variable (m : Machine)

/-- The machine after an operation: at the address to which it jumps, or else at the next one. -/
def landed : EStateM.Result Fault Machine (Option Int) → EStateM.Result Fault Machine Unit
  | .ok target m => .ok () { m with ip := target.getD (m.ip + 1) }
  | .error f m => .error f m

theorem execute_eq {i : Instruction} {op : Opcode} {x : Operand} (hi : decode i = .ok (op, x)) :
    execute i m = landed (perform op x m) := by
  change EStateM.bind (Action.ofExcept (decode i)) _ m = _
  rw [hi]
  change EStateM.bind (perform op x) _ m = _
  unfold EStateM.bind
  cases perform op x m <;> rfl

theorem execute_withInt {op : Opcode} (hop : op.binary? = none) (n : Nat) :
    execute (withInt op n) m = landed (performOther op (.int n) m) := by
  rw [execute_eq m rfl, perform, hop]

theorem execute_plain {op : Opcode} (htakes : op.takesOperand = false) :
    execute (plain op) m = landed (perform op (.int 0) m) := by
  have hi : decode (plain op) = .ok (op, .int 0) := by
    simp [decode, plain, Instruction.of, htakes]
  exact execute_eq m hi

theorem execute_start : execute (plain .start) m = .ok () { m with ip := m.ip + 1 } := rfl

theorem execute_halt :
    execute (plain .halt) m = .ok () { m with running := false, ip := m.ip + 1 } := rfl

theorem execute_constant (x : Float) :
    execute (.of .constant (some (.float x))) m =
      .ok () { m with stack := x :: m.stack, ip := m.ip + 1 } := rfl

theorem execute_jump (n : Nat) : execute (withInt .jump n) m = .ok () { m with ip := n } := rfl

theorem execute_call (n : Nat) : execute (withInt .call n) m = .ok () { m with ip := n } := rfl

theorem execute_enter :
    execute (plain .enter) m =
      .ok () { m with calls := m.frame :: m.calls, frame := m.memory.size, ip := m.ip + 1 } := rfl

theorem execute_pushReturn {n : Nat} {x : Float} (hx : Number.ofInt? n = some x) :
    execute (withInt .pushReturn n) m =
      .ok () { m with stack := x :: m.stack, ip := m.ip + 1 } := by
  rw [execute_withInt m rfl]
  simp [performOther, Operand.constant, hx, bind, EStateM.bind, Action.ofExcept, push, landed, pure,
    EStateM.pure]

theorem allocate_eq :
    allocate m = if memoryLimit ≤ m.memory.size then .error (.beyondMemory m.memory.size) m
      else .ok () { m with memory := m.memory.push 0.0 } := by
  have hone : ((m.memory.size : Int) + 1).toNat - m.memory.size = 1 := by omega
  have hpush : m.memory ++ Array.replicate 1 0.0 = m.memory.push 0.0 := by simp
  simp only [allocate, ensure, Int.ofNat_le, hone, hpush]

theorem execute_allocate :
    execute (withInt .allocate 1) m =
      if memoryLimit ≤ m.memory.size then .error (.beyondMemory m.memory.size) m
      else .ok () { m with memory := m.memory.push 0.0, ip := m.ip + 1 } := by
  rw [execute_withInt m rfl]
  simp only [performOther, bind, EStateM.bind, allocate_eq]
  by_cases hlimit : memoryLimit ≤ m.memory.size
  · simp [hlimit, landed]
  · simp [hlimit, landed, pure, EStateM.pure]

theorem execute_load (scope : Scope) (n : Nat) :
    execute (withInt (loading scope) n) m =
      match m.memory[m.cell scope n]? with
      | none => .error (.noCell (m.cell scope n)) m
      | some x => .ok () { m with stack := x :: m.stack, ip := m.ip + 1 } := by
  have hfetch : ∀ a : Nat, fetch a m =
      match m.memory[a]? with
      | none => .error (.noCell a) m
      | some x => .ok x m := by
    intro a
    rw [fetch, if_pos (Int.natCast_nonneg a), Int.toNat_natCast]
    cases m.memory[a]? <;> rfl
  cases scope with
  | global =>
    rw [execute_withInt m rfl]
    simp only [loading, performOther, bind, EStateM.bind, Operand.address, Action.ofExcept, hfetch,
      cell]
    cases m.memory[n]? <;> rfl
  | function =>
    rw [execute_withInt m rfl]
    simp only [loading, performOther, bind, EStateM.bind, Operand.address, Action.ofExcept, frameStart,
      ← Int.natCast_add, hfetch, cell]
    cases m.memory[m.frame + n]? <;> rfl

theorem store_ok (address : Nat) (x : Float) :
    store address x m =
      if memoryLimit ≤ address then .error (.beyondMemory address) m
      else .ok () { m with memory := written m.memory address x } := by
  have hmore : ((address : Int) + 1).toNat - m.memory.size = address + 1 - m.memory.size := by omega
  unfold store
  rw [if_neg (by omega)]
  simp only [bind, EStateM.bind, ensure, Int.ofNat_le, hmore]
  by_cases hlimit : memoryLimit ≤ address
  · simp [hlimit]
  · simp [hlimit, written]

theorem execute_store (scope : Scope) (n : Nat) {x : Float} {stack : List Float}
    (h : m.stack = x :: stack) :
    execute (withInt (storing scope) n) m =
      if memoryLimit ≤ m.cell scope n then .error (.beyondMemory (m.cell scope n)) { m with stack }
      else .ok () { m with
        stack, memory := written m.memory (m.cell scope n) x, ip := m.ip + 1 } := by
  have hpop : pop m = .ok x { m with stack } := by simp [pop, h]
  cases scope with
  | global =>
    rw [execute_withInt m rfl]
    simp only [storing, performOther, bind, EStateM.bind, Operand.address, Action.ofExcept, hpop,
      store_ok, cell]
    by_cases hlimit : memoryLimit ≤ n
    · simp [hlimit, landed]
    · simp [hlimit, landed, pure, EStateM.pure]
  | function =>
    rw [execute_withInt m rfl]
    simp only [storing, performOther, bind, EStateM.bind, Operand.address, Action.ofExcept, hpop,
      frameStart, ← Int.natCast_add, store_ok, cell]
    by_cases hlimit : memoryLimit ≤ m.frame + n
    · simp [hlimit, landed]
    · simp [hlimit, landed, pure, EStateM.pure]

theorem execute_binary {op : Opcode} {f : Float → Float → Float} (hop : op.binary? = some f)
    {right left : Float} {stack : List Float} (h : m.stack = right :: left :: stack) :
    execute (plain op) m = .ok () { m with stack := f left right :: stack, ip := m.ip + 1 } := by
  have htakes : op.takesOperand = false := by
    cases op <;> first | rfl | cases hop
  rw [execute_plain m htakes, perform, hop]
  simp [bind, EStateM.bind, combine, pop, push, h, pure, EStateM.pure, landed]

theorem execute_print {x : Float} {stack : List Float} (h : m.stack = x :: stack) :
    execute (plain .print) m =
      .ok () { m with stack, printed := Number.display x :: m.printed, ip := m.ip + 1 } := by
  have hpop : pop m = .ok x { m with stack } := by simp [pop, h]
  rw [execute_plain m rfl]
  simp [perform, Opcode.binary?, Opcode.arithmetic?, Opcode.comparison?, performOther, bind,
    EStateM.bind, hpop, print, pure, EStateM.pure, landed]

theorem execute_read :
    execute (plain .read) m =
      match m.input.next with
      | (none, input) => .error .endOfInput { m with input }
      | (some word, input) =>
        match Number.readFloat? (String.ofList word) with
        | none => .error (.notANumber (String.ofList word)) { m with input }
        | some x => .ok () { m with stack := x :: m.stack, input, ip := m.ip + 1 } := by
  rw [execute_plain m rfl]
  simp only [perform, Opcode.binary?, Opcode.arithmetic?, Opcode.comparison?, performOther, bind,
    EStateM.bind, read]
  rcases m.input.next with ⟨_ | word, input⟩
  · rfl
  · cases hx : Number.readFloat? (String.ofList word) <;> simp [hx, push, pure, EStateM.pure, landed]

theorem execute_jumpIfZero (n : Nat) {x : Float} {stack : List Float} (h : m.stack = x :: stack) :
    execute (withInt .jumpIfZero n) m =
      .ok () { m with stack, ip := if x == 0 then (n : Int) else m.ip + 1 } := by
  have hpop : pop m = .ok x { m with stack } := by simp [pop, h]
  rw [execute_withInt m rfl]
  simp only [performOther, bind, EStateM.bind, hpop]
  by_cases hx : (x == 0) = true
  · simp [hx, Operand.address, Action.ofExcept, pure, EStateM.pure, landed, EStateM.bind]
  · simp [hx, pure, EStateM.pure, landed]

theorem execute_leave {x : Float} {stack : List Float} {frame n : Nat} {calls : List Nat}
    (h : m.stack = x :: stack) (hc : m.calls = frame :: calls)
    (hx : Operand.address (.float x) = .ok (n : Int)) :
    execute (plain .leave) m =
      .ok () { m with stack, memory := m.memory.take m.frame, frame, calls, ip := n } := by
  rw [execute_plain m rfl]
  simp [perform, Opcode.binary?, Opcode.arithmetic?, Opcode.comparison?, performOther, bind,
    EStateM.bind, closeFrame, pop, h, hc, hx, Action.ofExcept, pure, EStateM.pure, landed]

end Execute

/-! ## Runs -/

variable {m m' : Machine}

theorem instruction?_eq {address : Nat} (h : m.ip = address) :
    m.instruction? = m.program[address]? := by
  rw [instruction?, h, if_pos (Int.natCast_nonneg address), Int.toNat_natCast]

/-- A turn of a run: a machine that has not been stopped carries out an instruction without a
fault. -/
def Turns (m m' : Machine) : Prop := m.running = true ∧ step m = .ok () m'

/-- Some turns lead from one machine to the other. -/
abbrev Reaches : Machine → Machine → Prop := Relation.ReflTransGen Turns

/-- The machine at the beginning of a run. -/
def started (m : Machine) : Machine := { m with ip := 0, running := true }

theorem turns_of_execute {i : Instruction} (hr : m.running = true) (hi : m.instruction? = some i)
    (h : execute i m = .ok () m') : Turns m m' := by
  refine ⟨hr, ?_⟩
  rw [step_eq hi, h]

theorem step_of_none (h : m.instruction? = none) : step m = .error (.noInstruction m.ip) m := by
  have hdecoded : decoded m = .error (.noInstruction m.ip) m := by
    unfold decoded
    rw [h]
  change EStateM.bind decoded _ m = _
  unfold EStateM.bind
  rw [hdecoded]

/-- Where a step can be carried out, there is an instruction. -/
theorem exists_instruction (h : step m = .ok () m') : ∃ i, m.instruction? = some i := by
  cases hi : m.instruction? with
  | some i => exact ⟨i, rfl⟩
  | none =>
    rw [step_of_none hi] at h
    cases h

/-- A turn is one instruction of the loop. -/
theorem runWithin_succ (h : Turns m m') (bound : Nat) (j : Journal) :
    runWithin (bound + 1) m j = runWithin bound m' (m.announce j) := by
  obtain ⟨i, hi⟩ := exists_instruction h.2
  rw [runWithin, h.1, hi]
  simp [h.2]

/-- Running for long enough gets as far as the turns lead. -/
theorem runWithin_of_reaches (h : Reaches m m') (j : Journal) :
    ∃ turns j', ∀ bound, runWithin (turns + bound) m j = runWithin bound m' j' := by
  induction h using Relation.ReflTransGen.head_induction_on generalizing j with
  | refl => exact ⟨0, j, fun bound => by rw [Nat.zero_add]⟩
  | @head m₁ m₂ hturn _ ih =>
    obtain ⟨turns, j', hrest⟩ := ih (m₁.announce j)
    refine ⟨turns + 1, j', ?_⟩
    intro bound
    rw [show turns + 1 + bound = turns + bound + 1 by omega, runWithin_succ hturn, hrest]

/-- Something is said before a run, and also after it unless it goes on or all work has been stopped. -/
theorem run_eq (bound : Nat) (m : Machine) (j : Journal) :
    run bound m j =
      let r := runWithin bound m.started
        (j.say 1 ("--- Loaded " ++ toString m.program.size ++ " instructions ---"))
      (r.1, r.2.1,
        if r.1 = some .completed ∨ r.1 = some .faulted then r.2.2.say 1 "--- Execution finished ---"
        else r.2.2) := by
  rw [run, ← started]
  rcases runWithin bound m.started _ with ⟨_ | _ | _ | _, last, j'⟩ <;> rfl

/-- A run that comes to a machine that has been stopped is complete. -/
theorem run_of_reaches (h : Reaches m.started m') (hstop : m'.running = false) (j : Journal) :
    ∃ bound j', run bound m j = (some .completed, m', j') := by
  obtain ⟨turns, j', hrest⟩ := runWithin_of_reaches h
    (j.say 1 ("--- Loaded " ++ toString m.program.size ++ " instructions ---"))
  have hlast : runWithin (turns + 1) m.started
      (j.say 1 ("--- Loaded " ++ toString m.program.size ++ " instructions ---")) =
      (some .completed, m', j') := by
    have hsame : { m' with running := false } = m' := by rw [← hstop]
    rw [hrest, runWithin, if_neg (by simp [hstop]), hsame]
  refine ⟨turns + 1, j'.say 1 "--- Execution finished ---", ?_⟩
  unfold run
  simp only [started] at hlast
  simp only [hlast]

end Machine

end StackPrimer

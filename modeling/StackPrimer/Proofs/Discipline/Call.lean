import StackPrimer.Proofs.Discipline.Site
import StackPrimer.Proofs.OnePass.Program

/-!
# Calls and returns

A call is open from the instruction that pushes its return address to the one that leaves the
function. Open calls are a matter of the instructions carried out alone, without regard to what is on
the stacks; each remembers the machine as it was when the call began.

What holds between two instructions is that the stack consists of the temporaries that the site of the
address tells, and under them one return address for each open call, such that below it is what was on
the stack when the call began.

Results:
* `Stands.step`: what holds between instructions is preserved, and which faults there can be.
-/

namespace StackPrimer.Discipline

open Grammar

/-! ## Open calls -/

/-- A call that has begun and not returned. -/
structure OpenCall where
  /-- The machine when it came to the instruction that pushes the return address. -/
  before : Machine
  /-- The address of the instruction that calls, once it has been carried out. -/
  site : Option Int := none

/-- The open calls, the last one in front, after an instruction has been carried out by the
machine. -/
def openedBy (m : Machine) (calls : List OpenCall) (i : Instruction) : List OpenCall :=
  match i.mnemonic with
  | .listed .pushReturn => ⟨m, none⟩ :: calls
  | .listed .call =>
    match calls with
    | [] => []
    | c :: rest => { c with site := some m.ip } :: rest
  | .listed .leave => calls.tail
  | _ => calls

/-- The open calls after the instruction that the machine comes to. -/
def opened (m : Machine) (calls : List OpenCall) : List OpenCall :=
  match m.instruction? with
  | none => calls
  | some i => openedBy m calls i

/-- A run gets to a machine, with these calls open. -/
inductive Visits (m₀ : Machine) : Machine → List OpenCall → Prop
  | start : Visits m₀ m₀ []
  | turn {m m' : Machine} {calls : List OpenCall} : Visits m₀ m calls → m.Turns m' →
      Visits m₀ m' (opened m calls)

/-! ## What holds between two instructions -/

/-- The number on the stack is the return address that the call pushed. -/
structure ReturnAddress (c : OpenCall) (x : Float) (back : Nat) : Prop where
  pushed : c.before.instruction? = some (withInt .pushReturn back)
  address : Operand.address (.float x) = .ok (back : Int)

/-- Between two statements, with these calls open: the stack, the frame and the saved frames. -/
inductive Nested (sites : Sites) : List OpenCall → List Float → Nat → List Nat → Prop
  | main {base : List Float} {frame : Nat} {frames : List Nat} : base = [] → frame = 0 →
      frames = [] → Nested sites [] base frame frames
  | call {c : OpenCall} {rest : List OpenCall} {x : Float} {back frame : Nat} {base : List Float}
      {frames : List Nat} : ReturnAddress c x back → c.site = some ((back : Int) - 1) →
      sites back = some (.between (!rest.isEmpty)) → base = x :: c.before.stack →
      frames = c.before.frame :: c.before.calls →
      Nested sites rest c.before.stack c.before.frame c.before.calls →
      Nested sites (c :: rest) base frame frames

/-- What is under the temporaries, with these calls open and perhaps one of them just begun. -/
inductive Under (sites : Sites) :
    Bool → Option Nat → List OpenCall → List Float → Nat → List Nat → Prop
  | body {calls : List OpenCall} {base : List Float} {frame : Nat} {frames : List Nat} :
      Nested sites calls base frame frames →
      Under sites (!calls.isEmpty) none calls base frame frames
  | arguments {c : OpenCall} {rest : List OpenCall} {x : Float} {back frame : Nat}
      {frames : List Nat} : ReturnAddress c x back → c.site = none →
      sites back = some (.between (!rest.isEmpty)) → c.before.frame = frame →
      c.before.calls = frames → Nested sites rest c.before.stack c.before.frame c.before.calls →
      Under sites (!rest.isEmpty) (some back) (c :: rest) (x :: c.before.stack) frame frames

/-- The stacks of the machine are as the site says. -/
inductive Stands (sites : Sites) (m : Machine) : List OpenCall → Site → Prop
  | within {inside : Bool} {pending : Option Nat} {calls : List OpenCall} {temps under : List Float} :
      m.stack = temps ++ under → Under sites inside pending calls under m.frame m.calls →
      Stands sites m calls (.within inside pending temps.length)
  | entry {c : OpenCall} {rest : List OpenCall} {x : Float} {back : Nat} {temps : List Float} :
      m.stack = temps ++ x :: c.before.stack → ReturnAddress c x back →
      c.site = some ((back : Int) - 1) → sites back = some (.between (!rest.isEmpty)) →
      c.before.frame = m.frame → c.before.calls = m.calls →
      Nested sites rest c.before.stack c.before.frame c.before.calls →
      Stands sites m (c :: rest) (.entry temps.length)

/-- What holds of a machine between two instructions, with these calls open. A machine that has been
stopped has nothing left on its stacks, and is behind the last instruction. -/
structure Holds (sites : Sites) (m : Machine) (calls : List OpenCall) : Prop where
  standing : m.running = true → ∃ (a : Nat) (s : Site), m.ip = a ∧ sites a = some s ∧
    Stands sites m calls s
  stopped : m.running = false → m.stack = [] ∧ m.calls = [] ∧ m.frame = 0 ∧ calls = [] ∧
    ∃ a : Nat, m.ip = a + 1 ∧ sites (a + 1) = none ∧ ∃ s, sites a = some s

/-- The faults that an instruction of a translation can have on this machine: there is no word to
read, or the next one is no number; a variable has no cell yet; memory is full. -/
inductive Faulty (m : Machine) : Instruction → Fault → Prop
  | endOfInput : m.input.words = [] → Faulty m (plain .read) .endOfInput
  | notANumber {word : List Char} {words : List (List Char)} : m.input.words = word :: words →
      Number.readFloat? (String.ofList word) = none →
      Faulty m (plain .read) (.notANumber (String.ofList word))
  | noCell {scope : Scope} {n : Nat} : m.memory.size ≤ m.cell scope n →
      Faulty m (withInt (Machine.loading scope) n) (.noCell (m.cell scope n))
  | allocate : memoryLimit ≤ m.memory.size →
      Faulty m (withInt .allocate 1) (.beyondMemory m.memory.size)
  | store {scope : Scope} {n : Nat} : memoryLimit ≤ m.cell scope n →
      Faulty m (withInt (Machine.storing scope) n) (.beyondMemory (m.cell scope n))

/-! ## One instruction -/

/-- A turn is carried out and what holds is preserved, or there is one of the faults. Only one
instruction stops the machine. -/
def Proceeds (sites : Sites) (m : Machine) (calls : List OpenCall) (i : Instruction) : Prop :=
  (∃ m', m.step = .ok () m' ∧ m'.program = m.program ∧ Holds sites m' (opened m calls) ∧
    (m'.running = false → i = plain .halt)) ∨
    ∃ f m', m.step = .error f m' ∧ Faulty m i f

section Step

variable {sites : Sites} {m : Machine} {calls : List OpenCall} {a : Nat} {i : Instruction}

theorem opened_eq (hi : m.instruction? = some i) : opened m calls = openedBy m calls i := by
  unfold opened
  rw [hi]

/-- Going on to an address where the stacks are as its site says. -/
theorem proceeds_of_stands {m' : Machine} {a' : Nat} {s : Site} (hi : m.instruction? = some i)
    (hstep : Machine.execute i m = .ok () m') (hprogram : m'.program = m.program)
    (hr : m'.running = true) (hip : m'.ip = a') (hs : sites a' = some s)
    (h : Stands sites m' (openedBy m calls i) s) : Proceeds sites m calls i := by
  refine .inl ⟨m', (Machine.step_eq hi).trans hstep, hprogram, ?_, ?_⟩
  · rw [opened_eq hi]
    exact ⟨fun _ => ⟨a', s, hip, hs, h⟩, fun hstop => by simp [hr] at hstop⟩
  · intro hstop
    simp [hr] at hstop

theorem Stands.of_within {inside : Bool} {pending : Option Nat} {depth : Nat}
    (h : Stands sites m calls (.within inside pending depth)) :
    ∃ temps under, m.stack = temps ++ under ∧ temps.length = depth ∧
      Under sites inside pending calls under m.frame m.calls := by
  generalize hs : Site.within inside pending depth = s at h
  cases h with
  | within hstack hunder =>
    cases hs
    exact ⟨_, _, hstack, rfl, hunder⟩
  | entry => cases hs

theorem Stands.of_within_succ {inside : Bool} {pending : Option Nat} {depth : Nat}
    (h : Stands sites m calls (.within inside pending (depth + 1))) :
    ∃ x temps under, m.stack = x :: (temps ++ under) ∧ temps.length = depth ∧
      Under sites inside pending calls under m.frame m.calls := by
  obtain ⟨temps, under, hstack, hlength, hunder⟩ := h.of_within
  cases temps with
  | nil => simp at hlength
  | cons x temps => exact ⟨x, temps, under, hstack, by simpa using hlength, hunder⟩

theorem Stands.of_under {inside : Bool} {pending : Option Nat} {under : List Float}
    (hstack : m.stack = under) (h : Under sites inside pending calls under m.frame m.calls) :
    Stands sites m calls (.within inside pending 0) := by
  have hstack' : m.stack = [] ++ under := hstack
  exact .within hstack' h

/-- An instruction that only changes the temporaries. -/
theorem proceeds_within {m' : Machine} {a' : Nat} {inside : Bool} {pending : Option Nat}
    {depth : Nat} {under : List Float} (temps : List Float) (hi : m.instruction? = some i)
    (hstep : Machine.execute i m = .ok () m') (hopen : openedBy m calls i = calls)
    (hr : m'.running = true) (hip : m'.ip = a')
    (hs : sites a' = some (.within inside pending depth)) (hlength : temps.length = depth)
    (hstack : m'.stack = temps ++ under)
    (hsame : m'.program = m.program ∧ m'.frame = m.frame ∧ m'.calls = m.calls)
    (hunder : Under sites inside pending calls under m.frame m.calls) :
    Proceeds sites m calls i := by
  obtain ⟨hprogram, hframe, hcalls⟩ := hsame
  rw [← hframe, ← hcalls] at hunder
  rw [← hlength] at hs
  refine proceeds_of_stands hi hstep hprogram hr hip hs ?_
  rw [hopen]
  exact .within hstack hunder

theorem proceeds_fault {f : Fault} {m' : Machine} (hi : m.instruction? = some i)
    (hstep : Machine.execute i m = .error f m') (hf : Faulty m i f) : Proceeds sites m calls i :=
  .inr ⟨f, m', (Machine.step_eq hi).trans hstep, hf⟩

theorem ip_succ (hip : m.ip = a) : m.ip + 1 = ((a + 1 : Nat) : Int) := by
  rw [hip]
  rfl

/-- Reserving a cell does not touch the stacks. -/
theorem proceeds_allocate {inside : Bool} {pending : Option Nat} {depth : Nat}
    (hr : m.running = true) (hip : m.ip = a) (hi : m.instruction? = some (withInt .allocate 1))
    (hs : sites (a + 1) = some (.within inside pending depth))
    (h : Stands sites m calls (.within inside pending depth)) :
    Proceeds sites m calls (withInt .allocate 1) := by
  obtain ⟨temps, under, hstack, hlength, hunder⟩ := h.of_within
  have hexecute := Machine.execute_allocate m
  split at hexecute
  · rename_i hfull
    exact proceeds_fault hi hexecute (.allocate hfull)
  · exact proceeds_within temps hi hexecute rfl hr (ip_succ hip) hs hlength hstack ⟨rfl, rfl, rfl⟩
      hunder

/-- Pushing a variable needs its cell. -/
theorem proceeds_load {inside : Bool} {pending : Option Nat} {depth : Nat} {scope : Scope} {n : Nat}
    (hr : m.running = true) (hip : m.ip = a)
    (hi : m.instruction? = some (withInt (Machine.loading scope) n))
    (hs : sites (a + 1) = some (.within inside pending (depth + 1)))
    (h : Stands sites m calls (.within inside pending depth)) :
    Proceeds sites m calls (withInt (Machine.loading scope) n) := by
  obtain ⟨temps, under, hstack, hlength, hunder⟩ := h.of_within
  have hexecute := Machine.execute_load m scope n
  have hopen : openedBy m calls (withInt (Machine.loading scope) n) = calls := by
    cases scope <;> rfl
  cases hcell : m.memory[m.cell scope n]? with
  | none =>
    rw [hcell] at hexecute
    exact proceeds_fault hi hexecute (.noCell (Array.getElem?_eq_none_iff.mp hcell))
  | some x =>
    rw [hcell] at hexecute
    exact proceeds_within (x :: temps) hi hexecute hopen hr (ip_succ hip) hs
      (by simp [hlength]) (by simp [hstack]) ⟨rfl, rfl, rfl⟩ hunder

/-- Reading needs a word that is a number. -/
theorem proceeds_read {inside : Bool} {pending : Option Nat} {depth : Nat}
    (hr : m.running = true) (hip : m.ip = a) (hi : m.instruction? = some (plain .read))
    (hs : sites (a + 1) = some (.within inside pending (depth + 1)))
    (h : Stands sites m calls (.within inside pending depth)) :
    Proceeds sites m calls (plain .read) := by
  obtain ⟨temps, under, hstack, hlength, hunder⟩ := h.of_within
  have hexecute := Machine.execute_read m
  have hwords := Input.next_eq m.input
  cases hw : m.input.words with
  | nil =>
    rw [hw] at hwords
    rw [hwords] at hexecute
    exact proceeds_fault hi hexecute (.endOfInput hw)
  | cons word words =>
    rw [hw] at hwords
    obtain ⟨input, hnext, -⟩ := hwords
    rw [hnext] at hexecute
    cases hx : Number.readFloat? (String.ofList word) with
    | none =>
      simp only [hx] at hexecute
      exact proceeds_fault hi hexecute (.notANumber hw hx)
    | some x =>
      simp only [hx] at hexecute
      exact proceeds_within (x :: temps) hi hexecute rfl hr (ip_succ hip) hs (by simp [hlength])
        (by simp [hstack]) ⟨rfl, rfl, rfl⟩ hunder

/-- Storing may need more memory than there is. -/
theorem proceeds_store {inside : Bool} {pending : Option Nat} {depth : Nat} {scope : Scope}
    {n : Nat} (hr : m.running = true) (hip : m.ip = a)
    (hi : m.instruction? = some (withInt (Machine.storing scope) n))
    (hs : sites (a + 1) = some (.within inside pending depth))
    (h : Stands sites m calls (.within inside pending (depth + 1))) :
    Proceeds sites m calls (withInt (Machine.storing scope) n) := by
  obtain ⟨x, temps, under, hstack, hlength, hunder⟩ := h.of_within_succ
  have hexecute := Machine.execute_store m scope n hstack
  have hopen : openedBy m calls (withInt (Machine.storing scope) n) = calls := by
    cases scope <;> rfl
  split at hexecute
  · rename_i hfull
    exact proceeds_fault hi hexecute (.store hfull)
  · exact proceeds_within temps hi hexecute hopen hr (ip_succ hip) hs hlength rfl ⟨rfl, rfl, rfl⟩
      hunder

/-- Two temporaries are replaced by one. -/
theorem proceeds_binary {inside : Bool} {pending : Option Nat} {depth : Nat} {op : Opcode}
    {f : Float → Float → Float} (hop : op.binary? = some f) (hr : m.running = true)
    (hip : m.ip = a) (hi : m.instruction? = some (plain op))
    (hs : sites (a + 1) = some (.within inside pending (depth + 1)))
    (h : Stands sites m calls (.within inside pending (depth + 2))) :
    Proceeds sites m calls (plain op) := by
  obtain ⟨right, temps, under, hstack, hlength, hunder⟩ := h.of_within_succ
  have hopen : openedBy m calls (plain op) = calls := by
    cases op <;> first | rfl | cases hop
  cases temps with
  | nil => simp at hlength
  | cons left temps =>
    have hexecute := Machine.execute_binary m hop hstack
    exact proceeds_within (f left right :: temps) hi hexecute hopen hr (ip_succ hip) hs
      (by simpa using hlength) rfl ⟨rfl, rfl, rfl⟩ hunder

/-- A call begins: its return address is put on the stack. -/
theorem proceeds_pushReturn {inside : Bool} {back : Nat}
    (hbound : ∀ a s, sites a = some s → a < 2 ^ 53) (hr : m.running = true) (hip : m.ip = a)
    (hi : m.instruction? = some (withInt .pushReturn back))
    (hs : sites (a + 1) = some (.within inside (some back) 0))
    (hback : sites back = some (.between inside)) (h : Stands sites m calls (.between inside)) :
    Proceeds sites m calls (withInt .pushReturn back) := by
  obtain ⟨temps, under, hstack, hlength, hunder⟩ := h.of_within
  rw [List.length_eq_zero_iff] at hlength
  subst hlength
  obtain ⟨x, hx, haddress⟩ := Number.exists_ofInt? (hbound back _ hback)
  have hexecute := Machine.execute_pushReturn m hx
  cases hunder with
  | body hnested =>
    have hunder' : Under sites (!calls.isEmpty) (some back) (⟨m, none⟩ :: calls) (x :: m.stack)
        m.frame m.calls := by
      refine .arguments ⟨hi, haddress⟩ rfl hback rfl rfl ?_
      rw [hstack]
      exact hnested
    exact proceeds_of_stands hi hexecute rfl hr (ip_succ hip) hs (.of_under rfl hunder')

/-- A function is called: its arguments are on the stack, and under them the return address. -/
theorem proceeds_call {inside : Bool} {arguments entry : Nat} (hr : m.running = true)
    (hip : m.ip = a) (hi : m.instruction? = some (withInt .call entry))
    (hs : sites entry = some (.entry arguments))
    (h : Stands sites m calls (.within inside (some (a + 1)) arguments)) :
    Proceeds sites m calls (withInt .call entry) := by
  obtain ⟨temps, under, hstack, rfl, hunder⟩ := h.of_within
  have hexecute := Machine.execute_call m entry
  cases hunder with
  | @arguments c rest x _ _ _ hreturn hsite hback hframe hcalls hnested =>
    have hsite' : (some m.ip : Option Int) = some (((a + 1 : Nat) : Int) - 1) := by
      rw [hip]
      simp
    exact proceeds_of_stands hi hexecute rfl hr rfl hs
      (.entry (c := { c with site := some m.ip }) hstack ⟨hreturn.pushed, hreturn.address⟩ hsite' hback
        hframe hcalls hnested)

/-- A frame is opened; from here on the call belongs to the function. -/
theorem proceeds_enter {arguments : Nat} (hr : m.running = true)
    (hip : m.ip = a) (hi : m.instruction? = some (plain .enter))
    (hs : sites (a + 1) = some (.within true none arguments))
    (h : Stands sites m calls (.entry arguments)) : Proceeds sites m calls (plain .enter) := by
  have hexecute := Machine.execute_enter m
  generalize he : Site.entry arguments = s at h
  cases h with
  | within => cases he
  | @entry c rest x back temps hstack hreturn hsite hback hframe hcalls hnested =>
    cases he
    have hnested' : Nested sites (c :: rest) (x :: c.before.stack) m.memory.size
        (m.frame :: m.calls) :=
      .call hreturn hsite hback rfl (by rw [hframe, hcalls]) hnested
    exact proceeds_of_stands hi hexecute rfl hr (ip_succ hip) hs (.within hstack (.body hnested'))

/-- What leaving a function does: control goes to the instruction behind the call, and the stacks are
as they were when the call began. -/
theorem execute_leave_of_stands (h : Stands sites m calls (.between true)) :
    ∃ c rest x back m', calls = c :: rest ∧ ReturnAddress c x back ∧
      c.site = some ((back : Int) - 1) ∧ sites back = some (.between (!rest.isEmpty)) ∧
      Nested sites rest c.before.stack c.before.frame c.before.calls ∧
      Machine.execute (plain .leave) m = .ok () m' ∧ m'.ip = back ∧ m'.stack = c.before.stack ∧
      m'.frame = c.before.frame ∧ m'.calls = c.before.calls ∧ m'.running = m.running ∧
      m'.program = m.program := by
  obtain ⟨temps, under, hstack, hlength, hunder⟩ := h.of_within
  rw [List.length_eq_zero_iff] at hlength
  subst hlength
  rw [List.nil_append] at hstack
  generalize ht : true = inside at hunder
  cases hunder with
  | body hnested =>
    cases hnested with
    | main => simp at ht
    | @call c rest x back _ _ _ hreturn hsite hback hbase hframes hnested =>
      have hexecute := Machine.execute_leave m (hstack.trans hbase) hframes hreturn.address
      exact ⟨c, rest, x, back, _, rfl, hreturn, hsite, hback, hnested, hexecute, rfl, rfl, rfl, rfl,
        rfl, rfl⟩

theorem proceeds_leave (hr : m.running = true) (hi : m.instruction? = some (plain .leave))
    (h : Stands sites m calls (.between true)) : Proceeds sites m calls (plain .leave) := by
  obtain ⟨c, rest, x, back, m', rfl, -, -, hback, hnested, hexecute, hip, hstack, hframe, hcalls,
    hr', hprogram⟩ := execute_leave_of_stands h
  rw [← hframe, ← hcalls] at hnested
  exact proceeds_of_stands hi hexecute hprogram (hr'.trans hr) hip hback
    (.of_under hstack (.body hnested))

/-- The machine stops with nothing on its stacks. -/
theorem proceeds_halt (hip : m.ip = a) (hi : m.instruction? = some (plain .halt))
    (hs : sites a = some (.between false)) (hs' : sites (a + 1) = none)
    (h : Stands sites m calls (.between false)) : Proceeds sites m calls (plain .halt) := by
  obtain ⟨temps, under, hstack, hlength, hunder⟩ := h.of_within
  rw [List.length_eq_zero_iff] at hlength
  subst hlength
  generalize hf : false = inside at hunder
  cases hunder with
  | body hnested =>
    cases hnested with
    | call => simp at hf
    | main hbase hframe hframes =>
      refine .inl ⟨_, (Machine.step_eq hi).trans (Machine.execute_halt m), rfl, ?_, fun _ => rfl⟩
      rw [opened_eq hi]
      refine ⟨fun hrun => by simp at hrun, fun _ => ?_⟩
      refine ⟨by rw [hstack, hbase]; rfl, hframes, hframe, rfl, a, ?_, hs', _, hs⟩
      change m.ip + 1 = _
      rw [hip]

/-- What holds between two instructions is preserved by the instruction at the address. -/
theorem Stands.step {s : Site} (hbound : ∀ a s, sites a = some s → a < 2 ^ 53)
    (hr : m.running = true) (hip : m.ip = a) (hi : m.instruction? = some i)
    (hfit : Fits sites a i) (hs : sites a = some s) (h : Stands sites m calls s) :
    Proceeds sites m calls i := by
  -- the site that the instruction is about is the one at which the machine stands
  have hat : ∀ s', sites a = some s' → Stands sites m calls s' := by
    intro s' hs'
    obtain rfl : s = s' := Option.some.inj (hs.symm.trans hs')
    exact h
  cases hfit with
  | start ha ha' =>
    obtain ⟨temps, under, hstack, hlength, hunder⟩ := (hat _ ha).of_within
    exact proceeds_within temps hi (Machine.execute_start m) rfl hr (ip_succ hip) ha' hlength hstack
      ⟨rfl, rfl, rfl⟩ hunder
  | halt ha ha' =>
    exact proceeds_halt hip hi ha ha' (hat _ ha)
  | allocate ha ha' =>
    exact proceeds_allocate hr hip hi ha' (hat _ ha)
  | constant x ha ha' =>
    obtain ⟨temps, under, hstack, hlength, hunder⟩ := (hat _ ha).of_within
    exact proceeds_within (x :: temps) hi (Machine.execute_constant m x) rfl hr (ip_succ hip) ha'
      (by simp [hlength]) (by simp [hstack]) ⟨rfl, rfl, rfl⟩ hunder
  | load scope n ha ha' =>
    exact proceeds_load hr hip hi ha' (hat _ ha)
  | read ha ha' =>
    exact proceeds_read hr hip hi ha' (hat _ ha)
  | binary hop ha ha' =>
    exact proceeds_binary hop hr hip hi ha' (hat _ ha)
  | store scope n ha ha' =>
    exact proceeds_store hr hip hi ha' (hat _ ha)
  | print ha ha' =>
    obtain ⟨x, temps, under, hstack, hlength, hunder⟩ := (hat _ ha).of_within_succ
    exact proceeds_within temps hi (Machine.execute_print m hstack) rfl hr (ip_succ hip) ha' hlength
      rfl ⟨rfl, rfl, rfl⟩ hunder
  | jump ha ha' =>
    obtain ⟨temps, under, hstack, hlength, hunder⟩ := (hat _ ha).of_within
    exact proceeds_within temps hi (Machine.execute_jump m _) rfl hr rfl ha' hlength hstack
      ⟨rfl, rfl, rfl⟩ hunder
  | @jumpIfZero inside pending depth target ha htarget ha' =>
    obtain ⟨x, temps, under, hstack, hlength, hunder⟩ := (hat _ ha).of_within_succ
    have hexecute := Machine.execute_jumpIfZero m target hstack
    by_cases hx : (x == 0) = true
    · exact proceeds_within temps hi hexecute rfl hr (by simp [hx]) htarget hlength rfl
        ⟨rfl, rfl, rfl⟩ hunder
    · exact proceeds_within temps hi hexecute rfl hr (by simp [hx, hip]) ha' hlength rfl
        ⟨rfl, rfl, rfl⟩ hunder
  | pushReturn ha ha' hback =>
    exact proceeds_pushReturn hbound hr hip hi ha' hback (hat _ ha)
  | call ha hentry =>
    exact proceeds_call hr hip hi hentry (hat _ ha)
  | enter ha ha' =>
    exact proceeds_enter hr hip hi ha' (hat _ ha)
  | leave ha =>
    exact proceeds_leave hr hi (hat _ ha)

end Step

end StackPrimer.Discipline

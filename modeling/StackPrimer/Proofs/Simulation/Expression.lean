import StackPrimer.Proofs.Simulation.Agreement

/-!
# Expressions on the machine

The code of an expression pushes the value that the expression has, and takes the same words off the
input. Memory and what is on the stack before stay as they are. All that this asks of a machine is that
it shows the variables that can be seen, whatever else it holds.

Results:
* `Expr.pushes`, `Condition.pushes`, `argumentValues_pushes`: the code pushes the values.
-/

namespace StackPrimer.Simulation

open Grammar

/-- The machine is about to carry out these instructions, which stand at the address. -/
structure At (m : Machine) (a : Nat) (is : List Instruction) : Prop where
  running : m.running = true
  ip : m.ip = a
  code : CodeAt m.program a is

theorem At.turn {m m' : Machine} {a : Nat} {i : Instruction} {is : List Instruction}
    (h : At m a (i :: is)) (hexecute : Machine.execute i m = .ok () m') : m.Turns m' := by
  have hi : m.instruction? = some i := by
    rw [Machine.instruction?_eq h.ip]
    exact h.code.head
  exact Machine.turns_of_execute h.running hi hexecute

theorem At.left {m : Machine} {a : Nat} {is js : List Instruction} (h : At m a (is ++ js)) :
    At m a is :=
  ⟨h.running, h.ip, h.code.left⟩

/-- Every variable that has a value and can be seen under these names has it in its cell, and the words
to be read are the same. -/
structure Shows (n : Names) (σ : Store) (m : Machine) : Prop where
  cell : ∀ {x : String} {scope : Scope} {v : Float}, n.scope? x = some scope →
    σ.inScope scope x = some v → m.memory[m.cell scope (n.address scope x)]? = some v
  words : m.input.words = σ.words

/-- A machine that agrees with a store shows it. -/
theorem Agrees.shows {G : List String} {n fin : Names} {σ : Store} {m : Machine}
    (h : Agrees G fin σ m) (hn : n.Le fin) (hG : fin.globals <+: G) : Shows n σ m :=
  ⟨h.cell hn hG, h.words⟩

/-- The stack and the address have no part in it, and reading only concerns the words. -/
theorem Shows.read {n : Names} {σ : Store} {m : Machine} (h : Shows n σ m) {stack : List Float}
    {ip : Int} {input : Input} {words : List (List Char)} (hwords : input.words = words) :
    Shows n { σ with words } { m with stack, ip, input } :=
  ⟨h.cell, hwords⟩

/-- From the first store to the second, words are read and nothing else is done; the machine does the
same, and pushes these values on its way to the target. -/
def Pushes (σ σ' : Store) (m : Machine) (values : List Float) (target : Nat) : Prop :=
  ∃ input, m.Reaches { m with stack := values ++ m.stack, ip := target, input } ∧
    input.words = σ'.words ∧ σ' = { σ with words := σ'.words }

section Expressions

variable {n : Names} {σ σ' σ'' : Store} {m : Machine} {a : Nat}

/-- One instruction that pushes a value. -/
theorem pushes_one {i : Instruction} {v : Float} (h : At m a [i]) (hm : Shows n σ m)
    (hexecute : Machine.execute i m = .ok () { m with stack := v :: m.stack, ip := m.ip + 1 }) :
    Pushes σ σ m [v] (a + 1) := by
  refine ⟨m.input, ?_, hm.words, rfl⟩
  have hturn := h.turn hexecute
  rw [h.ip] at hturn
  exact .single hturn

/-- Two values are pushed and then replaced by one. -/
theorem Pushes.binary {ls rs : List Instruction} {op : Opcode} {f : Float → Float → Float}
    {x y : Float} (h : At m a (ls ++ rs ++ [plain op])) (hop : op.binary? = some f)
    (hm : Shows n σ m) (hleft : Pushes σ σ' m [x] (a + ls.length))
    (hright : ∀ m', At m' (a + ls.length) rs → Shows n σ' m' →
      Pushes σ' σ'' m' [y] (a + ls.length + rs.length)) :
    Pushes σ σ'' m [f x y] (a + (ls ++ rs ++ [plain op]).length) := by
  obtain ⟨input, hreaches, hwords, hσ⟩ := hleft
  have hm' : Shows n σ' { m with stack := x :: m.stack, ip := (a + ls.length : Nat), input } := by
    rw [hσ]
    exact hm.read hwords
  have hat' : At { m with stack := x :: m.stack, ip := (a + ls.length : Nat), input } (a + ls.length)
      rs := ⟨h.running, rfl, h.code.left.right⟩
  obtain ⟨input', hreaches', hwords', hσ'⟩ := hright _ hat' hm'
  have hlength : a + (ls ++ rs).length = a + ls.length + rs.length := by
    simp
    omega
  have hat'' : At { m with
      stack := y :: x :: m.stack, ip := (a + ls.length + rs.length : Nat), input := input' }
      (a + ls.length + rs.length) [plain op] := by
    refine ⟨h.running, rfl, ?_⟩
    rw [← hlength]
    exact h.code.right
  have hturn := hat''.turn (Machine.execute_binary _ hop rfl)
  have htarget : a + (ls ++ rs ++ [plain op]).length = a + ls.length + rs.length + 1 := by
    simp
    omega
  refine ⟨input', ?_, hwords', ?_⟩
  · rw [htarget]
    exact (hreaches.trans hreaches').tail hturn
  · rw [hσ', hσ]

theorem AddSign.binary?_opcode (s : AddSign) : s.opcode.binary? = some s.apply := by
  cases s <;> rfl

theorem MulSign.binary?_opcode (s : MulSign) : s.opcode.binary? = some s.apply := by
  cases s <;> rfl

theorem Comparison.binary?_opcode (s : Comparison) :
    s.opcode.binary? = some fun a b => if s.holds a b then 1 else 0 := by
  cases s <;> rfl

/-- Reading takes the same word and makes the same number of it. -/
theorem readNumber_pushes {v : Float} (h : At m a [plain .read]) (hm : Shows n σ m)
    (hread : Meaning.readNumber σ = .ok v σ') : Pushes σ σ' m [v] (a + 1) := by
  unfold Meaning.readNumber at hread
  have hnext := Input.next_eq m.input
  rw [hm.words] at hnext
  cases hwords : σ.words with
  | nil =>
    rw [hwords] at hread
    cases hread
  | cons word words =>
    rw [hwords] at hread hnext
    obtain ⟨input, hinput, hrest⟩ := hnext
    cases hx : Number.readFloat? (String.ofList word) with
    | none =>
      simp only [hx] at hread
      cases hread
    | some x =>
      simp only [hx] at hread
      injection hread with hv hσ
      have hexecute := Machine.execute_read m
      rw [hinput] at hexecute
      simp only [hx] at hexecute
      have hturn := h.turn hexecute
      rw [h.ip, hv] at hturn
      rw [← hσ]
      exact ⟨input, .single hturn, hrest, rfl⟩

/-- A variable is found in its cell. -/
theorem valueOf_pushes {x : String} {v : Float} (h : At m a (n.load x)) (hm : Shows n σ m)
    (hvalue : Meaning.valueOf n x σ = .ok v σ') :
    Pushes σ σ' m [v] (a + (n.load x).length) := by
  unfold Meaning.valueOf at hvalue
  cases hfound : (n.scope? x).bind fun scope => σ.inScope scope x with
  | none =>
    simp only [hfound] at hvalue
    cases hvalue
  | some w =>
    simp only [hfound] at hvalue
    injection hvalue with hv hσ
    subst hv hσ
    obtain ⟨scope, hscope, hw⟩ := Option.bind_eq_some_iff.mp hfound
    rw [Machine.load_eq hscope] at h ⊢
    have hexecute := Machine.execute_load m scope (n.address scope x)
    rw [hm.cell hscope hw] at hexecute
    exact pushes_one h hm hexecute

/-- The code of an expression pushes its value. -/
theorem Expr.pushes {l : Level} (e : Expr l) :
    ∀ {σ σ' : Store} {m : Machine} {a : Nat} {v : Float}, At m a (e.code n) → Shows n σ m →
      e.eval n σ = .ok v σ' → Pushes σ σ' m [v] (a + (e.code n).length) := by
  induction e with
  | input => exact readNumber_pushes
  | ofSum e ih => exact ih
  | ofTerm e ih => exact ih
  | add left s right ihl ihr =>
    intro σ σ' m a v h hm heval
    simp only [Expr.eval, bind_eq_ok, pure_eq_ok] at heval
    obtain ⟨x, σ₁, hx, y, σ₂, hy, rfl, rfl⟩ := heval
    exact .binary h (AddSign.binary?_opcode s) hm (ihl h.left.left hm hx)
      fun m' hat hm' => ihr hat hm' hy
  | ofFactor e ih => exact ih
  | multiply left s right ihl ihr =>
    intro σ σ' m a v h hm heval
    simp only [Expr.eval, bind_eq_ok, pure_eq_ok] at heval
    obtain ⟨x, σ₁, hx, y, σ₂, hy, rfl, rfl⟩ := heval
    exact .binary h (MulSign.binary?_opcode s) hm (ihl h.left.left hm hx)
      fun m' hat hm' => ihr hat hm' hy
  | name x =>
    intro σ σ' m a v h hm heval
    exact valueOf_pushes h hm heval
  | number x =>
    intro σ σ' m a v h hm heval
    obtain ⟨rfl, rfl⟩ := pure_eq_ok.mp heval
    exact pushes_one h hm (Machine.execute_constant m x.value)
  | group e ih => exact ih

/-- The code of a condition pushes one if it holds and zero if not. -/
theorem Condition.pushes {c : Condition} {holds : Bool} (h : At m a (c.code n))
    (hm : Shows n σ m) (heval : c.eval n σ = .ok holds σ') :
    Pushes σ σ' m [if holds then 1 else 0] (a + (c.code n).length) := by
  simp only [Condition.eval, bind_eq_ok, pure_eq_ok] at heval
  obtain ⟨x, σ₁, hx, y, σ₂, hy, rfl, rfl⟩ := heval
  have hop := Comparison.binary?_opcode c.comparison
  have hpushes := Pushes.binary h hop hm (Expr.pushes c.left h.left.left hm hx)
    fun m' hat hm' => Expr.pushes c.right hat hm' hy
  exact hpushes

/-- The code of arguments pushes their values, the last one on top. -/
theorem argumentValues_pushes {arguments : List Expression} :
    ∀ {σ σ' : Store} {m : Machine} {a : Nat} {values : List Float},
      At m a (argumentsCode n arguments) → Shows n σ m →
        argumentValues n arguments σ = .ok values σ' →
          values.length = arguments.length ∧
            Pushes σ σ' m values.reverse (a + (argumentsCode n arguments).length) := by
  induction arguments with
  | nil =>
    intro σ σ' m a values h hm hvalues
    obtain ⟨rfl, rfl⟩ := pure_eq_ok.mp hvalues
    refine ⟨rfl, m.input, ?_, hm.words, rfl⟩
    have hsame : { m with stack := [].reverse ++ m.stack, ip := (a : Int), input := m.input } = m := by
      rw [← h.ip]
      rfl
    change m.Reaches { m with stack := [].reverse ++ m.stack, ip := (a : Int), input := m.input }
    rw [hsame]
  | cons e rest ih =>
    intro σ σ' m a values h hm hvalues
    simp only [argumentValues, bind_eq_ok, pure_eq_ok] at hvalues
    obtain ⟨v, σ₁, hv, vs, σ₂, hvs, rfl, rfl⟩ := hvalues
    have hcode : argumentsCode n (e :: rest) = e.code n ++ argumentsCode n rest := rfl
    rw [hcode] at h ⊢
    obtain ⟨input, hreaches, hwords, hσ⟩ := Expr.pushes e h.left hm hv
    have hm' : Shows n σ₁ { m with
        stack := v :: m.stack, ip := (a + (e.code n).length : Nat), input } := by
      rw [hσ]
      exact hm.read hwords
    have hat : At { m with stack := v :: m.stack, ip := (a + (e.code n).length : Nat), input }
        (a + (e.code n).length) (argumentsCode n rest) := ⟨h.running, rfl, h.code.right⟩
    obtain ⟨hlength, input', hreaches', hwords', hσ'⟩ := ih hat hm' hvs
    refine ⟨by simp [hlength], input', ?_, hwords', by rw [hσ', hσ]⟩
    have hall := hreaches.trans hreaches'
    simpa [Nat.add_assoc] using hall

end Expressions

end StackPrimer.Simulation

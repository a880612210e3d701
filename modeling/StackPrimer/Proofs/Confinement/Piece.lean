import StackPrimer.Proofs.Grammar.Surroundings
import StackPrimer.Proofs.Simulation.Agreement

/-!
# Pieces of code

Three things are said of a piece of code, each of which holds of pieces put together if it holds of
each of them. Something may hold of every instruction, given its address and the names around it.
The instructions of calls may belong together: a call pushes the address to which it returns, then
evaluates its arguments, and then goes to the function. And a piece may be tidy: it has no functions
inside, its jumps stay within it, and it refers to what there is.

Results:
* `Along.append`, `Paired.append`, `Tidy.append`: pieces put together.
* `Paired.exists_calls`: an instruction of a call belongs to one that is there as a whole.
-/

namespace StackPrimer.Confinement

open Grammar
open Simulation (CodeAt)

/-! ## Pieces and their surroundings -/

/-- This holds of every instruction of the piece of code at `start`, given its address and the names
around it. -/
inductive Along (P : Nat → Names → Instruction → Prop) : Nat → List Names → List Instruction → Prop
  | nil {start : Nat} : Along P start [] []
  | cons {start : Nat} {n : Names} {ns : List Names} {i : Instruction} {is : List Instruction} :
      P start n i → Along P (start + 1) ns is → Along P start (n :: ns) (i :: is)

namespace Along

variable {P Q : Nat → Names → Instruction → Prop} {start : Nat} {n : Names} {ns ms : List Names}
  {i : Instruction} {is js : List Instruction}

theorem append (h : Along P start ns is) (h' : Along P (start + is.length) ms js) :
    Along P start (ns ++ ms) (is ++ js) := by
  induction h with
  | nil => exact h'
  | @cons start n ns i is hi _ ih =>
    refine .cons hi (ih ?_)
    rwa [show start + 1 + is.length = start + (i :: is).length by simp; omega]

/-- The names are the same around all of the piece. -/
theorem replicate {k : Nat} (hk : k = is.length) (h : ∀ a, ∀ i ∈ is, P a n i) :
    Along P start (List.replicate k n) is := by
  subst hk
  induction is generalizing start with
  | nil => exact .nil
  | cons i is ih =>
    refine .cons (h start i (by simp)) (ih ?_)
    intro a j hj
    exact h a j (List.mem_cons_of_mem i hj)

/-- What is asked of the instructions of the piece may be weakened, knowing where they stand and
which names there are. -/
theorem imp (h : Along P start ns is)
    (hQ : ∀ a n i, start ≤ a → a < start + is.length → n ∈ ns → P a n i → Q a n i) :
    Along Q start ns is := by
  induction h with
  | nil => exact .nil
  | @cons start n ns i is hi _ ih =>
    refine .cons (hQ start n i (Nat.le_refl _) (by simp) (by simp) hi) (ih ?_)
    intro a m j hlow hhigh hm hj
    refine hQ a m j (by omega) ?_ (List.mem_cons_of_mem n hm) hj
    rw [List.length_cons]
    omega

theorem length (h : Along P start ns is) : ns.length = is.length := by
  induction h with
  | nil => rfl
  | cons _ _ ih => rw [List.length_cons, List.length_cons, ih]

/-- The names around an instruction of the piece. -/
theorem exists_names (h : Along P start ns is) {j : Nat} (hj : is[j]? = some i) :
    ∃ n, ns[j]? = some n ∧ P (start + j) n i := by
  induction h generalizing j with
  | nil => simp at hj
  | @cons start n ns i' is hi _ ih =>
    cases j with
    | zero =>
      obtain rfl : i' = i := by simpa using hj
      exact ⟨n, rfl, hi⟩
    | succ j =>
      obtain ⟨m, hm, hP⟩ := ih (by simpa using hj)
      rw [show start + 1 + j = start + (j + 1) by omega] at hP
      exact ⟨m, hm, hP⟩

end Along

/-! ## Operations -/

/-- The instruction has an operation and an operand of which this holds. -/
def Satisfies (D : Opcode → Option Operand → Prop) (i : Instruction) : Prop :=
  ∃ op operand, i = .of op operand ∧ D op operand

theorem Instruction.of_inj {op op' : Opcode} {x x' : Option Operand}
    (h : Instruction.of op x = .of op' x') : op = op' ∧ x = x' := by
  injection h with hop hx
  injection hop with hop
  exact ⟨hop, hx⟩

namespace Satisfies

variable {D D' : Opcode → Option Operand → Prop} {op : Opcode} {operand : Option Operand}

theorem of_iff : Satisfies D (.of op operand) ↔ D op operand := by
  constructor
  · rintro ⟨op', operand', heq, h⟩
    obtain ⟨rfl, rfl⟩ := Instruction.of_inj heq
    exact h
  · intro h
    exact ⟨op, operand, rfl, h⟩

theorem imp {i : Instruction} (h : Satisfies D i)
    (hD : ∀ op operand, D op operand → D' op operand) : Satisfies D' i := by
  obtain ⟨op, operand, rfl, hop⟩ := h
  exact of_iff.mpr (hD op operand hop)

end Satisfies

/-- The operations of expressions. -/
def evaluates : Opcode → Bool
  | .constant | .loadGlobal | .loadLocal | .read => true
  | .add | .subtract | .multiply | .divide => true
  | .equal | .notEqual | .atLeast | .atMost | .greater | .less => true
  | _ => false

/-- Whether the operation is one of those of calls. -/
def concernsCall : Opcode → Bool
  | .pushReturn | .call => true
  | _ => false

theorem concernsCall_of_evaluates {op : Opcode} (h : evaluates op = true) :
    concernsCall op = false := by
  cases op <;> first | rfl | cases h

/-! ## Calls -/

/-- The instructions at these two addresses belong to one call: the first pushes the address behind
the second, and between them there are expressions only. -/
structure Calls (p : Program) (a c : Nat) : Prop where
  lt : a < c
  push : p[a]? = some (withInt .pushReturn (c + 1))
  call : ∃ entry, p[c]? = some (withInt .call entry)
  between : ∀ b, a < b → b < c → ∃ op operand, p[b]? = some (.of op operand) ∧ evaluates op = true

/-- The code at `start` is made of calls that push the address behind themselves, and of other
instructions. -/
inductive Paired : Nat → List Instruction → Prop
  | nil {start : Nat} : Paired start []
  | other {start : Nat} {op : Opcode} {operand : Option Operand} {is : List Instruction} :
      concernsCall op = false → Paired (start + 1) is → Paired start (.of op operand :: is)
  | call {start entry : Nat} {values is : List Instruction} :
      (∀ i ∈ values, Satisfies (fun op _ => evaluates op = true) i) →
      Paired (start + values.length + 2) is →
      Paired start (withInt .pushReturn (start + values.length + 2) ::
        (values ++ withInt .call entry :: is))

/-- The instruction has nothing to do with calls. -/
abbrev Unconcerned : Instruction → Prop := Satisfies fun op _ => concernsCall op = false

namespace Paired

variable {start : Nat} {is js : List Instruction}

theorem append (h : Paired start is) (h' : Paired (start + is.length) js) :
    Paired start (is ++ js) := by
  induction h with
  | nil => exact h'
  | @other start op operand is hop _ ih =>
    refine .other hop (ih ?_)
    rw [List.length_cons] at h'
    rwa [Nat.add_assoc, Nat.add_comm 1]
  | @call start entry values is hvalues _ ih =>
    have hlength : start + (withInt .pushReturn (start + values.length + 2) ::
        (values ++ withInt .call entry :: is)).length = start + values.length + 2 + is.length := by
      simp
      omega
    rw [hlength] at h'
    have hall : Paired start (withInt .pushReturn (start + values.length + 2) ::
        (values ++ withInt .call entry :: (is ++ js))) := .call hvalues (ih h')
    simpa using hall

theorem of_unconcerned (h : ∀ i ∈ is, Unconcerned i) : Paired start is := by
  induction is generalizing start with
  | nil => exact .nil
  | cons i is ih =>
    rw [List.forall_mem_cons] at h
    obtain ⟨⟨op, operand, rfl, hop⟩, hrest⟩ := h
    exact .other hop (ih hrest)

/-- An instruction of a call belongs to one that is there as a whole. -/
theorem exists_calls {p : Program} (h : Paired start is) (hp : CodeAt p start is) {a : Nat}
    {op : Opcode} {operand : Option Operand} (hlow : start ≤ a) (hhigh : a < start + is.length)
    (ha : p[a]? = some (.of op operand)) (hop : concernsCall op = true) :
    ∃ b c, Calls p b c ∧ (a = b ∨ a = c) := by
  induction h with
  | nil =>
    rw [List.length_nil] at hhigh
    omega
  | @other start op' operand' is hop' _ ih =>
    by_cases heq : a = start
    · subst heq
      have hhead := hp.head
      rw [ha, Option.some.injEq] at hhead
      obtain ⟨rfl, -⟩ := Instruction.of_inj hhead
      rw [hop] at hop'
      cases hop'
    · rw [List.length_cons] at hhigh
      exact ih hp.tail (by omega) (by omega)
  | @call start entry values is hvalues _ ih =>
    have hback := hp.tail.right
    have hcalls : Calls p start (start + 1 + values.length) := by
      refine ⟨by omega, ?_, ⟨entry, hback.head⟩, ?_⟩
      · rw [hp.head]
        congr 2
        omega
      · intro b hb hb'
        have hj : b - (start + 1) < values.length := by omega
        obtain ⟨op', operand', heq, hvalue⟩ :=
          hvalues values[b - (start + 1)] (List.getElem_mem hj)
        refine ⟨op', operand', ?_, hvalue⟩
        have hat := hp.tail.left (b - (start + 1)) _ (List.getElem?_eq_getElem hj)
        rwa [heq, show start + 1 + (b - (start + 1)) = b by omega] at hat
    rcases Nat.lt_trichotomy a (start + 1 + values.length) with hlt | heq | hgt
    · by_cases hstart : a = start
      · exact ⟨start, _, hcalls, .inl hstart⟩
      · -- between the two there are expressions
        obtain ⟨op', operand', hb, hvalue⟩ := hcalls.between a (by omega) hlt
        rw [ha, Option.some.injEq] at hb
        obtain ⟨rfl, -⟩ := Instruction.of_inj hb
        rw [concernsCall_of_evaluates hvalue] at hop
        cases hop
    · exact ⟨start, _, hcalls, .inr heq⟩
    · rw [List.length_cons, List.length_append, List.length_cons] at hhigh
      refine ih ?_ (by omega) (by omega)
      rw [show start + values.length + 2 = start + 1 + values.length + 1 by omega]
      exact hback.tail

end Paired

/-! ## Tidy pieces -/

/-- What an operation demands of its operand in a piece of code from `low` to `high` without
functions inside, where functions may be entered at the addresses that are `callable`. -/
def Demand (callable : Nat → Prop) (low high : Nat) (n : Names) : Opcode → Option Operand → Prop
  | .start, _ | .halt, _ | .enter, _ | .leave, _ => False
  | .jump, operand | .jumpIfZero, operand =>
    ∃ target : Nat, operand = some (.int target) ∧ low ≤ target ∧ target ≤ high
  | .call, operand => ∃ entry : Nat, operand = some (.int entry) ∧ callable entry
  | .loadGlobal, operand => ∃ x ∈ n.globals, operand = some (.int (n.globals.idxOf x : Nat))
  | .loadLocal, operand =>
    n.home = .function ∧ ∃ x ∈ n.inner, operand = some (.int (n.inner.idxOf x : Nat))
  | .storeGlobal, operand =>
    n.home = .global ∧ ∃ x ∈ n.globals, operand = some (.int (n.globals.idxOf x : Nat))
  | .storeLocal, operand =>
    n.home = .function ∧ ∃ x ∈ n.inner, operand = some (.int (n.inner.idxOf x : Nat))
  | _, _ => True

/-- The piece of code at `start` has no functions inside, jumps from `low` to `high`, refers to what
there is, and its calls return behind themselves. -/
structure Tidy (callable : Nat → Prop) (low high start : Nat) (ns : List Names)
    (is : List Instruction) : Prop where
  along : Along (fun _ n => Satisfies (Demand callable low high n)) start ns is
  paired : Paired start is

/-- The instruction demands what there is, and has nothing to do with calls. -/
abbrev Lone (callable : Nat → Prop) (low high : Nat) (n : Names) : Instruction → Prop :=
  Satisfies fun op operand => concernsCall op = false ∧ Demand callable low high n op operand

namespace Tidy

variable {callable : Nat → Prop} {low high start : Nat} {n : Names} {ns ms : List Names}
  {i : Instruction} {is js : List Instruction}

theorem nil : Tidy callable low high start [] [] := ⟨.nil, .nil⟩

theorem append (h : Tidy callable low high start ns is)
    (h' : Tidy callable low high (start + is.length) ms js) :
    Tidy callable low high start (ns ++ ms) (is ++ js) :=
  ⟨h.along.append h'.along, h.paired.append h'.paired⟩

/-- The names are the same around all of the piece, in which nothing calls. -/
theorem replicate {k : Nat} (hk : k = is.length) (h : ∀ i ∈ is, Lone callable low high n i) :
    Tidy callable low high start (List.replicate k n) is where
  along := .replicate hk fun _ i hi => (h i hi).imp fun _ _ => And.right
  paired := .of_unconcerned fun i hi => (h i hi).imp fun _ _ => And.left

theorem single (h : Lone callable low high n i) : Tidy callable low high start [n] [i] :=
  replicate (k := 1) rfl (by simpa using h)

end Tidy

end StackPrimer.Confinement

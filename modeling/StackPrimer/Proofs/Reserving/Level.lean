import Mathlib.Data.Nat.Count
import StackPrimer.Proofs.Confinement.Program
import StackPrimer.Proofs.Stretch

/-!
# Cells reserved in front of an address

A variable of the program has its address from the order of the text, but its cell is reserved when
the run comes to an instruction that says so. The level of an address is how many such instructions
outside of functions stand in front of it. Where no variable is declared twice, and where no loop has
a block that binds a name, the level is also the number of variables bound in front of the address,
and no jump goes back to a lower level.

Results:
* `Statement.cells_code`, `Block.cells_code`: the code of a statement reserves a cell for each
  variable of the program that the statement binds.
* `Source.spares`: instructions outside of functions store below the level behind them, and do not
  jump to where the level is lower.
* `Source.level_le`: no level is higher than the number of variables at the end of the program.
-/

namespace StackPrimer

namespace Grammar

/-! ## Trees that reserve no cell twice -/

mutual

/-- With these names bound in front, no loop of the statement has a block that binds one more. -/
def Statement.Thrifty (n : Names) : Statement → Prop
  | .print _ => True
  | .assign .. => True
  | .call .. => True
  | .choice _ yes => yes.Thrifty n
  | .alternative _ yes no => yes.Thrifty n ∧ no.Thrifty (yes.names n)
  | .loop _ body => body.names n = n ∧ body.Thrifty n

/-- The same for statements one after the other. -/
def Block.Thrifty (n : Names) : Block → Prop
  | .nil => True
  | .cons s rest => s.Thrifty n ∧ rest.Thrifty (s.names n)

end

/-- No variable is declared that is declared already. -/
def DeclarationsThrifty (n : Names) : List Declaration → Prop
  | [] => True
  | .assign x _ :: ds => n.binds x = false ∧ DeclarationsThrifty (n.bind x) ds
  | .define .. :: ds => DeclarationsThrifty n ds

/-- No variable is declared twice, and outside of functions no loop has a block that binds a name. -/
def Source.Thrifty (source : Source) : Prop :=
  DeclarationsThrifty {} source.declarations ∧ source.statements.Thrifty source.names

theorem Names.length_globals_bind {n : Names} {x : String} (h : n.home = .global)
    (hx : n.binds x = false) : (n.bind x).globals.length = n.globals.length + 1 := by
  rcases n with ⟨globals, _ | locals⟩
  · have hnew : x ∉ globals := of_decide_eq_false hx
    simp [bind, extend, hnew]
  · cases h

/-- The address is that of no function. -/
def Source.Outside (source : Source) (a : Nat) : Prop := ∀ r ∈ source.regions, ¬ r.Contains a

instance (source : Source) (a : Nat) : Decidable (source.Outside a) :=
  inferInstanceAs (Decidable (∀ r ∈ source.regions, ¬ r.Contains a))

/-- The instruction at the address reserves a cell, and is that of no function. -/
def Source.Reserves (source : Source) (a : Nat) : Prop :=
  source.code[a]?.map Instruction.mnemonic = some (.listed .allocate) ∧ source.Outside a

instance (source : Source) (a : Nat) : Decidable (source.Reserves a) :=
  inferInstanceAs (Decidable (_ ∧ _))

/-- How many instructions in front of the address reserve a cell outside of functions. -/
def Source.level (source : Source) (a : Nat) : Nat := Nat.count source.Reserves a

end Grammar

namespace Reserving

open Grammar Confinement

/-! ## Pieces of code -/

/-- This holds of every instruction of the piece of code at `start`, given its address. -/
def Everywhere (P : Nat → Instruction → Prop) (start : Nat) (is : List Instruction) : Prop :=
  ∀ (j : Nat) (i : Instruction), is[j]? = some i → P (start + j) i

namespace Everywhere

variable {P Q : Nat → Instruction → Prop} {start : Nat} {i : Instruction} {is js : List Instruction}

theorem nil : Everywhere P start [] := by
  intro j i hi
  simp at hi

theorem cons (h : P start i) (h' : Everywhere P (start + 1) is) : Everywhere P start (i :: is) :=
  forall_at_cons.mpr ⟨h, h'⟩

theorem append (h : Everywhere P start is) (h' : Everywhere P (start + is.length) js) :
    Everywhere P start (is ++ js) :=
  forall_at_append.mpr ⟨h, h'⟩

theorem head (h : Everywhere P start (i :: is)) : P start i := (forall_at_cons.mp h).1

theorem left (h : Everywhere P start (is ++ js)) : Everywhere P start is :=
  (forall_at_append.mp h).1

theorem right (h : Everywhere P start (is ++ js)) : Everywhere P (start + is.length) js :=
  (forall_at_append.mp h).2

theorem tail (h : Everywhere P start (i :: is)) : Everywhere P (start + 1) is :=
  (forall_at_cons.mp h).2

theorem imp (h : Everywhere P start is)
    (hQ : ∀ a i, start ≤ a → a < start + is.length → P a i → Q a i) : Everywhere Q start is := by
  intro j i hi
  have hj : j < is.length := (List.getElem?_eq_some_iff.mp hi).1
  exact hQ _ i (by omega) (by omega) (h j i hi)

theorem of_mem (h : ∀ i ∈ is, ∀ a, P a i) : Everywhere P start is := by
  intro j i hi
  exact h i (List.mem_of_getElem? hi) (start + j)

end Everywhere

/-! ## Cells -/

/-- How many cells the instruction reserves. -/
def cells (i : Instruction) : Nat := if i.mnemonic = .listed .allocate then 1 else 0

/-- How many cells a piece of code reserves. -/
def cellsOf (is : List Instruction) : Nat := (is.map cells).sum

@[simp] theorem cellsOf_nil : cellsOf [] = 0 := rfl

@[simp] theorem cellsOf_cons (i : Instruction) (is : List Instruction) :
    cellsOf (i :: is) = cells i + cellsOf is := by simp [cellsOf]

@[simp] theorem cellsOf_append (is js : List Instruction) :
    cellsOf (is ++ js) = cellsOf is + cellsOf js := by simp [cellsOf]

@[simp] theorem cells_plain (op : Opcode) :
    cells (plain op) = if op = .allocate then 1 else 0 := by simp [cells, plain, Instruction.of]

@[simp] theorem cells_withInt (op : Opcode) (a : Nat) :
    cells (withInt op a) = if op = .allocate then 1 else 0 := by
  simp [cells, withInt, Instruction.of]

section Cells

variable {functions : List String} {entries : Entries} {n : Names}

/-- The instruction is one of an expression. -/
abbrev Evaluating (n : Names) : Instruction → Prop := Value (fun _ => False) 0 0 n

/-- Expressions reserve nothing. -/
theorem cellsOf_of_evaluating {is : List Instruction} (h : ∀ i ∈ is, Evaluating n i) :
    cellsOf is = 0 := by
  induction is with
  | nil => rfl
  | cons i is ih =>
    rw [List.forall_mem_cons] at h
    obtain ⟨⟨op, operand, rfl, hop, -⟩, hrest⟩ := h
    have hcells : cells (.of op operand) = 0 := by
      cases op <;> first | rfl | cases hop
    rw [cellsOf_cons, hcells, ih hrest]

theorem Expr.cells_code {l : Level} (e : Expr l) (h : e.Scoped n) : cellsOf (e.code n) = 0 :=
  cellsOf_of_evaluating (Expr.value e h)

theorem Condition.cells_code (c : Condition) (h : c.Scoped n) : cellsOf (c.code n) = 0 :=
  cellsOf_of_evaluating (Condition.value c h)

theorem cells_store (h : n.home = .global) (x : String) : cells (n.store x) = 0 := by
  rw [Machine.store_eq, h, cells_withInt]
  rfl

theorem argumentsCode_cells {arguments : List Expression} (h : ∀ e ∈ arguments, e.Scoped n) :
    cellsOf (argumentsCode n arguments) = 0 :=
  cellsOf_of_evaluating (argumentsCode_value h)

theorem cells_reserve (h : n.home = .global) (x : String) :
    n.globals.length + cellsOf (n.reserve x) = (n.bind x).globals.length := by
  unfold Names.reserve
  split
  · rename_i hx
    rw [Names.bind_of_binds hx, cellsOf_nil, Nat.add_zero]
  · rename_i hx
    rw [Names.length_globals_bind h (by simpa using hx)]
    rfl

mutual

/-- The code of a statement reserves a cell for each variable of the program that it binds. -/
theorem Statement.cells_code :
    ∀ {s : Statement} {n : Names} {start : Nat}, s.Scoped functions n → n.home = .global →
      n.globals.length + cellsOf (s.code entries n start) = (s.names n).globals.length
  | .print e, n, start, hs, _ => by
    rw [Statement.Scoped] at hs
    simp [Statement.code, Statement.names, Expr.cells_code e hs]
  | .assign x e, n, start, hs, h => by
    rw [Statement.Scoped] at hs
    have hhome : (n.bind x).home = .global := by rw [Names.home_bind, h]
    simp [Statement.code, Statement.names, Expr.cells_code e hs, cells_store hhome,
      cells_reserve h x]
  | .call f arguments, n, start, hs, _ => by
    rw [Statement.Scoped] at hs
    rw [Statement.code, Statement.names]
    cases entries f with
    | none => simp
    | some entry => simp [argumentsCode_cells hs.2]
  | .choice c yes, n, start, hs, h => by
    rw [Statement.Scoped] at hs
    have hyes : n.globals.length + cellsOf (yes.code entries n (start + (c.code n).length + 1)) =
        (yes.names n).globals.length := Block.cells_code hs.2 h
    simpa [Statement.code, Statement.names, Condition.cells_code c hs.1] using hyes
  | .alternative c yes no, n, start, hs, h => by
    rw [Statement.Scoped] at hs
    have hhome : (yes.names n).home = .global := by rw [← (yes.le_names n).home, h]
    set first := yes.code entries n (start + (c.code n).length + 1) with hfirst
    set second := no.code entries (yes.names n) (start + (c.code n).length + 1 + first.length + 1)
      with hsecond
    have hyes : n.globals.length + cellsOf first = (yes.names n).globals.length :=
      Block.cells_code hs.2.1 h
    have hno : (yes.names n).globals.length + cellsOf second =
        (no.names (yes.names n)).globals.length := Block.cells_code hs.2.2 hhome
    have hcode : cellsOf ((Statement.alternative c yes no).code entries n start) =
        cellsOf first + cellsOf second := by
      simp [Statement.code, Condition.cells_code c hs.1, ← hfirst, ← hsecond]
    rw [hcode, Statement.names, ← hno, ← hyes, Nat.add_assoc]
  | .loop c body, n, start, hs, h => by
    rw [Statement.Scoped] at hs
    have hbody : n.globals.length + cellsOf (body.code entries n (start + (c.code n).length + 1)) =
        (body.names n).globals.length := Block.cells_code hs.2 h
    simpa [Statement.code, Statement.names, Condition.cells_code c hs.1] using hbody

/-- The same for statements one after the other. -/
theorem Block.cells_code :
    ∀ {b : Block} {n : Names} {start : Nat}, b.Scoped functions n → n.home = .global →
      n.globals.length + cellsOf (b.code entries n start) = (b.names n).globals.length
  | .nil, _, _, _, _ => rfl
  | .cons s rest, n, start, hb, h => by
    rw [Block.Scoped] at hb
    have hhome : (s.names n).home = .global := by rw [← (s.le_names n).home, h]
    set first := s.code entries n start with hfirst
    have hs : n.globals.length + cellsOf first = (s.names n).globals.length :=
      Statement.cells_code hb.1 h
    have hrest : (s.names n).globals.length +
        cellsOf (rest.code entries (s.names n) (start + first.length)) =
        (rest.names (s.names n)).globals.length := Block.cells_code hb.2 hhome
    rw [Block.code, Block.names, cellsOf_append, ← hrest, ← hs, Nat.add_assoc]

end

end Cells

/-! ## Statements -/

/-- What an operation at address `a` is held to: it stores below the level behind it, and does not
jump to where the level is lower. -/
def Spares (level : Nat → Nat) (a : Nat) : Opcode → Option Operand → Prop
  | .storeGlobal, operand => ∀ address : Nat, operand = some (.int address) → address < level (a + 1)
  | .jump, operand | .jumpIfZero, operand =>
    ∀ target : Nat, operand = some (.int target) → level a ≤ level target
  | _, _ => True

/-- The instructions of the piece of code at `start` are held to that. -/
abbrev Sparing (level : Nat → Nat) : Nat → List Instruction → Prop :=
  Everywhere fun a => Satisfies (Spares level a)

/-- The level rises by the cells that the instructions of the piece of code at `start` reserve. -/
abbrev Counts (level : Nat → Nat) : Nat → List Instruction → Prop :=
  Everywhere fun a i => level (a + 1) = level a + cells i

section Statements

variable {level : Nat → Nat} {start : Nat} {is : List Instruction}

theorem Counts.total (h : Counts level start is) :
    level (start + is.length) = level start + cellsOf is := by
  induction is generalizing start with
  | nil => rfl
  | cons i is ih =>
    have hrest : level (start + 1 + is.length) = level (start + 1) + cellsOf is := ih h.tail
    rw [List.length_cons, cellsOf_cons, show start + (is.length + 1) = start + 1 + is.length by omega,
      hrest, h.head, Nat.add_assoc]

theorem sparing_of_evaluating {n : Names} (h : ∀ i ∈ is, Evaluating n i) : Sparing level start is := by
  refine .of_mem fun i hi a => (h i hi).imp ?_
  rintro op operand ⟨hop, -⟩
  cases op <;> first | cases hop; done | trivial

theorem spares_jump {op : Opcode} (hop : op = .jump ∨ op = .jumpIfZero) {a target : Nat}
    (h : level a ≤ level target) : Satisfies (Spares level a) (withInt op target) := by
  have hall : ∀ address : Nat, some (Operand.int target) = some (.int address) →
      level a ≤ level address := by
    rintro address ⟨⟩
    exact h
  rcases hop with rfl | rfl
  · exact Satisfies.of_iff.mpr hall
  · exact Satisfies.of_iff.mpr hall

/-- A variable of the program is stored into where it is bound. -/
theorem spares_store {n : Names} {x : String} {a : Nat} (h : n.home = .global) (hx : x ∈ n.globals)
    (hlevel : level (a + 1) = n.globals.length) : Satisfies (Spares level a) (n.store x) := by
  rw [Machine.store_eq, h]
  refine Satisfies.of_iff.mpr fun address haddress => ?_
  obtain rfl : n.address .global x = address := by simpa using haddress
  rw [hlevel]
  exact List.idxOf_lt_length_of_mem hx

section Control

variable {n : Names} {c : Condition} {first second : List Instruction} {target middle : Nat}

/-- Behind a test and its jump the level is that in front. -/
theorem test_level (hc : c.Scoped n)
    (h : Counts level start (c.code n ++ withInt .jumpIfZero target :: first)) :
    level (start + (c.code n).length + 1) = level start := by
  have htest := Counts.total h.left
  rw [Condition.cells_code c hc, Nat.add_zero] at htest
  rw [h.right.head, htest]
  rfl

/-- A test, the jump behind it, and what is jumped over if the test fails. -/
theorem test_spares (hc : c.Scoped n) (hmono : Monotone level)
    (htarget : start + (c.code n).length ≤ target)
    (h : Sparing level (start + (c.code n).length + 1) first) :
    Sparing level start (c.code n ++ withInt .jumpIfZero target :: first) :=
  (sparing_of_evaluating (Condition.value c hc)).append
    (.cons (spares_jump (.inr rfl) (hmono htarget)) h)

/-- The level between two pieces of which one is jumped over. -/
theorem alternative_level (hc : c.Scoped n)
    (hmiddle : middle = start + (c.code n).length + 1 + first.length + 1)
    (h : Counts level start (c.code n ++ withInt .jumpIfZero middle :: first ++
      withInt .jump (middle + second.length) :: second)) :
    level middle = level start + cellsOf first ∧ Counts level middle second := by
  have hlength := length_tested start middle (c.code n) first
  have hsecond := h.right.tail
  have hjump := h.right.head
  rw [hlength, ← hmiddle] at hsecond hjump
  refine ⟨?_, hsecond⟩
  rw [hjump, ← hlength, Counts.total h.left]
  simp [Condition.cells_code c hc]

/-- Two pieces of which one is jumped over. -/
theorem alternative_spares (hc : c.Scoped n) (hmono : Monotone level)
    (hmiddle : middle = start + (c.code n).length + 1 + first.length + 1)
    (hf : Sparing level (start + (c.code n).length + 1) first) (hs : Sparing level middle second) :
    Sparing level start (c.code n ++ withInt .jumpIfZero middle :: first ++
      withInt .jump (middle + second.length) :: second) := by
  refine (test_spares hc hmono (by omega) hf).append ?_
  rw [length_tested]
  refine .cons (spares_jump (.inl rfl) (hmono (by omega))) ?_
  rwa [← hmiddle]

/-- A piece that reserves nothing, behind which the test comes again. -/
theorem loop_spares (hc : c.Scoped n) (hmono : Monotone level) (hfirst : cellsOf first = 0)
    (htarget : start + (c.code n).length ≤ target)
    (h : Counts level start (c.code n ++ withInt .jumpIfZero target :: first))
    (hf : Sparing level (start + (c.code n).length + 1) first) :
    Sparing level start (c.code n ++ withInt .jumpIfZero target :: first ++
      [withInt .jump start]) := by
  refine (test_spares hc hmono htarget hf).append (.cons (spares_jump (.inl rfl) ?_) .nil)
  rw [Counts.total h]
  simp [Condition.cells_code c hc, hfirst]

end Control

variable {functions : List String} {entries : Entries}

/-- Assigning to a variable of the program. -/
theorem assign_spares {n : Names} {x : String} {e : Expression} {cs : List Instruction}
    (hs : e.Scoped (n.bind x)) (hhome : n.home = .global) (hcs : ∀ i ∈ cs, i = withInt .allocate 1)
    (hlevel : level start + cellsOf cs = (n.bind x).globals.length)
    (h : Counts level start (cs ++ e.code (n.bind x) ++ [(n.bind x).store x])) :
    Sparing level start (cs ++ e.code (n.bind x) ++ [(n.bind x).store x]) ∧
      level (start + (cs ++ e.code (n.bind x) ++ [(n.bind x).store x]).length) =
        (n.bind x).globals.length := by
  have hhome' : (n.bind x).home = .global := by rw [Names.home_bind, hhome]
  have hbehind := Counts.total h
  simp only [cellsOf_append, cellsOf_cons, cellsOf_nil, Expr.cells_code e hs, cells_store hhome',
    Nat.add_zero, hlevel] at hbehind
  have hmem : x ∈ (n.bind x).globals := by
    have hbound := Names.mem_bind n x
    rwa [hhome] at hbound
  refine ⟨?_, hbehind⟩
  refine .append (.append (.of_mem ?_) (sparing_of_evaluating (Expr.value e hs))) (.cons ?_ .nil)
  · intro i hi a
    rw [hcs i hi]
    exact Satisfies.of_iff.mpr trivial
  · refine spares_store hhome' hmem ?_
    rw [← hbehind]
    simp [Nat.add_assoc]

mutual

/-- A statement of the program stores below the level, and does not jump to a lower one. -/
theorem Statement.spares (hmono : Monotone level) :
    ∀ {s : Statement} {n : Names} {start : Nat}, s.Scoped functions n → n.home = .global →
      s.Thrifty n → level start = n.globals.length →
      Counts level start (s.code entries n start) → Sparing level start (s.code entries n start)
  | .print e, n, start, hs, _, _, _, _ => by
    rw [Statement.Scoped] at hs
    exact (sparing_of_evaluating (Expr.value e hs)).append
      (.cons (Satisfies.of_iff.mpr trivial) .nil)
  | .assign x e, n, start, hs, hhome, _, hlevel, hcounts => by
    rw [Statement.Scoped] at hs
    refine (assign_spares hs hhome ?_ ?_ hcounts).1
    · unfold Names.reserve
      split <;> simp
    · rw [hlevel, cells_reserve hhome]
  | .call f arguments, n, start, hs, _, _, _, _ => by
    rw [Statement.Scoped] at hs
    rw [Statement.code]
    cases entries f with
    | none => exact .nil
    | some entry =>
      exact .cons (Satisfies.of_iff.mpr trivial)
        ((sparing_of_evaluating (argumentsCode_value hs.2)).append
          (.cons (Satisfies.of_iff.mpr trivial) .nil))
  | .choice c yes, n, start, hs, hhome, hthrifty, hlevel, hcounts => by
    rw [Statement.Scoped] at hs
    rw [Statement.Thrifty] at hthrifty
    rw [Statement.code] at hcounts ⊢
    have hstart := (test_level hs.1 hcounts).trans hlevel
    have hyes := Block.spares hmono hs.2 hhome hthrifty hstart hcounts.right.tail
    exact test_spares hs.1 hmono (by omega) hyes
  | .alternative c yes no, n, start, hs, hhome, hthrifty, hlevel, hcounts => by
    rw [Statement.Scoped] at hs
    rw [Statement.Thrifty] at hthrifty
    simp only [Statement.code] at hcounts ⊢
    have hstart := (test_level hs.1 hcounts.left).trans hlevel
    have hyes := Block.spares hmono hs.2.1 hhome hthrifty.1 hstart hcounts.left.right.tail
    have hhome' : (yes.names n).home = .global := by rw [← (yes.le_names n).home, hhome]
    obtain ⟨hmiddle, hsecond⟩ := alternative_level hs.1 rfl hcounts
    rw [hlevel, Block.cells_code hs.2.1 hhome] at hmiddle
    have hno := Block.spares hmono hs.2.2 hhome' hthrifty.2 hmiddle hsecond
    exact alternative_spares hs.1 hmono rfl hyes hno
  | .loop c body, n, start, hs, hhome, hthrifty, hlevel, hcounts => by
    rw [Statement.Scoped] at hs
    rw [Statement.Thrifty] at hthrifty
    simp only [Statement.code] at hcounts ⊢
    have hstart := (test_level hs.1 hcounts.left).trans hlevel
    have hbody := Block.spares hmono hs.2 hhome hthrifty.2 hstart hcounts.left.right.tail
    have hcells : cellsOf (body.code entries n (start + (c.code n).length + 1)) = 0 := by
      have hbinds : n.globals.length +
          cellsOf (body.code entries n (start + (c.code n).length + 1)) =
          (body.names n).globals.length := Block.cells_code hs.2 hhome
      rw [hthrifty.1] at hbinds
      omega
    exact loop_spares hs.1 hmono hcells (by omega) hcounts.left hbody

/-- The same for statements one after the other. -/
theorem Block.spares (hmono : Monotone level) :
    ∀ {b : Block} {n : Names} {start : Nat}, b.Scoped functions n → n.home = .global →
      b.Thrifty n → level start = n.globals.length →
      Counts level start (b.code entries n start) → Sparing level start (b.code entries n start)
  | .nil, _, _, _, _, _, _, _ => .nil
  | .cons s rest, n, start, hb, hhome, hthrifty, hlevel, hcounts => by
    rw [Block.Scoped] at hb
    rw [Block.Thrifty] at hthrifty
    rw [Block.code] at hcounts ⊢
    have hhome' : (s.names n).home = .global := by rw [← (s.le_names n).home, hhome]
    have hlevel' : level (start + (s.code entries n start).length) =
        (s.names n).globals.length := by
      rw [Counts.total hcounts.left, hlevel, Statement.cells_code hb.1 hhome]
    exact (Statement.spares hmono hb.1 hhome hthrifty.1 hlevel hcounts.left).append
      (Block.spares hmono hb.2 hhome' hthrifty.2 hlevel' hcounts.right)

end

end Statements

/-! ## Programs -/

section Programs

variable {source : Grammar.Source} {a : Nat} {i : Instruction}

theorem level_mono (source : Grammar.Source) : Monotone source.level := Nat.count_monotone _

/-- Outside of functions the level rises by the cells that are reserved. -/
theorem level_succ (hi : source.code[a]? = some i) (h : source.Outside a) :
    source.level (a + 1) = source.level a + cells i := by
  simp [Grammar.Source.level, Nat.count_succ, Grammar.Source.Reserves, hi, h, cells]

/-- In a function it does not. -/
theorem level_eq {low high : Nat} (hle : low ≤ high)
    (h : ∀ a, low ≤ a → a < high → ¬ source.Outside a) : source.level high = source.level low := by
  induction high, hle using Nat.le_induction with
  | base => rfl
  | succ high hle ih =>
    have hinside := h high hle (by omega)
    rw [← ih fun a hlow hhigh => h a hlow (by omega)]
    simp [Grammar.Source.level, Nat.count_succ, Grammar.Source.Reserves, hinside]

/-- The code of the program has these instructions from the address on. -/
abbrev CodeOf (source : Grammar.Source) : Nat → List Instruction → Prop :=
  Everywhere fun a i => source.code[a]? = some i

/-- The instructions of the piece of code at `start` that are those of no function are held to it. -/
abbrev SparingOutside (source : Grammar.Source) : Nat → List Instruction → Prop :=
  Everywhere fun a i => source.Outside a → Satisfies (Spares source.level a) i

variable {start : Nat} {is : List Instruction}

theorem counts_of_outside (hcode : CodeOf source start is)
    (h : ∀ a, start ≤ a → a < start + is.length → source.Outside a) :
    Counts source.level start is :=
  hcode.imp fun a _ hlow hhigh hi => level_succ hi (h a hlow hhigh)

theorem outside_of_avoids (h : ∀ r ∈ source.regions, Avoids start (start + is.length) r) :
    ∀ a, start ≤ a → a < start + is.length → source.Outside a := by
  intro a hlow hhigh r hr hcontains
  have havoids := h r hr
  unfold Avoids at havoids
  unfold Region.Contains at hcontains
  omega

variable {functions : List String} {entries : Entries} {n : Names} {before : List Region}

/-- A variable that is declared, where the names in front are these. -/
theorem variable_spares {x : String} {e : Expression} (hs : e.Scoped (n.bind x))
    (hhome : n.home = .global) (hnew : n.binds x = false)
    (hlevel : source.level start = n.globals.length)
    (hcode : CodeOf source start ((Declaration.assign x e).code entries n start))
    (havoids : ∀ r ∈ source.regions, Avoids start
      (start + ((Declaration.assign x e).code entries n start).length) r) :
    SparingOutside source start ((Declaration.assign x e).code entries n start) ∧
      source.level (start + ((Declaration.assign x e).code entries n start).length) =
        (n.bind x).globals.length := by
  have hcounts := counts_of_outside hcode (outside_of_avoids havoids)
  have hcells : source.level start + cellsOf [withInt .allocate 1] = (n.bind x).globals.length := by
    rw [Names.length_globals_bind hhome hnew, hlevel]
    rfl
  obtain ⟨hspares, hbehind⟩ := assign_spares hs hhome (by simp) hcells hcounts
  exact ⟨hspares.imp fun _ _ _ _ h _ => h, hbehind⟩

/-- The code of a function is jumped over, and the level behind it is that in front. -/
theorem function_spares {f : String} {parameters : List String} {body : Block} {r : Region}
    (hdefines : Defines entries n start f parameters body r) (hr : r ∈ source.regions)
    (hcode : CodeOf source start ((Declaration.define f parameters body).code entries n start))
    (hstart : source.Outside start) :
    SparingOutside source start ((Declaration.define f parameters body).code entries n start) ∧
      source.level (start + ((Declaration.define f parameters body).code entries n start).length) =
        source.level start := by
  have hentry := hdefines.entry
  have hlength := hdefines.length
  have hlt := r.entry_lt_leave
  have hinside : ∀ a, start + 1 ≤ a → a < r.leave + 1 → ¬ source.Outside a := by
    intro a hlow hhigh houtside
    exact houtside r hr ⟨by omega, by omega⟩
  constructor
  · rw [hdefines.code] at hcode hlength ⊢
    refine .cons (fun _ => spares_jump (.inl rfl) (level_mono source (by omega))) ?_
    refine hcode.tail.imp fun a i hlow hhigh _ houtside => ?_
    rw [List.length_cons] at hlength
    exact absurd houtside (hinside a hlow (by omega))
  · rw [hlength, level_eq (by omega) hinside]
    rw [hdefines.code] at hcode
    rw [level_succ hcode.head hstart]
    rfl

/-- The same for declarations, behind the functions declared before. -/
theorem declarations_spares {ds : List Declaration} (hds : DeclarationsScoped functions n ds)
    (hthrifty : DeclarationsThrifty n ds) (hhome : n.home = .global)
    (hlevel : source.level start = n.globals.length)
    (hcode : CodeOf source start (declarationsCode entries n start ds))
    (hbefore : ∀ r ∈ before, r.leave < start)
    (hregions : before ++ declarationsRegions entries n start ds = source.regions) :
    SparingOutside source start (declarationsCode entries n start ds) ∧
      source.level (start + (declarationsCode entries n start ds).length) =
        (namesBehind n ds).globals.length := by
  induction ds generalizing before entries n start functions with
  | nil => exact ⟨.nil, hlevel⟩
  | cons d ds ih =>
    rw [DeclarationsScoped] at hds
    have hstart : source.Outside start := by
      intro r hr hcontains
      rw [← hregions] at hr
      rcases List.mem_append.mp hr with hr | hr
      · exact absurd (hbefore r hr) (Nat.not_lt.mpr hcontains.2)
      · exact absurd (declarationsRegions_bounds hr).1 (Nat.not_lt.mpr hcontains.1)
    rw [declarationsCode] at hcode ⊢
    rw [declarationsRegions, ← List.append_assoc] at hregions
    set first := d.code entries n start with hfirst
    have hbefore' : ∀ r ∈ before ++ d.regions entries n start, r.leave < start + first.length := by
      intro r hr
      rcases List.mem_append.mp hr with hr | hr
      · have hlt := hbefore r hr
        omega
      · have hbounds := Declaration.regions_bounds hr
        rw [← hfirst] at hbounds
        omega
    have hd : DeclarationsThrifty (d.names n) ds ∧ SparingOutside source start first ∧
        source.level (start + first.length) = (d.names n).globals.length := by
      cases d with
      | assign x e =>
        refine ⟨hthrifty.2, variable_spares hds.1.2 hhome hthrifty.1 hlevel hcode.left ?_⟩
        intro r hr
        rw [← hregions] at hr
        rcases List.mem_append.mp hr with hr | hr
        · exact .inl (hbefore r (by simpa [Declaration.regions] using hr))
        · exact .inr (declarationsRegions_bounds hr).1
      | define f parameters body =>
        obtain ⟨r, hr⟩ := exists_defines entries n start f parameters body
        have hmem : r ∈ source.regions := by
          rw [← hregions, hr.regions]
          simp
        obtain ⟨hspares, hbehind⟩ := function_spares hr hmem hcode.left hstart
        exact ⟨hthrifty, hspares, hbehind.trans hlevel⟩
    have hrest := ih hds.2 hd.1 (Declaration.home_names hhome d) hd.2.2 hcode.right hbefore' hregions
    rw [List.length_append, ← Nat.add_assoc]
    exact ⟨hd.2.1.append hrest.1, hrest.2⟩

/-- Outside of functions the code of a program stores below the level, and does not jump to a lower
one. At its end the level is the number of variables. -/
theorem Source.spares (hs : source.Scoped) (hthrifty : source.Thrifty) :
    SparingOutside source 0 source.code ∧
      source.level source.code.length = source.finalNames.globals.length := by
  set first := declarationsCode noEntries {} 1 source.declarations with hfirst
  set second := source.statements.code source.entries source.names (1 + first.length) with hsecond
  have hcode : source.code = plain .start :: first ++ second ++ [plain .halt] := rfl
  have hplace : CodeOf source 0 (plain .start :: first ++ second ++ [plain .halt]) := by
    intro j i hi
    rw [Nat.zero_add, hcode, hi]
  have hmiddle : 0 + (plain .start :: first).length = 1 + first.length := by
    rw [List.length_cons]
    omega
  have hout : ∀ a, a < 1 ∨ 1 + first.length ≤ a → source.Outside a := by
    intro a ha r hr hcontains
    have hbounds := declarationsRegions_bounds hr
    have hlow := hcontains.1
    have hhigh := hcontains.2
    rw [← hfirst] at hbounds
    omega
  have hlevel : source.level 1 = 0 := by
    rw [level_succ hplace.left.left.head (hout 0 (by omega))]
    rfl
  have hnone : [] ++ declarationsRegions noEntries {} 1 source.declarations = source.regions := rfl
  have hds := declarations_spares hs.1 hthrifty.1 rfl hlevel hplace.left.left.tail (by simp) hnone
  have hhome : source.names.home = .global := home_namesBehind rfl source.declarations
  have hstatements := hplace.left.right
  have hhalt := hplace.right.head
  rw [hmiddle] at hstatements
  have hcounts : Counts source.level (1 + first.length) second :=
    counts_of_outside hstatements fun a hlow _ => hout a (by omega)
  have hb : Sparing source.level (1 + first.length) second :=
    Block.spares (level_mono source) hs.2 hhome hthrifty.2 hds.2 hcounts
  have hend : source.level (1 + first.length + second.length) =
      source.finalNames.globals.length := by
    rw [Counts.total hcounts, hds.2]
    exact Block.cells_code hs.2 hhome
  have hlength : 0 + (plain .start :: first ++ second).length =
      1 + first.length + second.length := by
    rw [List.length_append, ← Nat.add_assoc, hmiddle]
  rw [hlength] at hhalt
  constructor
  · rw [hcode]
    refine .append (.append (.cons (fun _ => Satisfies.of_iff.mpr trivial) hds.1) ?_)
      (.cons (fun _ => Satisfies.of_iff.mpr trivial) .nil)
    rw [hmiddle]
    exact hb.imp fun _ _ _ _ h _ => h
  · have hlast : source.code.length = 1 + first.length + second.length + 1 := by
      rw [hcode, List.length_append, ← hlength]
      simp
    rw [hlast, level_succ hhalt (hout _ (by omega)), hend]
    rfl

/-- No level is higher than the number of variables at the end of the program. -/
theorem Source.level_le (hs : source.Scoped) (hthrifty : source.Thrifty) (a : Nat) :
    source.level a ≤ source.finalNames.globals.length := by
  rw [← (Source.spares hs hthrifty).2]
  rcases Nat.le_total a source.code.length with hle | hle
  · exact level_mono source hle
  · -- behind the code there is nothing that reserves a cell
    have hnothing : ∀ k, ¬ source.Reserves (source.code.length + k) := by
      intro k hreserves
      have hnone : source.code[source.code.length + k]? = none := by simp
      rw [Grammar.Source.Reserves, hnone] at hreserves
      cases hreserves.1
    obtain ⟨k, rfl⟩ := Nat.exists_eq_add_of_le hle
    rw [Grammar.Source.level, Nat.count_add, Nat.count_iff_forall_not.mpr fun k _ => hnothing k]
    exact Nat.le_refl _

end Programs

end Reserving

end StackPrimer

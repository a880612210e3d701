import StackPrimer.Proofs.Confinement.Piece

/-!
# The code of statements is tidy

Results:
* `Expr.value`: an expression uses variables that are bound.
* `Statement.tidy`, `Block.tidy`: a statement jumps within its own code and behind it, calls
  functions from behind the address to which they return, and uses variables that are bound.
-/

namespace StackPrimer.Confinement

open Grammar

/-! ## Expressions -/

theorem evaluates_add (s : AddSign) : evaluates s.opcode = true := by cases s <;> rfl

theorem evaluates_multiply (s : MulSign) : evaluates s.opcode = true := by cases s <;> rfl

theorem evaluates_comparison (s : Comparison) : evaluates s.opcode = true := by cases s <;> rfl

section Expressions

variable {callable : Nat → Prop} {low high : Nat} {n : Names}

/-- Operations of expressions other than those on variables demand nothing. -/
theorem demand_of_evaluates {op : Opcode} (h : evaluates op = true) (hg : op ≠ .loadGlobal)
    (hl : op ≠ .loadLocal) (operand : Option Operand) : Demand callable low high n op operand := by
  cases op <;> trivial

/-- A variable of an expression is bound. -/
theorem demand_load {x : String} {scope : Scope} (h : n.scope? x = some scope) :
    Demand callable low high n (Machine.loading scope) (some (.int (n.address scope x : Nat))) := by
  have hmem := Names.mem_of_scope? h
  cases scope with
  | global => exact ⟨x, hmem, rfl⟩
  | function =>
    cases hn : n.home with
    | function => exact ⟨hn, x, hmem, rfl⟩
    | global =>
      rw [Names.inScope, Names.inner_eq_nil hn] at hmem
      cases hmem

/-- What an instruction of an expression is like. -/
abbrev Value (callable : Nat → Prop) (low high : Nat) (n : Names) : Instruction → Prop :=
  Satisfies fun op operand => evaluates op = true ∧ Demand callable low high n op operand

theorem value_plain {op : Opcode} (h : evaluates op = true) (hg : op ≠ .loadGlobal)
    (hl : op ≠ .loadLocal) : Value callable low high n (plain op) :=
  Satisfies.of_iff.mpr ⟨h, demand_of_evaluates h hg hl none⟩

/-- The instructions of an expression evaluate, and use variables that are bound. -/
theorem Expr.value {l : Level} (e : Expr l) (h : e.Scoped n) :
    ∀ i ∈ e.code n, Value callable low high n i := by
  induction e with
  | input =>
    have hop : Value callable low high n (plain .read) := value_plain rfl (by simp) (by simp)
    simpa [Expr.code] using hop
  | ofSum e ih => exact ih h
  | ofTerm e ih => exact ih h
  | add left s right ihl ihr =>
    have hop : Value callable low high n (plain s.opcode) :=
      value_plain (evaluates_add s) (by cases s <;> simp [AddSign.opcode])
        (by cases s <;> simp [AddSign.opcode])
    simp only [Expr.code, List.forall_mem_append, List.forall_mem_singleton]
    exact ⟨⟨ihl h.1, ihr h.2⟩, hop⟩
  | ofFactor e ih => exact ih h
  | multiply left s right ihl ihr =>
    have hop : Value callable low high n (plain s.opcode) :=
      value_plain (evaluates_multiply s) (by cases s <;> simp [MulSign.opcode])
        (by cases s <;> simp [MulSign.opcode])
    simp only [Expr.code, List.forall_mem_append, List.forall_mem_singleton]
    exact ⟨⟨ihl h.1, ihr h.2⟩, hop⟩
  | name x =>
    obtain ⟨scope, hscope⟩ := Option.isSome_iff_exists.mp h
    rw [Expr.code, Machine.load_eq hscope, List.forall_mem_singleton]
    exact Satisfies.of_iff.mpr ⟨by cases scope <;> rfl, demand_load hscope⟩
  | number x =>
    rw [Expr.code, List.forall_mem_singleton]
    exact Satisfies.of_iff.mpr ⟨rfl, trivial⟩
  | group e ih => exact ih h

theorem Condition.value (c : Condition) (h : c.Scoped n) :
    ∀ i ∈ c.code n, Value callable low high n i := by
  have hop : Value callable low high n (plain c.comparison.opcode) :=
    value_plain (evaluates_comparison _) (by cases c.comparison <;> simp [Comparison.opcode])
      (by cases c.comparison <;> simp [Comparison.opcode])
  simp only [Condition.code, List.forall_mem_append, List.forall_mem_singleton]
  exact ⟨⟨Expr.value c.left h.1, Expr.value c.right h.2⟩, hop⟩

theorem argumentsCode_value {arguments : List Expression} (h : ∀ e ∈ arguments, e.Scoped n) :
    ∀ i ∈ argumentsCode n arguments, Value callable low high n i := by
  intro i hi
  obtain ⟨e, he, hie⟩ := List.mem_flatMap.mp hi
  exact Expr.value e (h e he) i hie

end Expressions

/-! ## Statements -/

section Statements

variable {functions : List String} {entries : Entries} {callable : Nat → Prop} {low high : Nat}

/-- An instruction of an expression does not call. -/
theorem Value.lone {n : Names} {i : Instruction} (h : Value callable low high n i) :
    Lone callable low high n i :=
  Satisfies.imp h fun _ _ h => ⟨concernsCall_of_evaluates h.1, h.2⟩

/-- Storing demands that the name is bound in the scope in which new names are bound. -/
theorem store_lone {n : Names} {x : String} (h : x ∈ n.inScope n.home) :
    Lone callable low high n (n.store x) := by
  rw [Machine.store_eq]
  refine Satisfies.of_iff.mpr ?_
  cases hn : n.home with
  | global =>
    rw [hn] at h
    exact ⟨rfl, hn, x, h, rfl⟩
  | function =>
    rw [hn] at h
    exact ⟨rfl, hn, x, h, rfl⟩

theorem allocate_lone (n : Names) : Lone callable low high n (withInt .allocate 1) :=
  Satisfies.of_iff.mpr ⟨rfl, trivial⟩

theorem jump_lone {n : Names} {op : Opcode} (hop : op = .jump ∨ op = .jumpIfZero) {target : Nat}
    (hlow : low ≤ target) (hhigh : target ≤ high) :
    Lone callable low high n (withInt op target) := by
  refine Satisfies.of_iff.mpr ?_
  rcases hop with rfl | rfl
  · exact ⟨rfl, target, rfl, hlow, hhigh⟩
  · exact ⟨rfl, target, rfl, hlow, hhigh⟩

/-- Assigning, behind the cell that is reserved for the name. -/
theorem assign_tidy {n : Names} {x : String} {e : Expression} (he : e.Scoped (n.bind x))
    {start k : Nat} {cells : List Instruction} (hcells : ∀ i ∈ cells, i = withInt .allocate 1)
    (hk : k = (cells ++ e.code (n.bind x) ++ [(n.bind x).store x]).length) :
    Tidy callable low high start (List.replicate k (n.bind x))
      (cells ++ e.code (n.bind x) ++ [(n.bind x).store x]) := by
  have hmem : x ∈ (n.bind x).inScope (n.bind x).home := by
    rw [Names.home_bind]
    exact Names.mem_bind n x
  refine .replicate hk ?_
  rw [List.forall_mem_append, List.forall_mem_append, List.forall_mem_singleton]
  refine ⟨⟨?_, fun i hi => (Expr.value e he i hi).lone⟩, store_lone hmem⟩
  intro i hi
  rw [hcells i hi]
  exact allocate_lone _

/-- A call, which returns behind itself. -/
theorem call_tidy {n : Names} {arguments : List Expression} (h : ∀ e ∈ arguments, e.Scoped n)
    {start entry : Nat} (hentry : callable entry) :
    Tidy callable low high start (List.replicate ((argumentsCode n arguments).length + 2) n)
      (withInt .pushReturn (start + (argumentsCode n arguments).length + 2) ::
        argumentsCode n arguments ++ [withInt .call entry]) := by
  have hvalues : ∀ i ∈ argumentsCode n arguments, Value callable low high n i :=
    argumentsCode_value h
  constructor
  · refine .replicate (by simp) fun a => ?_
    rw [List.cons_append, List.forall_mem_cons, List.forall_mem_append, List.forall_mem_singleton]
    have hcall : Satisfies (Demand callable low high n) (withInt .call entry) :=
      Satisfies.of_iff.mpr ⟨entry, rfl, hentry⟩
    exact ⟨Satisfies.of_iff.mpr trivial, fun i hi => (hvalues i hi).imp fun _ _ => And.right, hcall⟩
  · exact .call (fun i hi => (hvalues i hi).imp fun _ _ => And.left) .nil

section Control

variable {n m : Names} {c : Condition} {ns ms : List Names} {first second : List Instruction}
  {start : Nat}

/-- A piece behind a test and the jump that leads away if it fails. -/
theorem tested_tidy {target : Nat} (hc : c.Scoped n) (hlow : low ≤ target) (hhigh : target ≤ high)
    (hf : Tidy callable low high (start + (c.code n).length + 1) ns first) :
    Tidy callable low high start (List.replicate ((c.code n).length + 1) n ++ ns)
      (c.code n ++ withInt .jumpIfZero target :: first) := by
  have htest : Tidy callable low high start (List.replicate ((c.code n).length + 1) n)
      (c.code n ++ [withInt .jumpIfZero target]) := by
    refine .replicate (by simp) ?_
    rw [List.forall_mem_append, List.forall_mem_singleton]
    exact ⟨fun i hi => (Condition.value c hc i hi).lone, jump_lone (.inr rfl) hlow hhigh⟩
  have hlength : start + (c.code n ++ [withInt .jumpIfZero target]).length =
      start + (c.code n).length + 1 := by
    simp
    omega
  rw [List.append_cons]
  rw [← hlength] at hf
  exact htest.append hf

/-- A piece that is jumped over if the test fails. -/
theorem choice_tidy (hc : c.Scoped n) (hlow : low ≤ start)
    (hhigh : start + (c.code n).length + 1 + first.length ≤ high)
    (hf : Tidy callable low high (start + (c.code n).length + 1) ns first) :
    Tidy callable low high start (List.replicate ((c.code n).length + 1) n ++ ns)
      (c.code n ++
        withInt .jumpIfZero (start + (c.code n).length + 1 + first.length) :: first) :=
  tested_tidy hc (by omega) hhigh hf

/-- Two pieces of which one is jumped over. -/
theorem alternative_tidy (hc : c.Scoped n) (hlow : low ≤ start) {middle : Nat}
    (hmiddle : middle = start + (c.code n).length + 1 + first.length + 1)
    (hhigh : middle + second.length ≤ high)
    (hf : Tidy callable low high (start + (c.code n).length + 1) ns first)
    (hs : Tidy callable low high middle ms second) :
    Tidy callable low high start (List.replicate ((c.code n).length + 1) n ++ ns ++ m :: ms)
      (c.code n ++ withInt .jumpIfZero middle :: first ++
        withInt .jump (middle + second.length) :: second) := by
  have htested : Tidy callable low high start (List.replicate ((c.code n).length + 1) n ++ ns)
      (c.code n ++ withInt .jumpIfZero middle :: first) :=
    tested_tidy hc (by omega) (by omega) hf
  have hjump : Lone callable low high m (withInt .jump (middle + second.length)) :=
    jump_lone (.inl rfl) (by omega) hhigh
  refine htested.append ((Tidy.single hjump).append ?_)
  rwa [length_tested, List.length_singleton, ← hmiddle]

/-- A piece behind which the test comes again. -/
theorem loop_tidy (hc : c.Scoped n) (hlow : low ≤ start)
    (hhigh : start + (c.code n).length + 1 + first.length + 1 ≤ high)
    (hf : Tidy callable low high (start + (c.code n).length + 1) ns first) :
    Tidy callable low high start (List.replicate ((c.code n).length + 1) n ++ ns ++ [m])
      (c.code n ++
        withInt .jumpIfZero (start + (c.code n).length + 1 + first.length + 1) :: first ++
        [withInt .jump start]) := by
  have hjump : Lone callable low high m (withInt .jump start) :=
    jump_lone (.inl rfl) hlow (by omega)
  exact (tested_tidy hc (by omega) hhigh hf).append (.single hjump)

end Control

mutual

/-- A statement jumps within its own code and behind it, calls functions from behind the address to
which they return, and uses variables that are bound. -/
theorem Statement.tidy (hf : ∀ f ∈ functions, ∃ entry, entries f = some entry ∧ callable entry) :
    ∀ {s : Statement} {n : Names} {start : Nat}, s.Scoped functions n → low ≤ start →
      start + (s.code entries n start).length ≤ high →
      Tidy callable low high start (s.surroundings n) (s.code entries n start)
  | .print e, n, start, hs, _, _ => by
    rw [Statement.Scoped] at hs
    refine .replicate (by simp [Statement.code]) ?_
    rw [Statement.code, List.forall_mem_append, List.forall_mem_singleton]
    exact ⟨fun i hi => (Expr.value e hs i hi).lone, Satisfies.of_iff.mpr ⟨rfl, trivial⟩⟩
  | .assign x e, n, start, hs, _, _ => by
    rw [Statement.Scoped] at hs
    refine assign_tidy hs ?_ (by simp [Nat.add_assoc])
    unfold Names.reserve
    split <;> simp
  | .call f arguments, n, start, hs, _, _ => by
    rw [Statement.Scoped] at hs
    obtain ⟨entry, hentry, hcallable⟩ := hf f hs.1
    rw [Statement.code, hentry]
    exact call_tidy hs.2 hcallable
  | .choice c yes, n, start, hs, hlow, hhigh => by
    rw [Statement.Scoped] at hs
    simp only [Statement.code, List.length_append, List.length_cons] at hhigh ⊢
    exact choice_tidy hs.1 hlow (by omega) (Block.tidy hf hs.2 (by omega) (by omega))
  | .alternative c yes no, n, start, hs, hlow, hhigh => by
    rw [Statement.Scoped] at hs
    simp only [Statement.code, List.length_append, List.length_cons] at hhigh ⊢
    exact alternative_tidy hs.1 hlow rfl (by omega)
      (Block.tidy hf hs.2.1 (by omega) (by omega)) (Block.tidy hf hs.2.2 (by omega) (by omega))
  | .loop c body, n, start, hs, hlow, hhigh => by
    rw [Statement.Scoped] at hs
    simp only [Statement.code, List.length_append, List.length_cons, List.length_nil] at hhigh ⊢
    exact loop_tidy hs.1 hlow (by omega) (Block.tidy hf hs.2 (by omega) (by omega))

/-- The same for statements one after the other. -/
theorem Block.tidy (hf : ∀ f ∈ functions, ∃ entry, entries f = some entry ∧ callable entry) :
    ∀ {b : Block} {n : Names} {start : Nat}, b.Scoped functions n → low ≤ start →
      start + (b.code entries n start).length ≤ high →
      Tidy callable low high start (b.surroundings n) (b.code entries n start)
  | .nil, _, _, _, _, _ => .nil
  | .cons s rest, n, start, hb, hlow, hhigh => by
    rw [Block.Scoped] at hb
    simp only [Block.code, List.length_append] at hhigh
    exact (Statement.tidy hf hb.1 hlow (by omega)).append
      (Block.tidy hf hb.2 (by omega) (by omega))

end

end Statements

end StackPrimer.Confinement

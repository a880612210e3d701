import StackPrimer.Proofs.Grammar.Surroundings
import StackPrimer.Proofs.Listing.Bytes

/-!
# Listings of compiled programs

The whole numbers in the code of a program are addresses: of instructions, of which there are no more than
the code is long, and of variables. Each variable has an instruction of its own that reserves its cell or
takes its argument, so there are no more of them either. Unless the code is longer than any whole number
that can be read, its listing is read as the program.

Results:
* `Statement.count_names`: variables come to be no faster than instructions.
* `Source.code_within`: no whole number in the code of a program is above its length.
* `Source.Explains.writable`: the code of a program can be written.
-/

namespace StackPrimer

/-- The instruction has an operation, and its operand is no whole number above the limit. -/
def Instruction.Within (limit : Nat) (i : Instruction) : Prop :=
  ∃ op operand, i = .of op operand ∧ ∀ n : Int, operand = some (.int n) → n.natAbs ≤ limit

namespace Grammar

/-! ## Variables and instructions -/

/-- How many variables can be used. -/
def Names.count (n : Names) : Nat := n.globals.length + n.inner.length

namespace Names

variable {n : Names}

theorem length_extend (names : List String) (x : String) : (extend names x).length ≤ names.length + 1 := by
  unfold extend
  split <;> simp

theorem length_reserve_le (n : Names) (x : String) : (n.reserve x).length ≤ 1 := by
  unfold reserve
  split <;> simp

/-- A variable comes to be where a cell is reserved for it. -/
theorem count_bind (n : Names) (x : String) : (n.bind x).count ≤ n.count + (n.reserve x).length := by
  by_cases hx : n.binds x = true
  · rw [bind_of_binds hx]
    omega
  · have hlength : (n.reserve x).length = 1 := by simp [reserve, hx]
    rw [hlength]
    rcases n with ⟨globals, _ | locals⟩
    · have h := length_extend globals x
      simp only [bind, count, inner, Option.getD_none, List.length_nil] at h ⊢
      omega
    · have h := length_extend locals x
      simp only [bind, count, inner, Option.getD_some] at h ⊢
      omega

theorem count_foldl_bind (n : Names) (xs : List String) : (xs.foldl bind n).count ≤ n.count + xs.length := by
  induction xs generalizing n with
  | nil => exact Nat.le_refl _
  | cons x xs ih =>
    have hrest := ih (n.bind x)
    have hx := count_bind n x
    have hreserve := length_reserve_le n x
    rw [List.foldl_cons, List.length_cons]
    omega

/-- The variables of a function come to be with its parameters. -/
theorem count_enter (n : Names) (parameters : List String) :
    (n.enter parameters).count ≤ n.count + parameters.length := by
  have henter := count_foldl_bind { n with locals := some [] } parameters
  have hempty : Names.count { n with locals := some [] } ≤ n.count := by simp [count, inner]
  exact henter.trans (by omega)

theorem address_le_count (n : Names) (scope : Scope) (x : String) : n.address scope x ≤ n.count := by
  have hlength : n.address scope x ≤ (n.inScope scope).length := List.idxOf_le_length
  refine hlength.trans ?_
  cases scope <;> simp [inScope, count]

end Names

mutual

/-- Behind a statement there are no more variables than those before and its instructions. -/
theorem Statement.count_names (entries : Entries) (n : Names) (start : Nat) :
    ∀ s : Statement, (s.names n).count ≤ n.count + (s.code entries n start).length
  | .print _ => by
    rw [Statement.names]
    omega
  | .assign x e => by
    have hbind := n.count_bind x
    simp only [Statement.names, Statement.code, List.length_append]
    omega
  | .call .. => by
    rw [Statement.names]
    omega
  | .choice c yes => by
    have hyes := yes.count_names entries n (start + (c.code n).length + 1)
    simp only [Statement.names, Statement.code, List.length_append, List.length_cons]
    omega
  | .alternative c yes no => by
    have hyes := yes.count_names entries n (start + (c.code n).length + 1)
    have hno := no.count_names entries (yes.names n)
      (start + (c.code n).length + 1 + (yes.code entries n (start + (c.code n).length + 1)).length + 1)
    simp only [Statement.names, Statement.code, List.length_append, List.length_cons]
    omega
  | .loop c body => by
    have hbody := body.count_names entries n (start + (c.code n).length + 1)
    simp only [Statement.names, Statement.code, List.length_append, List.length_cons]
    omega

/-- The same for statements one after the other. -/
theorem Block.count_names (entries : Entries) (n : Names) (start : Nat) :
    ∀ b : Block, (b.names n).count ≤ n.count + (b.code entries n start).length
  | .nil => by
    rw [Block.names]
    omega
  | .cons s rest => by
    have hs := s.count_names entries n start
    have hrest := rest.count_names entries (s.names n) (start + (s.code entries n start).length)
    simp only [Block.names, Block.code, List.length_append]
    omega

end

/-! ## Whole numbers in code -/

section Within

variable {n : Names} {entries : Entries} {limit start : Nat}

theorem plain_within (op : Opcode) : (plain op).Within limit := ⟨op, none, rfl, by simp⟩

theorem withInt_within {op : Opcode} {k : Nat} (h : k ≤ limit) : (withInt op k).Within limit := by
  refine ⟨op, _, rfl, fun m hm => ?_⟩
  obtain rfl : (k : Int) = m := by simpa using hm
  exact h

theorem Names.load_within (h : n.count ≤ limit) (x : String) : ∀ i ∈ n.load x, i.Within limit := by
  have haddress (scope : Scope) : n.address scope x ≤ limit := (n.address_le_count scope x).trans h
  unfold load
  split
  · exact List.forall_mem_singleton.mpr (withInt_within (haddress _))
  · exact List.forall_mem_singleton.mpr (withInt_within (haddress _))
  · simp

theorem Names.store_within (h : n.count ≤ limit) (x : String) : (n.store x).Within limit := by
  have haddress (scope : Scope) : n.address scope x ≤ limit := (n.address_le_count scope x).trans h
  unfold store
  split <;> exact withInt_within (haddress _)

theorem Expr.within (h : n.count ≤ limit) {l : Level} (e : Expr l) : ∀ i ∈ e.code n, i.Within limit := by
  induction e with
  | input => exact List.forall_mem_singleton.mpr (plain_within _)
  | ofSum e ih => exact ih
  | ofTerm e ih => exact ih
  | add left s right ihl ihr =>
    exact List.forall_mem_append.mpr
      ⟨List.forall_mem_append.mpr ⟨ihl, ihr⟩, List.forall_mem_singleton.mpr (plain_within _)⟩
  | ofFactor e ih => exact ih
  | multiply left s right ihl ihr =>
    exact List.forall_mem_append.mpr
      ⟨List.forall_mem_append.mpr ⟨ihl, ihr⟩, List.forall_mem_singleton.mpr (plain_within _)⟩
  | name x => exact Names.load_within h x
  | number x => exact List.forall_mem_singleton.mpr ⟨_, _, rfl, by simp⟩
  | group e ih => exact ih

theorem Condition.within (h : n.count ≤ limit) (c : Condition) : ∀ i ∈ c.code n, i.Within limit :=
  List.forall_mem_append.mpr ⟨List.forall_mem_append.mpr ⟨c.left.within h, c.right.within h⟩,
    List.forall_mem_singleton.mpr (plain_within _)⟩

theorem arguments_within (h : n.count ≤ limit) (arguments : List Expression) :
    ∀ i ∈ argumentsCode n arguments, i.Within limit := by
  intro i hi
  obtain ⟨e, -, hi⟩ := List.mem_flatMap.mp hi
  exact e.within h i hi

/-- The functions that can be called begin up to the limit. -/
def EntriesWithin (limit : Nat) (entries : Entries) : Prop := ∀ f entry, entries f = some entry → entry ≤ limit

mutual

/-- The code of a statement refers to addresses up to its end, if what has come before does. -/
theorem Statement.within (hentries : EntriesWithin limit entries) :
    ∀ (s : Statement) {n : Names} {start : Nat}, n.count ≤ start →
      start + (s.code entries n start).length ≤ limit → ∀ i ∈ s.code entries n start, i.Within limit
  | .print e, n, start, hcount, hend => by
    rw [Statement.code, List.length_append] at hend
    rw [Statement.code]
    exact List.forall_mem_append.mpr
      ⟨e.within (by omega), List.forall_mem_singleton.mpr (plain_within _)⟩
  | .assign x e, n, start, hcount, hend => by
    have hbind := n.count_bind x
    simp only [Statement.code, List.length_append] at hend
    simp only [Statement.code, List.forall_mem_append, List.forall_mem_singleton]
    refine ⟨⟨?_, e.within (by omega)⟩, Names.store_within (by omega) x⟩
    unfold Names.reserve
    split
    · simp
    · rename_i hx
      have hlength : (n.reserve x).length = 1 := by simp [Names.reserve, hx]
      exact List.forall_mem_singleton.mpr (withInt_within (by omega))
  | .call f arguments, n, start, hcount, hend => by
    rw [Statement.code] at hend ⊢
    cases hentry : entries f with
    | none => simp
    | some entry =>
      simp only [hentry, List.length_append, List.length_cons, List.length_nil] at hend
      simp only [List.forall_mem_append, List.forall_mem_cons]
      exact ⟨⟨withInt_within (by omega), arguments_within (by omega) arguments⟩,
        withInt_within (hentries f entry hentry), by simp⟩
  | .choice c yes, n, start, hcount, hend => by
    simp only [Statement.code, List.length_append, List.length_cons] at hend
    simp only [Statement.code, List.forall_mem_append, List.forall_mem_cons]
    exact ⟨c.within (by omega), withInt_within (by omega),
      yes.within hentries (by omega) (by omega)⟩
  | .alternative c yes no, n, start, hcount, hend => by
    have hyes := yes.count_names entries n (start + (c.code n).length + 1)
    simp only [Statement.code, List.length_append, List.length_cons] at hend
    simp only [Statement.code, List.forall_mem_append, List.forall_mem_cons]
    exact ⟨⟨c.within (by omega), withInt_within (by omega), yes.within hentries (by omega) (by omega)⟩,
      withInt_within (by omega), no.within hentries (by omega) (by omega)⟩
  | .loop c body, n, start, hcount, hend => by
    simp only [Statement.code, List.length_append, List.length_cons, List.length_nil] at hend
    simp only [Statement.code, List.forall_mem_append, List.forall_mem_cons]
    exact ⟨⟨c.within (by omega), withInt_within (by omega), body.within hentries (by omega) (by omega)⟩,
      withInt_within (by omega), by simp⟩

/-- The same for statements one after the other. -/
theorem Block.within (hentries : EntriesWithin limit entries) :
    ∀ (b : Block) {n : Names} {start : Nat}, n.count ≤ start →
      start + (b.code entries n start).length ≤ limit → ∀ i ∈ b.code entries n start, i.Within limit
  | .nil, n, start, _, _ => by simp [Block.code]
  | .cons s rest, n, start, hcount, hend => by
    have hs := s.count_names entries n start
    simp only [Block.code, List.length_append] at hend
    simp only [Block.code, List.forall_mem_append]
    exact ⟨s.within hentries hcount (by omega), rest.within hentries (by omega) (by omega)⟩

end

/-! ## Programs -/

/-- Behind a declaration there are no more variables than those before and its instructions. -/
theorem Declaration.count_names (entries : Entries) (n : Names) (start : Nat) (d : Declaration) :
    (d.names n).count ≤ n.count + (d.code entries n start).length := by
  cases d with
  | assign x e =>
    have hbind := n.count_bind x
    have hreserve := n.length_reserve_le x
    simp only [Declaration.names, Declaration.code, List.length_append, List.length_cons]
    omega
  | define f parameters body => exact Nat.le_add_right _ _

/-- Functions begin inside of the code of their declarations. -/
theorem Declaration.entries_within {d : Declaration} (hentries : EntriesWithin limit entries)
    (hend : start + (d.code entries n start).length ≤ limit) :
    EntriesWithin limit (d.entries entries start) := by
  cases d with
  | assign x e => exact hentries
  | define f parameters body =>
    intro g entry hg
    simp only [Declaration.code, List.length_append, List.length_cons] at hend
    by_cases hgf : g = f
    · obtain rfl : start + 1 = entry := by simpa [Declaration.entries, hgf] using hg
      omega
    · exact hentries g entry (by simpa [Declaration.entries, hgf] using hg)

theorem Declaration.within {d : Declaration} (hentries : EntriesWithin limit entries)
    (hcount : n.count ≤ start) (hend : start + (d.code entries n start).length ≤ limit) :
    ∀ i ∈ d.code entries n start, i.Within limit := by
  have hdeclared := Declaration.entries_within hentries hend
  cases d with
  | assign x e =>
    have hbind := n.count_bind x
    have hreserve := n.length_reserve_le x
    simp only [Declaration.code, List.length_append, List.length_cons, List.length_nil] at hend
    simp only [Declaration.code, List.forall_mem_append, List.forall_mem_cons]
    exact ⟨⟨withInt_within (by omega), e.within (by omega)⟩, Names.store_within (by omega) x, by simp⟩
  | define f parameters body =>
    have henter := n.count_enter parameters
    have hstores : (parametersCode (n.enter parameters) parameters).length = parameters.length := by
      simp [parametersCode]
    simp only [Declaration.code, List.length_append, List.length_cons, hstores] at hend
    simp only [Declaration.code, List.forall_mem_append, List.forall_mem_cons, hstores]
    refine ⟨⟨⟨withInt_within (by omega), plain_within _, ?_⟩, ?_⟩, plain_within _, by simp⟩
    · intro i hi
      obtain ⟨x, -, rfl⟩ := List.mem_map.mp hi
      have haddress := (n.enter parameters).address_le_count .function x
      exact withInt_within (by omega)
    · exact body.within hdeclared (by omega) (by omega)

theorem declarations_count (entries : Entries) (n : Names) (start : Nat) (ds : List Declaration) :
    (namesBehind n ds).count ≤ n.count + (declarationsCode entries n start ds).length := by
  induction ds generalizing entries n start with
  | nil => exact Nat.le_add_right _ _
  | cons d ds ih =>
    have hd := d.count_names entries n start
    have hds := ih (d.entries entries start) (d.names n) (start + (d.code entries n start).length)
    simp only [declarationsCode, List.length_append]
    rw [namesBehind, List.foldl_cons, ← namesBehind]
    omega

/-- The code of declarations refers to addresses up to its end, and so do calls behind it. -/
theorem declarations_within {ds : List Declaration} (hentries : EntriesWithin limit entries)
    (hcount : n.count ≤ start) (hend : start + (declarationsCode entries n start ds).length ≤ limit) :
    (∀ i ∈ declarationsCode entries n start ds, i.Within limit) ∧
      EntriesWithin limit (entriesBehind entries n start ds) := by
  induction ds generalizing entries n start with
  | nil => exact ⟨by simp [declarationsCode], hentries⟩
  | cons d ds ih =>
    have hnames := d.count_names entries n start
    simp only [declarationsCode, List.length_append] at hend
    have hfirst : start + (d.code entries n start).length ≤ limit := by omega
    have hd := Declaration.within hentries hcount hfirst
    have hbehind : (d.names n).count ≤ start + (d.code entries n start).length := by omega
    have hds := ih (Declaration.entries_within hentries hfirst) hbehind (by omega)
    exact ⟨List.forall_mem_append.mpr ⟨hd, hds.1⟩, hds.2⟩

end Within

/-- No whole number in the code of a program is above its length. -/
theorem Source.code_within (source : Source) : ∀ i ∈ source.code, i.Within source.code.length := by
  have hcount := declarations_count noEntries {} 1 source.declarations
  have hempty : Names.count {} = 0 := rfl
  have hlength : source.code.length = 1 + (declarationsCode noEntries {} 1 source.declarations).length +
      (source.statements.code (entriesBehind noEntries {} 1 source.declarations)
        (namesBehind {} source.declarations)
        (1 + (declarationsCode noEntries {} 1 source.declarations).length)).length + 1 := by
    simp only [Source.code, List.length_append, List.length_cons, List.length_nil]
    omega
  have hnone : EntriesWithin source.code.length noEntries := by simp [EntriesWithin, noEntries]
  have hbefore : 1 + (declarationsCode noEntries {} 1 source.declarations).length ≤ source.code.length := by
    omega
  have hbehind : (namesBehind {} source.declarations).count ≤
      1 + (declarationsCode noEntries {} 1 source.declarations).length := by omega
  obtain ⟨hds, hentries⟩ := declarations_within hnone (Nat.zero_le 1) hbefore
  have hb := source.statements.within hentries hbehind (by omega)
  intro i hi
  rw [Source.code] at hi
  rcases List.mem_append.mp hi with hi | hi
  · rcases List.mem_append.mp hi with hi | hi
    · rcases List.mem_cons.mp hi with rfl | hi
      · exact plain_within _
      · exact hds i hi
    · exact hb i hi
  · rw [List.mem_singleton.mp hi]
    exact plain_within _

namespace Source.Explains

variable {source : Source} {tokens : List Token} {p : Program}

theorem within (h : source.Explains tokens p) : ∀ i ∈ p, i.Within p.size := by
  intro i hi
  have hcode := source.code_within i (by rwa [← h.code, Array.mem_toList_iff])
  rwa [← h.code, Array.length_toList] at hcode

/-- The code of a program has known operations only. -/
theorem isListed (h : source.Explains tokens p) : ∀ i ∈ p, i.IsListed := by
  intro i hi
  obtain ⟨op, operand, rfl, -⟩ := h.within i hi
  exact ⟨op, operand, rfl⟩

/-- The code of a program can be written, unless it is longer than any number that can be read. -/
theorem writable (h : source.Explains tokens p) (hsize : p.size < Number.tenTo Number.digitLimit) :
    ∀ i ∈ p, i.Writable := by
  intro i hi
  obtain ⟨op, operand, rfl, hoperand⟩ := h.within i hi
  constructor
  · have hplain := op.isPlain_of_mem_word
    refine ⟨?_, fun c hc => isBlank_of_isPlain (hplain c hc)⟩
    cases op <;> simp [Instruction.of, Mnemonic.word, Opcode.word]
  · rintro (n | x) hx
    · have hn := hoperand n hx
      rw [Operand.Writable, Number.readInt?_toString, if_pos (by omega)]
    · trivial

end Source.Explains

end Grammar

end StackPrimer

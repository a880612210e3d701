import StackPrimer.Proofs.Grammar.Linking
import StackPrimer.Proofs.Machine.Turn
import StackPrimer.Proofs.Stretch

/-!
# What is on the stack at an address

How many temporaries the operand stack holds depends only on the address that the machine has come
to. A site says how many there are, whether a call has been begun whose arguments are being pushed,
and whether the address belongs to the code of a function. Sites are given to a piece of code as a
list beside it; the only thing about other pieces that it depends on are the sites at its targets.

Results:
* `Typed.append`: pieces with sites that meet can be put together.
* `Statement.typed`, `Block.typed`: behind a statement the stack is as high as in front of it.
* `exists_sites`: the code of a program can be given sites.
-/

namespace StackPrimer.Discipline

open Grammar

/-- What is known about the operand stack at an address. -/
inductive Site
  /-- There are so many temporaries; if arguments are being pushed, the return address of the call is
  under them. -/
  | within (inside : Bool) (pending : Option Nat) (depth : Nat)
  /-- A function is entered with so many arguments. -/
  | entry (arguments : Nat)
  deriving DecidableEq, Repr

/-- A place between two statements. -/
abbrev Site.between (inside : Bool) : Site := .within inside none 0

/-- The sites of addresses. -/
abbrev Sites := Nat → Option Site

/-- The instruction at address `a` takes what its site promises to what the sites of the addresses
behind it promise. -/
inductive Fits (sites : Sites) (a : Nat) : Instruction → Prop
  | start {inside pending depth} : sites a = some (.within inside pending depth) →
      sites (a + 1) = some (.within inside pending depth) → Fits sites a (plain .start)
  | halt : sites a = some (.between false) → sites (a + 1) = none → Fits sites a (plain .halt)
  | allocate {inside pending depth} : sites a = some (.within inside pending depth) →
      sites (a + 1) = some (.within inside pending depth) → Fits sites a (withInt .allocate 1)
  | constant {inside pending depth} (x : Float) : sites a = some (.within inside pending depth) →
      sites (a + 1) = some (.within inside pending (depth + 1)) →
      Fits sites a (.of .constant (some (.float x)))
  | load {inside pending depth} (scope : Scope) (n : Nat) :
      sites a = some (.within inside pending depth) →
      sites (a + 1) = some (.within inside pending (depth + 1)) →
      Fits sites a (withInt (Machine.loading scope) n)
  | read {inside pending depth} : sites a = some (.within inside pending depth) →
      sites (a + 1) = some (.within inside pending (depth + 1)) → Fits sites a (plain .read)
  | binary {inside pending depth} {op : Opcode} {f : Float → Float → Float} :
      op.binary? = some f → sites a = some (.within inside pending (depth + 2)) →
      sites (a + 1) = some (.within inside pending (depth + 1)) → Fits sites a (plain op)
  | store {inside pending depth} (scope : Scope) (n : Nat) :
      sites a = some (.within inside pending (depth + 1)) →
      sites (a + 1) = some (.within inside pending depth) →
      Fits sites a (withInt (Machine.storing scope) n)
  | print {inside pending depth} : sites a = some (.within inside pending (depth + 1)) →
      sites (a + 1) = some (.within inside pending depth) → Fits sites a (plain .print)
  | jump {inside pending depth} {target : Nat} : sites a = some (.within inside pending depth) →
      sites target = some (.within inside pending depth) → Fits sites a (withInt .jump target)
  | jumpIfZero {inside pending depth} {target : Nat} :
      sites a = some (.within inside pending (depth + 1)) →
      sites target = some (.within inside pending depth) →
      sites (a + 1) = some (.within inside pending depth) → Fits sites a (withInt .jumpIfZero target)
  | pushReturn {inside} {back : Nat} : sites a = some (.between inside) →
      sites (a + 1) = some (.within inside (some back) 0) →
      sites back = some (.between inside) → Fits sites a (withInt .pushReturn back)
  | call {inside} {arguments entry : Nat} :
      sites a = some (.within inside (some (a + 1)) arguments) →
      sites entry = some (.entry arguments) → Fits sites a (withInt .call entry)
  | enter {arguments : Nat} : sites a = some (.entry arguments) →
      sites (a + 1) = some (.within true none arguments) → Fits sites a (plain .enter)
  | leave : sites a = some (.between true) → Fits sites a (plain .leave)

/-- Functions are left inside of functions. -/
theorem Fits.leave_inside {sites : Sites} {a : Nat} (h : Fits sites a (plain .leave)) :
    sites a = some (.between true) := by
  generalize hi : plain .leave = i at h
  cases h with
  | leave ha => exact ha
  | load scope => cases scope <;> cases hi
  | store scope => cases scope <;> cases hi
  | binary hop =>
    obtain rfl : Opcode.leave = _ := by
      injection hi with hmnemonic
      injection hmnemonic
    cases hop
  | _ => cases hi

/-- There is something at a return address. -/
theorem Fits.exists_back {sites : Sites} {a back : Nat}
    (h : Fits sites a (withInt .pushReturn back)) : ∃ s, sites back = some s := by
  generalize hi : withInt .pushReturn back = i at h
  cases h with
  | pushReturn _ _ hback =>
    injection hi with _ hoperand
    injection hoperand with hoperand
    injection hoperand with hoperand
    rw [Int.ofNat_inj.mp hoperand]
    exact ⟨_, hback⟩
  | load scope => cases scope <;> cases hi
  | store scope => cases scope <;> cases hi
  | _ => cases hi

/-- Every instruction of the piece that begins at `start` fits. -/
def AllFit (sites : Sites) (start : Nat) (is : List Instruction) : Prop :=
  ∀ (j : Nat) (i : Instruction), is[j]? = some i → Fits sites (start + j) i

/-- The sites from `start` on are these. -/
def Placed (sites : Sites) (start : Nat) (ss : List Site) : Prop :=
  ∀ (j : Nat) (s : Site), ss[j]? = some s → sites (start + j) = some s

/-! ## Pieces side by side -/

section Append

variable {sites : Sites} {start : Nat}

theorem allFit_nil : AllFit sites start [] := by
  intro j i h
  simp at h

theorem allFit_singleton {i : Instruction} (h : Fits sites start i) : AllFit sites start [i] :=
  (forall_at_cons (P := Fits sites)).mpr ⟨h, allFit_nil⟩

theorem allFit_append {is js : List Instruction} (h : AllFit sites start is)
    (h' : AllFit sites (start + is.length) js) : AllFit sites start (is ++ js) :=
  (forall_at_append (P := Fits sites)).mpr ⟨h, h'⟩

variable {s : Site} {ss us : List Site}

theorem Placed.cons_iff :
    Placed sites start (s :: ss) ↔ sites start = some s ∧ Placed sites (start + 1) ss :=
  forall_at_cons (P := fun a s => sites a = some s)

theorem Placed.append_iff :
    Placed sites start (ss ++ us) ↔ Placed sites start ss ∧ Placed sites (start + ss.length) us :=
  forall_at_append (P := fun a s => sites a = some s)

theorem Placed.left (h : Placed sites start (ss ++ us)) : Placed sites start ss :=
  (append_iff.mp h).1

theorem Placed.right (h : Placed sites start (ss ++ us)) : Placed sites (start + ss.length) us :=
  (append_iff.mp h).2

theorem Placed.head (h : Placed sites start (s :: ss)) : sites start = some s := (cons_iff.mp h).1

theorem Placed.tail (h : Placed sites start (s :: ss)) : Placed sites (start + 1) ss :=
  (cons_iff.mp h).2

end Append

/-! ## Pieces with sites -/

/-- The piece of code at `start` can be given these sites, which begin with `e` and are left with
`e'`, if what is known of the sites of all addresses is `known`. -/
structure Sited (known : Sites → Prop) (start : Nat) (is : List Instruction) (ss : List Site)
    (e e' : Site) : Prop where
  length : ss.length = is.length
  head : (ss ++ [e']).head? = some e
  fits : ∀ sites, known sites → Placed sites start (ss ++ [e']) → AllFit sites start is

/-- The piece of code at `start` can be given sites. -/
def Typed (known : Sites → Prop) (start : Nat) (is : List Instruction) (e e' : Site) : Prop :=
  ∃ ss, Sited known start is ss e e'

variable {known known' : Sites → Prop} {start : Nat} {is js : List Instruction} {e e' e'' : Site}

namespace Sited

variable {ss us : List Site}

/-- The first site is the one in front of the piece. -/
theorem before_eq (h : Sited known start is ss e e') {sites : Sites}
    (hplaced : Placed sites start (ss ++ [e'])) : sites start = some e := by
  have hhead := h.head
  cases hss : ss ++ [e'] with
  | nil => simp at hss
  | cons s rest =>
    rw [hss] at hhead hplaced
    rw [← hhead]
    exact hplaced.head

theorem behind_eq (h : Sited known start is ss e e') {sites : Sites}
    (hplaced : Placed sites start (ss ++ [e'])) : sites (start + is.length) = some e' := by
  rw [← h.length]
  exact hplaced.right.head

/-- The sites in front of the point where two pieces meet are those of the first piece. -/
theorem placed_left (h' : Sited known (start + is.length) js us e' e'') {sites : Sites}
    (hlength : ss.length = is.length) (hplaced : Placed sites start (ss ++ us ++ [e''])) :
    Placed sites start (ss ++ [e']) := by
  rw [List.append_assoc] at hplaced
  have hright := hplaced.right
  rw [hlength] at hright
  have hmeet := h'.before_eq hright
  rw [← hlength] at hmeet
  exact Placed.append_iff.mpr ⟨hplaced.left, Placed.cons_iff.mpr ⟨hmeet, by simp [Placed]⟩⟩

/-- Pieces with sites that meet can be put together. -/
theorem append (h : Sited known start is ss e e')
    (h' : Sited known (start + is.length) js us e' e'') :
    Sited known start (is ++ js) (ss ++ us) e e'' where
  length := by simp [h.length, h'.length]
  head := by
    have hhead := h.head
    have hhead' := h'.head
    cases ss with
    | nil =>
      simp only [List.nil_append, List.head?_cons, Option.some.injEq] at hhead
      simpa [hhead] using hhead'
    | cons s ss => simpa using hhead
  fits := by
    intro sites hknown hplaced
    have hleft := h'.placed_left h.length hplaced
    rw [List.append_assoc] at hplaced
    have hright := hplaced.right
    rw [h.length] at hright
    exact allFit_append (h.fits sites hknown hleft) (h'.fits sites hknown hright)

end Sited

namespace Typed

theorem nil : Typed known start [] e e :=
  ⟨[], rfl, rfl, fun _ _ _ => allFit_nil⟩

theorem single {i : Instruction} (h : ∀ sites : Sites, known sites → sites start = some e →
    sites (start + 1) = some e' → Fits sites start i) : Typed known start [i] e e' := by
  refine ⟨[e], rfl, rfl, ?_⟩
  intro sites hknown hplaced
  exact allFit_singleton (h sites hknown hplaced.head hplaced.tail.head)

theorem append (h : Typed known start is e e') (h' : Typed known (start + is.length) js e' e'') :
    Typed known start (is ++ js) e e'' := by
  obtain ⟨ss, hs⟩ := h
  obtain ⟨us, hu⟩ := h'
  exact ⟨ss ++ us, hs.append hu⟩

/-- More may be known. -/
theorem mono (h : Typed known start is e e') (hk : ∀ sites, known' sites → known sites) :
    Typed known' start is e e' := by
  obtain ⟨ss, hs⟩ := h
  exact ⟨ss, hs.length, hs.head, fun sites hknown => hs.fits sites (hk sites hknown)⟩

/-- The site behind the piece may be known. -/
theorem behind (h : Typed (fun sites => known sites ∧ sites (start + is.length) = some e') start is
    e e') : Typed known start is e e' := by
  obtain ⟨ss, hs⟩ := h
  refine ⟨ss, hs.length, hs.head, ?_⟩
  intro sites hknown hplaced
  exact hs.fits sites ⟨hknown, hs.behind_eq hplaced⟩ hplaced

/-- The site in front of the piece may be known. -/
theorem before (h : Typed (fun sites => known sites ∧ sites start = some e) start is e e') :
    Typed known start is e e' := by
  obtain ⟨ss, hs⟩ := h
  refine ⟨ss, hs.length, hs.head, ?_⟩
  intro sites hknown hplaced
  exact hs.fits sites ⟨hknown, hs.before_eq hplaced⟩ hplaced

end Typed

/-! ## Expressions -/

theorem AddSign.exists_binary (s : AddSign) : ∃ f, s.opcode.binary? = some f := by
  cases s <;> exact ⟨_, rfl⟩

theorem MulSign.exists_binary (s : MulSign) : ∃ f, s.opcode.binary? = some f := by
  cases s <;> exact ⟨_, rfl⟩

theorem Comparison.exists_binary (s : Comparison) : ∃ f, s.opcode.binary? = some f := by
  cases s <;> exact ⟨_, rfl⟩

variable {n : Names} {inside : Bool} {pending : Option Nat}

theorem Typed.binary {op : Opcode} (hop : ∃ f, op.binary? = some f) {depth : Nat} :
    Typed known start [plain op] (.within inside pending (depth + 2))
      (.within inside pending (depth + 1)) := by
  obtain ⟨f, hf⟩ := hop
  exact .single fun sites _ => .binary hf

/-- An expression leaves one more temporary. -/
theorem Expr.typed {l : Level} (e : Expr l) (h : e.Scoped n) :
    ∀ {start depth : Nat}, Typed known start (e.code n) (.within inside pending depth)
      (.within inside pending (depth + 1)) := by
  induction e with
  | input => exact .single fun sites _ => .read
  | ofSum e ih => exact ih h
  | ofTerm e ih => exact ih h
  | add left s right ihl ihr =>
    exact ((ihl h.1).append (ihr h.2)).append (.binary (AddSign.exists_binary s))
  | ofFactor e ih => exact ih h
  | multiply left s right ihl ihr =>
    exact ((ihl h.1).append (ihr h.2)).append (.binary (MulSign.exists_binary s))
  | name x =>
    intro start depth
    obtain ⟨scope, hscope⟩ := Option.isSome_iff_exists.mp h
    rw [Expr.code, Machine.load_eq hscope]
    exact .single fun sites _ => .load scope _
  | number x => exact .single fun sites _ => .constant x.value
  | group e ih => exact ih h

theorem Condition.typed (c : Condition) (h : c.Scoped n) {depth : Nat} :
    Typed known start (c.code n) (.within inside pending depth)
      (.within inside pending (depth + 1)) :=
  ((Expr.typed c.left h.1).append (Expr.typed c.right h.2)).append
    (.binary (Comparison.exists_binary c.comparison))

/-- Arguments leave one temporary each. -/
theorem argumentsCode_typed {arguments : List Expression} (h : ∀ e ∈ arguments, e.Scoped n) :
    ∀ {start depth : Nat}, Typed known start (argumentsCode n arguments)
      (.within inside pending depth) (.within inside pending (depth + arguments.length)) := by
  induction arguments with
  | nil =>
    intro start depth
    exact .nil
  | cons e rest ih =>
    intro start depth
    rw [List.forall_mem_cons] at h
    have hrest : Typed known (start + (e.code n).length) (argumentsCode n rest)
        (.within inside pending (depth + 1))
        (.within inside pending (depth + 1 + rest.length)) := ih h.2
    rw [show depth + (e :: rest).length = depth + 1 + rest.length by simp; omega]
    exact (Expr.typed e h.1).append hrest

/-! ## Statements -/

/-- The functions that may be called are entered with as many arguments as they have parameters. -/
def Entered (functions : List String) (entries : Entries) (arity : String → Option Nat)
    (sites : Sites) : Prop :=
  ∀ f ∈ functions, ∀ entry arguments, entries f = some entry → arity f = some arguments →
    sites entry = some (.entry arguments)

section Statements

variable {functions : List String} {entries : Entries} {arity : String → Option Nat}

theorem Typed.jump {target : Nat} (inside : Bool) (e : Site)
    (h : ∀ sites, known sites → sites target = some (.between inside)) :
    Typed known start [withInt .jump target] (.between inside) e :=
  .single fun sites hknown ha _ => .jump ha (h sites hknown)

theorem Typed.jumpIfZero {target : Nat}
    (h : ∀ sites, known sites → sites target = some (.between inside)) :
    Typed known start [withInt .jumpIfZero target] (.within inside none 1) (.between inside) :=
  .single fun sites hknown ha ha' => .jumpIfZero ha (h sites hknown) ha'

/-- A piece behind a test and the jump that leads away if it fails. -/
theorem Typed.tested {test first : List Instruction} {target : Nat}
    (ht : Typed known start test (.between inside) (.within inside none 1))
    (htarget : ∀ sites, known sites → sites target = some (.between inside))
    (hf : Typed known (start + test.length + 1) first (.between inside) (.between inside)) :
    Typed known start (test ++ withInt .jumpIfZero target :: first)
      (.between inside) (.between inside) := by
  have hlength : start + (test ++ [withInt .jumpIfZero target]).length =
      start + test.length + 1 := by
    simp
    omega
  rw [List.append_cons]
  refine (ht.append (.jumpIfZero htarget)).append ?_
  rwa [hlength]

/-- A piece that is jumped over if the test fails. -/
theorem Typed.choice {test first : List Instruction}
    (ht : ∀ known, Typed known start test (.between inside) (.within inside none 1))
    (hf : Typed known (start + test.length + 1) first (.between inside) (.between inside)) :
    Typed known start
      (test ++ withInt .jumpIfZero (start + test.length + 1 + first.length) :: first)
      (.between inside) (.between inside) := by
  refine .behind (.tested (ht _) ?_ (hf.mono fun sites hknown => hknown.1))
  intro sites hknown
  rw [length_tested] at hknown
  exact hknown.2

/-- Two pieces of which one is executed. -/
theorem Typed.alternative {test first second : List Instruction} {middle : Nat}
    (hmiddle : middle = start + test.length + 1 + first.length + 1)
    (ht : ∀ known, Typed known start test (.between inside) (.within inside none 1))
    (hf : Typed known (start + test.length + 1) first (.between inside) (.between inside))
    (hs : Typed known middle second (.between inside) (.between inside)) :
    Typed known start
      (test ++ withInt .jumpIfZero middle :: first ++
        withInt .jump (middle + second.length) :: second)
      (.between inside) (.between inside) := by
  set target := middle + second.length with htarget
  set upper := test ++ withInt .jumpIfZero middle :: first ++ [withInt .jump target] with hupper
  have hcode : test ++ withInt .jumpIfZero middle :: first ++ withInt .jump target :: second =
      upper ++ second := by simp [hupper]
  have hlength : start + upper.length = middle := by
    simp [hupper]
    omega
  have hend : start + (upper ++ second).length = target := by
    simp
    omega
  have hupperTyped : Typed (fun sites => known sites ∧ sites target = some (.between inside)) start
      upper (.between inside) (.between inside) := by
    refine .behind (.append (.tested (ht _) ?_ (hf.mono fun sites hknown => hknown.1.1))
      (.jump inside _ fun sites hknown => hknown.1.2))
    intro sites hknown
    rw [← hlength]
    exact hknown.2
  rw [hcode]
  refine .behind ?_
  rw [hend]
  refine hupperTyped.append ?_
  rw [hlength]
  exact hs.mono fun sites hknown => hknown.1

/-- A piece after which the test comes again. -/
theorem Typed.loop {test body : List Instruction}
    (ht : ∀ known, Typed known start test (.between inside) (.within inside none 1))
    (hb : Typed known (start + test.length + 1) body (.between inside) (.between inside)) :
    Typed known start
      (test ++ withInt .jumpIfZero (start + test.length + 1 + body.length + 1) :: body ++
        [withInt .jump start])
      (.between inside) (.between inside) := by
  set target := start + test.length + 1 + body.length + 1 with htarget
  have hlength : start + (test ++ withInt .jumpIfZero target :: body ++
      [withInt .jump start]).length = target := by
    simp
    omega
  refine .before (.behind (.append (.tested (ht _) ?_ (hb.mono fun sites hknown => hknown.1.1))
    (.jump inside _ fun sites hknown => hknown.1.2)))
  intro sites hknown
  rw [← hlength]
  exact hknown.2

theorem call_typed {f : String} {arguments : List Expression}
    (hs : (Statement.call f arguments).Scoped functions n)
    (hc : (Statement.call f arguments).CallsMatch arity) (hf : ∃ entry, entries f = some entry) :
    Typed (Entered functions entries arity) start
      ((Statement.call f arguments).code entries n start) (.between inside) (.between inside) := by
  obtain ⟨entry, hentry⟩ := hf
  rw [Statement.Scoped] at hs
  rw [Statement.CallsMatch] at hc
  set values := argumentsCode n arguments with hvalues
  set back := start + values.length + 2 with hback
  have hcode : (Statement.call f arguments).code entries n start =
      [withInt .pushReturn back] ++ values ++ [withInt .call entry] := by
    simp [Statement.code, hentry, hback, hvalues]
  have hlength : start + ([withInt .pushReturn back] ++ values ++ [withInt .call entry]).length =
      back := by
    simp
    omega
  have hcall : start + ([withInt .pushReturn back] ++ values).length + 1 = back := by
    simp
    omega
  have hpush : Typed (fun sites => Entered functions entries arity sites ∧
      sites back = some (.between inside)) start [withInt .pushReturn back] (.between inside)
      (.within inside (some back) 0) :=
    .single fun sites hknown ha ha' => .pushReturn ha ha' hknown.2
  have hvaluesTyped : Typed (fun sites => Entered functions entries arity sites ∧
      sites back = some (.between inside)) (start + [withInt .pushReturn back].length) values
      (.within inside (some back) 0) (.within inside (some back) arguments.length) := by
    rw [← Nat.zero_add arguments.length]
    exact argumentsCode_typed hs.2
  rw [hcode]
  refine .behind ?_
  rw [hlength]
  refine (hpush.append hvaluesTyped).append (.single fun sites hknown ha _ => ?_)
  rw [← hcall] at ha
  exact .call ha (hknown.1 f hs.1 entry arguments.length hentry hc)

mutual

/-- Behind a statement the stack is as high as in front of it. -/
theorem Statement.typed (hf : ∀ f ∈ functions, ∃ entry, entries f = some entry) :
    ∀ {s : Statement} {n : Names} {start : Nat}, s.Scoped functions n → s.CallsMatch arity →
      Typed (Entered functions entries arity) start (s.code entries n start) (.between inside)
        (.between inside)
  | .print e, n, start, hs, _ => by
    rw [Statement.Scoped] at hs
    exact (Expr.typed e hs).append (.single fun sites _ => .print)
  | .assign x e, n, start, hs, _ => by
    rw [Statement.Scoped] at hs
    rw [Statement.code, Machine.store_eq]
    refine .append (.append ?_ (Expr.typed e hs)) (.single fun sites _ => .store _ _)
    unfold Names.reserve
    split
    · exact .nil
    · exact .single fun sites _ => .allocate
  | .call f arguments, n, start, hs, hc => by
    have hentry : ∃ entry, entries f = some entry := by
      rw [Statement.Scoped] at hs
      exact hf f hs.1
    exact call_typed hs hc hentry
  | .choice c yes, n, start, hs, hc => by
    rw [Statement.Scoped] at hs
    rw [Statement.CallsMatch] at hc
    exact .choice (fun _ => Condition.typed c hs.1) (Block.typed hf hs.2 hc)
  | .alternative c yes no, n, start, hs, hc => by
    rw [Statement.Scoped] at hs
    rw [Statement.CallsMatch] at hc
    exact .alternative rfl (fun _ => Condition.typed c hs.1) (Block.typed hf hs.2.1 hc.1)
      (Block.typed hf hs.2.2 hc.2)
  | .loop c body, n, start, hs, hc => by
    rw [Statement.Scoped] at hs
    rw [Statement.CallsMatch] at hc
    exact .loop (fun _ => Condition.typed c hs.1) (Block.typed hf hs.2 hc)

/-- The same for statements one after the other. -/
theorem Block.typed (hf : ∀ f ∈ functions, ∃ entry, entries f = some entry) :
    ∀ {b : Block} {n : Names} {start : Nat}, b.Scoped functions n → b.CallsMatch arity →
      Typed (Entered functions entries arity) start (b.code entries n start) (.between inside)
        (.between inside)
  | .nil, n, start, _, _ => .nil
  | .cons s rest, n, start, hb, hc => by
    rw [Block.Scoped] at hb
    rw [Block.CallsMatch] at hc
    exact (Statement.typed hf hb.1 hc.1).append (Block.typed hf hb.2 hc.2)

end

/-! ## Functions -/

/-- Storing takes one temporary each. -/
theorem stores_typed (addresses : List Nat) :
    ∀ {start depth : Nat}, Typed known start (addresses.map fun a => withInt .storeLocal a)
      (.within inside pending (depth + addresses.length)) (.within inside pending depth) := by
  induction addresses with
  | nil =>
    intro start depth
    exact .nil
  | cons a rest ih =>
    intro start depth
    have hstore : Typed known start [withInt .storeLocal a]
        (.within inside pending (depth + rest.length + 1))
        (.within inside pending (depth + rest.length)) :=
      .single fun sites _ => .store .function a
    exact hstore.append ih

/-- A function is entered with its arguments on the stack and left with nothing but the return
address. -/
theorem Definition.typed {d : Definition} (hf : ∀ f ∈ functions, ∃ entry, entries f = some entry)
    (hs : d.body.Scoped functions d.inside) (hc : d.body.CallsMatch arity) (e : Site) :
    Typed (Entered functions entries arity) start (d.code entries start)
      (.entry d.parameters.length) e := by
  have henter : Typed (Entered functions entries arity) start [plain .enter]
      (.entry d.parameters.length) (.within true none d.parameters.length) :=
    .single fun sites _ => .enter
  have hstores : Typed (Entered functions entries arity) (start + 1)
      (parametersCode d.inside d.parameters) (.within true none d.parameters.length)
      (.between true) := by
    have h : Typed (Entered functions entries arity) (start + 1)
        ((d.parameters.reverse.map fun x => d.inside.address .function x).map fun a =>
          withInt .storeLocal a) _ (.within true none 0) := stores_typed _
    simpa [parametersCode, Function.comp_def] using h
  have hlength : start + ([plain .enter] ++ parametersCode d.inside d.parameters).length =
      start + 1 + d.parameters.length := by
    simp [parametersCode]
    omega
  have hbody := (henter.append hstores).append (by
    rw [hlength]
    exact Block.typed hf hs hc)
  exact hbody.append (.single fun sites _ ha _ => .leave ha)

/-- The code of a function with the jump around it has sites, one of which is its entry. -/
theorem Definition.sited (start : Nat) {d : Definition}
    (hf : ∀ f ∈ functions, ∃ entry, entries f = some entry)
    (hs : d.body.Scoped functions d.inside) (hc : d.body.CallsMatch arity) :
    ∃ ss, Sited (Entered functions entries arity) start
        (withInt .jump (start + 1 + (d.code entries (start + 1)).length) :: d.code entries (start + 1))
        ss (.between false) (.between false) ∧
      ∀ sites, Placed sites start ss → sites (start + 1) = some (.entry d.parameters.length) := by
  have hcode : Typed (Entered functions entries arity) (start + 1) (d.code entries (start + 1))
      (.entry d.parameters.length) (.between false) := Definition.typed hf hs hc _
  obtain ⟨ss, hss⟩ := hcode
  obtain ⟨rest, rfl⟩ : ∃ rest, ss = .entry d.parameters.length :: rest := by
    have hhead := hss.head
    cases ss with
    | nil =>
      have hlength := hss.length
      simp [Definition.code] at hlength
    | cons s rest =>
      simp only [List.cons_append, List.head?_cons, Option.some.injEq] at hhead
      exact ⟨rest, by rw [hhead]⟩
  refine ⟨.between false :: .entry d.parameters.length :: rest, ⟨?_, rfl, ?_⟩, ?_⟩
  · simpa using hss.length
  · intro sites hknown hplaced
    have hbehind := hss.behind_eq hplaced.tail
    rw [← List.singleton_append]
    exact allFit_append (allFit_singleton (.jump hplaced.head hbehind))
      (hss.fits sites hknown hplaced.tail)
  · intro sites hplaced
    exact hplaced.tail.head

/-- The code of declarations has sites, among which those of the functions are entries. -/
theorem Listed.sited {defs : Definitions} {ds : List Declaration}
    (h : Listed functions entries defs n start ds is)
    (hf : ∀ f ∈ functions, ∃ entry, entries f = some entry)
    (hc : ∀ d ∈ ds, d.CallsMatch defs.arity) :
    ∃ ss, Sited (Entered functions entries defs.arity) start is ss (.between false)
        (.between false) ∧
      ∀ sites, Placed sites start ss → ∀ f parameters body, .define f parameters body ∈ ds →
        ∃ entry, entries f = some entry ∧ defs.arity f = some parameters.length ∧
          sites entry = some (.entry parameters.length) := by
  induction h with
  | nil =>
    refine ⟨[], ⟨rfl, rfl, fun _ _ _ => allFit_nil⟩, ?_⟩
    intro sites _ f parameters body hmem
    cases hmem
  | @assign n start x e ds is rest he his hrest ih =>
    rw [List.forall_mem_cons] at hc
    obtain ⟨us, hsited, hentries⟩ := ih hc.2
    have hfirst : Typed (Entered functions entries defs.arity) start is (.between false)
        (.between false) := by
      rw [his, Machine.store_eq]
      have hallocate : Typed (Entered functions entries defs.arity) start [withInt .allocate 1]
          (.between false) (.between false) := .single fun sites _ => .allocate
      exact (hallocate.append (Expr.typed e he)).append (.single fun sites _ => .store _ _)
    obtain ⟨ss, hss⟩ := hfirst
    refine ⟨ss ++ us, hss.append hsited, ?_⟩
    intro sites hplaced f parameters body hmem
    have hright := hplaced.right
    rw [hss.length] at hright
    exact hentries sites hright f parameters body (by simpa using hmem)
  | @define n start f parameters body ds is rest hdef hentry hbody his hrest ih =>
    rw [List.forall_mem_cons] at hc
    obtain ⟨us, hsited, hentries⟩ := ih hc.2
    have hmatch : Block.CallsMatch defs.arity body := hc.1
    obtain ⟨ss, hss, hfirst⟩ :=
      Definition.sited start (d := ⟨parameters, body, n.enter parameters⟩) hf hbody hmatch
    rw [← his] at hss
    refine ⟨ss ++ us, hss.append hsited, ?_⟩
    intro sites hplaced g parameters' body' hmem
    rcases List.mem_cons.mp hmem with heq | hmem
    · cases heq
      exact ⟨start + 1, hentry, by simp [Definitions.arity, hdef], hfirst sites hplaced.left⟩
    · have hright := hplaced.right
      rw [hss.length] at hright
      exact hentries sites hright g parameters' body' hmem

end Statements

/-! ## Programs -/

/-- All instructions of the code fit, and the sites are those of its addresses. -/
structure WellSited (sites : Sites) (is : List Instruction) : Prop where
  start : sites 0 = some (.between false)
  bound : ∀ a s, sites a = some s → a < is.length
  total : ∀ a, a < is.length → ∃ s, sites a = some s
  fits : AllFit sites 0 is

theorem exists_define {functions : List String} {ds : List Declaration} {f : String}
    (h : f ∈ functionsBehind functions ds) (hf : f ∉ functions) :
    ∃ parameters body, .define f parameters body ∈ ds := by
  induction ds generalizing functions with
  | nil => exact absurd h hf
  | cons d ds ih =>
    cases d with
    | assign x e =>
      obtain ⟨parameters, body, hmem⟩ := ih h hf
      exact ⟨parameters, body, List.mem_cons_of_mem _ hmem⟩
    | define g parameters body =>
      by_cases hg : f = g
      · subst hg
        exact ⟨parameters, body, List.mem_cons_self ..⟩
      · have hf' : f ∉ functions ++ [g] := by simp [hf, hg]
        obtain ⟨parameters', body', hmem⟩ := ih h hf'
        exact ⟨parameters', body', List.mem_cons_of_mem _ hmem⟩

/-- The entry of a function behind its declaration. -/
theorem exists_entry {functions : List String} {entries : Entries} {defs : Definitions} {n : Names}
    {start : Nat} {ds : List Declaration} {is : List Instruction}
    (h : Listed functions entries defs n start ds is) {f : String} {parameters : List String}
    {body : Block} (hmem : .define f parameters body ∈ ds) : ∃ entry, entries f = some entry := by
  induction h with
  | nil => cases hmem
  | assign _ _ _ ih => exact ih (by simpa using hmem)
  | @define n start g parameters' body' ds is rest hdef hentry _ _ _ ih =>
    rcases List.mem_cons.mp hmem with heq | hmem
    · cases heq
      exact ⟨start + 1, hentry⟩
    · exact ih hmem

/-- A piece with sites that fulfil what is to be known of them, and the instruction that stops the
machine behind it. -/
theorem wellSited_of_sited {known : Sites → Prop} {is : List Instruction} {ss : List Site}
    (h : Sited known 0 is ss (.between false) (.between false))
    (hknown : ∀ sites, Placed sites 0 (ss ++ [.between false]) → known sites) :
    ∃ sites, WellSited sites (is ++ [plain .halt]) := by
  set all := ss ++ [.between false] with hall
  have hlength : all.length = is.length + 1 := by simp [hall, h.length]
  have hplaced : Placed (fun a => all[a]?) 0 all := by
    intro j s hj
    simpa using hj
  refine ⟨fun a => all[a]?, h.before_eq hplaced, ?_, ?_, ?_⟩
  · intro a s ha
    have hlt := (List.getElem?_eq_some_iff.mp ha).1
    rw [List.length_append, List.length_singleton]
    omega
  · intro a ha
    rw [List.length_append, List.length_singleton] at ha
    exact ⟨all[a], List.getElem?_eq_getElem (by omega)⟩
  · refine allFit_append (h.fits _ (hknown _ hplaced) hplaced) (allFit_singleton (.halt ?_ ?_))
    · exact h.behind_eq hplaced
    · rw [List.getElem?_eq_none_iff]
      omega

/-- The code of a program can be given sites. -/
theorem exists_sites {source : Grammar.Source} (hs : source.Scoped) (hc : source.CallsMatch) :
    ∃ sites, WellSited sites source.code := by
  have hlisted := Grammar.Source.listed hs
  set functions := functionsBehind [] source.declarations
  set first := declarationsCode noEntries {} 1 source.declarations
  set second := source.statements.code source.entries source.names (1 + first.length)
  set known := Entered functions source.entries source.definitions.arity
  have hf : ∀ f ∈ functions, ∃ entry, source.entries f = some entry := by
    intro f hmem
    obtain ⟨parameters, body, hdefine⟩ := exists_define hmem (by simp)
    exact exists_entry hlisted hdefine
  obtain ⟨ss, hsited, hentries⟩ := Listed.sited hlisted hf hc.1
  have hstatements : Typed known (1 + first.length) second (.between false) (.between false) :=
    Block.typed hf hs.2 hc.2
  obtain ⟨us, hus⟩ := hstatements
  have hstart : Sited known 0 [plain .start] [.between false] (.between false) (.between false) :=
    ⟨rfl, rfl, fun sites _ hplaced =>
      allFit_singleton (.start hplaced.head hplaced.tail.head)⟩
  have hmain : Sited known 0 ([plain .start] ++ first ++ second) ([.between false] ++ ss ++ us)
      (.between false) (.between false) :=
    (hstart.append hsited).append (by simpa [Nat.add_comm] using hus)
  refine wellSited_of_sited hmain ?_
  intro sites hplaced f hmem entry arguments hentry harity
  obtain ⟨parameters, body, hdefine⟩ := exists_define hmem (by simp)
  obtain ⟨entry', hentry', harity', hsite⟩ :=
    hentries sites hplaced.left.left.right f parameters body hdefine
  rw [hentry', Option.some.injEq] at hentry
  rw [harity', Option.some.injEq] at harity
  rw [← hentry, ← harity]
  exact hsite

end StackPrimer.Discipline

import StackPrimer.Proofs.Simulation.Expression

/-!
# Statements on the machine

Where carrying out a statement leads from one store to another, its code leads from a machine that
agrees with the first to one that agrees with the second, behind the code. The stack, the frame and
the saved frames are then as before, and so is memory in front of the frame; when a function is left,
memory is cut off at its frame, and is again what it was when the function was entered.

The induction is on the number of steps that the tree may take, which goes down at a call and at each
round of a loop.

Results:
* `Ready.called`: a function that is called comes back with memory as it was.
* `carried`: statements and blocks are carried out alike.
-/

namespace StackPrimer.Simulation

open Grammar

/-! ## Going on -/

/-- From this machine on, there is always enough memory. -/
def Roomy (m : Machine) : Prop :=
  ∀ m', m.Reaches m' → m'.running = true → ∀ address m'', m'.step ≠ .error (.beyondMemory address) m''

theorem Roomy.of_reaches {m m' : Machine} (h : Roomy m) (hreaches : m.Reaches m') : Roomy m' :=
  fun m'' hreaches' => h m'' (hreaches.trans hreaches')

/-- The machine has come to the address and agrees with the store. -/
structure Ready (p : Program) (G : List String) (fin : Names) (σ : Store) (m : Machine) (a : Nat) :
    Prop where
  running : m.running = true
  ip : m.ip = a
  program : m.program = p
  roomy : Roomy m
  agrees : Agrees G fin σ m

/-- The machine gets from one store to the other. -/
structure Follows (p : Program) (G : List String) (fin : Names) (σ σ' : Store) (m m' : Machine)
    (target : Nat) (stack : List Float) : Prop where
  reaches : m.Reaches m'
  ready : Ready p G fin σ' m' target
  stack : m'.stack = stack
  frame : m'.frame = m.frame
  calls : m'.calls = m.calls
  below : m'.memory.take m.frame = m.memory.take m.frame
  /-- A function does not assign variables of the program. -/
  globals : fin.home = .function → σ'.globals = σ.globals

variable {p : Program} {G : List String} {n fin : Names} {σ σ' σ'' : Store} {m m' m'' : Machine}
variable {a b c : Nat} {stack stack' : List Float}

theorem Follows.trans (h : Follows p G fin σ σ' m m' a stack)
    (h' : Follows p G fin σ' σ'' m' m'' b stack') : Follows p G fin σ σ'' m m'' b stack' where
  reaches := h.reaches.trans h'.reaches
  ready := h'.ready
  stack := h'.stack
  frame := h'.frame.trans h.frame
  calls := h'.calls.trans h.calls
  below := by
    have hbelow := h'.below
    rw [h.frame] at hbelow
    exact hbelow.trans h.below
  globals hhome := (h'.globals hhome).trans (h.globals hhome)

namespace Ready

theorem at_code (h : Ready p G fin σ m a) {is : List Instruction} (hcode : CodeAt p a is) :
    At m a is :=
  ⟨h.running, h.ip, by rw [h.program]; exact hcode⟩

theorem instruction? (h : Ready p G fin σ m a) {i : Instruction} (hi : p[a]? = some i) :
    m.instruction? = some i := by
  rw [Machine.instruction?_eq h.ip, h.program, hi]

theorem refl (h : Ready p G fin σ m a) : Follows p G fin σ σ m m a m.stack :=
  ⟨.refl, h, rfl, rfl, rfl, rfl, fun _ => rfl⟩

/-- One instruction. -/
theorem step (h : Ready p G fin σ m a) {i : Instruction} (hi : p[a]? = some i)
    (hexecute : Machine.execute i m = .ok () m') (hip : m'.ip = b)
    (hsame : m'.program = m.program ∧ m'.running = m.running ∧ m'.frame = m.frame ∧
      m'.calls = m.calls)
    (hbelow : m'.memory.take m.frame = m.memory.take m.frame) (hagrees : Agrees G fin σ' m')
    (hglobals : fin.home = .function → σ'.globals = σ.globals) :
    Follows p G fin σ σ' m m' b m'.stack := by
  obtain ⟨hprogram, hrunning, hframe, hcalls⟩ := hsame
  have hreaches : m.Reaches m' :=
    .single (Machine.turns_of_execute h.running (h.instruction? hi) hexecute)
  exact ⟨hreaches, ⟨hrunning.trans h.running, hip, hprogram.trans h.program,
    h.roomy.of_reaches hreaches, hagrees⟩, rfl, hframe, hcalls, hbelow, hglobals⟩

/-- One instruction that leaves everything but the stack alone. -/
theorem goOn (h : Ready p G fin σ m a) {i : Instruction} (hi : p[a]? = some i) {ip : Int}
    (hexecute : Machine.execute i m = .ok () { m with stack, ip }) (hip : ip = b) :
    Follows p G fin σ σ m { m with stack, ip } b stack :=
  h.step hi hexecute hip ⟨rfl, rfl, rfl, rfl⟩ rfl h.agrees.goOn fun _ => rfl

/-- Values that are pushed. -/
theorem pushes (h : Ready p G fin σ m a) {values : List Float} (hpushes : Pushes σ σ' m values b) :
    ∃ m', Follows p G fin σ σ' m m' b (values ++ m.stack) := by
  obtain ⟨input, hreaches, hwords, hσ⟩ := hpushes
  have hagrees : Agrees G fin σ' { m with stack := values ++ m.stack, ip := (b : Int), input } := by
    rw [hσ]
    exact h.agrees.read hwords
  refine ⟨_, hreaches, ⟨h.running, rfl, h.program, h.roomy.of_reaches hreaches, hagrees⟩, rfl, rfl,
    rfl, rfl, fun _ => ?_⟩
  rw [hσ]

/-- A test that fails goes on at the target, and one that holds behind the jump. -/
theorem jumpIfZero (h : Ready p G fin σ m a) {target : Nat}
    (hi : p[a]? = some (withInt .jumpIfZero target)) {holds : Bool}
    (hstack : m.stack = (if holds then 1 else 0) :: stack) :
    ∃ m', Follows p G fin σ σ m m' (if holds then a + 1 else target) stack := by
  have hexecute := Machine.execute_jumpIfZero m target hstack
  cases holds with
  | false =>
    have hzero : ((if false then 1 else 0 : Float) == 0) = true := by decide
    rw [if_pos hzero] at hexecute
    exact ⟨_, h.goOn hi hexecute rfl⟩
  | true =>
    have hone : ¬ ((if true then 1 else 0 : Float) == 0) = true := by decide
    rw [if_neg hone, h.ip] at hexecute
    exact ⟨_, h.goOn hi hexecute rfl⟩

theorem jump (h : Ready p G fin σ m a) {target : Nat} (hi : p[a]? = some (withInt .jump target)) :
    ∃ m', Follows p G fin σ σ m m' target m.stack :=
  ⟨_, h.goOn hi (Machine.execute_jump m target) rfl⟩

theorem print (h : Ready p G fin σ m a) (hi : p[a]? = some (plain .print)) {v : Float}
    (hstack : m.stack = v :: stack) (hprint : Meaning.print v σ = .ok () σ') :
    ∃ m', Follows p G fin σ σ' m m' (a + 1) stack := by
  injection hprint with _ hσ
  subst hσ
  refine ⟨_, h.step hi (Machine.execute_print m hstack) ?_ ⟨rfl, rfl, rfl, rfl⟩ rfl ?_ fun _ => rfl⟩
  · change m.ip + 1 = _
    rw [h.ip]
    rfl
  · exact h.agrees.print _

/-- Reserving a cell changes nothing for the store. -/
theorem allocate (h : Ready p G fin σ m a) (hi : p[a]? = some (withInt .allocate 1)) :
    ∃ m', Follows p G fin σ σ m m' (a + 1) m.stack := by
  have hexecute := Machine.execute_allocate m
  split at hexecute
  · have hstep := (Machine.step_eq (h.instruction? hi)).trans hexecute
    exact absurd hstep (h.roomy m .refl h.running _ _)
  · refine ⟨{ m with memory := m.memory.push 0.0, ip := m.ip + 1 }, h.step hi hexecute ?_
      ⟨rfl, rfl, rfl, rfl⟩ ?_ (h.agrees.reserve 0.0) fun _ => rfl⟩
    · change m.ip + 1 = _
      rw [h.ip]
      rfl
    · exact Machine.take_push h.agrees.fits

/-- Storing into the cell of a variable is assigning it. -/
theorem store (h : Ready p G fin σ m a) (hn : n.Le fin) (hG : fin.globals <+: G) {x : String}
    (hx : x ∈ n.inScope n.home) (hi : p[a]? = some (n.store x)) {v : Float}
    (hstack : m.stack = v :: stack) (hassign : Meaning.assign n.home x v σ = .ok () σ') :
    ∃ m', Follows p G fin σ σ' m m' (a + 1) stack := by
  rw [Machine.store_eq] at hi
  have hexecute := Machine.execute_store m n.home (n.address n.home x) hstack
  split at hexecute
  · have hstep := (Machine.step_eq (h.instruction? hi)).trans hexecute
    exact absurd hstep (h.roomy m .refl h.running _ _)
  · have hframe : m.frame ≤ m.cell n.home (n.address n.home x) := by
      cases hhome : n.home with
      | global =>
        rw [h.agrees.outside (by rw [← hn.home, hhome])]
        exact Nat.zero_le _
      | function => exact Nat.le_add_right ..
    refine ⟨_, h.step hi hexecute ?_ ⟨rfl, rfl, rfl, rfl⟩ (Machine.take_written hframe h.agrees.fits)
      (h.agrees.assign hn hG hx hassign) ?_⟩
    · change m.ip + 1 = _
      rw [h.ip]
      rfl
    · intro hfunction
      rw [hn.home, hfunction] at hassign
      injection hassign with _ hσ
      rw [← hσ]

end Ready

/-! ## Calls -/

/-- A function stands at its entry. -/
structure InPlace (p : Program) (G : List String) (entries : Entries) (arity : String → Option Nat)
    (d : Definition) (entry : Nat) : Prop where
  code : CodeAt p entry (d.code entries entry)
  home : d.inside.home = .function
  parameters : ∀ x ∈ d.parameters, x ∈ d.inside.inner
  globals : (d.body.names d.inside).globals <+: G
  callsMatch : d.body.CallsMatch arity

/-- At the beginning of a function no variable of its own has a value, and all those of the program
that have one lie in front of the frame. -/
theorem Agrees.enter {fin' : Names} (h : Agrees G fin σ m) (hhome : fin'.home = .function) {ip : Int} :
    Agrees G fin' { σ with locals := fun _ => none }
      { m with calls := m.frame :: m.calls, frame := m.memory.size, ip } where
  globals := h.globals
  locals x v hv := by cases hv
  apart _ x v hv := (Array.getElem?_eq_some_iff.mp (h.globals x v hv).2).1
  outside hglobal := by
    rw [hhome] at hglobal
    cases hglobal
  fits := Nat.le_refl _
  words := h.words
  printed := h.printed

/-- With memory as it was in front of the call, the caller's variables are back. -/
theorem Agrees.leave {fin' : Names} (h : Agrees G fin σ m) (h' : Agrees G fin' σ' m')
    (hglobals : σ'.globals = σ.globals) {stack : List Float} {calls : List Nat} {ip : Int} :
    Agrees G fin { σ' with locals := σ.locals }
      { m' with stack, calls, ip, memory := m.memory, frame := m.frame } where
  globals x v hv := h.globals x v (by rw [← hglobals]; exact hv)
  locals := h.locals
  apart hhome x v hv := h.apart hhome x v (by rw [← hglobals]; exact hv)
  outside := h.outside
  fits := h.fits
  words := h'.words
  printed := h'.printed

/-- Storing values one after the other assigns them in that order. -/
theorem Ready.stores (hn : n.Le fin) (hG : fin.globals <+: G) (hhome : n.home = .function)
    {rs : List (String × Float)} (hrs : ∀ r ∈ rs, r.1 ∈ n.inner) :
    ∀ {σ : Store} {m : Machine} {a : Nat}, Ready p G fin σ m a →
      CodeAt p a (rs.map fun r => withInt .storeLocal (n.address .function r.1)) →
        m.stack = rs.map Prod.snd ++ stack →
          ∃ m', Follows p G fin σ
            { σ with locals := rs.foldl (fun env r => Function.update env r.1 (some r.2)) σ.locals }
            m m' (a + rs.length) stack := by
  induction rs with
  | nil =>
    intro σ m a h _ hstack
    rw [List.map_nil, List.nil_append] at hstack
    rw [← hstack]
    exact ⟨m, h.refl⟩
  | cons r rs ih =>
    intro σ m a h hcode hstack
    rw [List.forall_mem_cons] at hrs
    have hi : p[a]? = some (n.store r.1) := by
      rw [Machine.store_eq, hhome]
      exact hcode.head
    have hx : r.1 ∈ n.inScope n.home := by
      rw [hhome]
      exact hrs.1
    have hassign : Meaning.assign n.home r.1 r.2 σ =
        .ok () { σ with locals := Function.update σ.locals r.1 (some r.2) } := by
      rw [hhome]
      rfl
    obtain ⟨m₁, h₁⟩ := h.store hn hG hx hi hstack hassign
    obtain ⟨m', h'⟩ := ih hrs.2 h₁.ready hcode.tail h₁.stack
    refine ⟨m', ?_⟩
    have hall := h₁.trans h'
    rwa [show a + 1 + rs.length = a + (r :: rs).length by simp; omega] at hall

/-- The parameters are stored from the last one to the first. -/
theorem Ready.parameters {d : Definition} (hn : d.inside.Le fin) (hG : fin.globals <+: G)
    (hhome : d.inside.home = .function) (hmem : ∀ x ∈ d.parameters, x ∈ d.inside.inner)
    {values : List Float} (hlength : values.length = d.parameters.length)
    (h : Ready p G fin { σ with locals := fun _ => none } m a)
    (hcode : CodeAt p a (parametersCode d.inside d.parameters))
    (hstack : m.stack = values.reverse ++ stack) :
    ∃ m', Follows p G fin { σ with locals := fun _ => none }
      { σ with locals := Meaning.bound d.parameters values } m m' (a + d.parameters.length)
      stack := by
  set rs := (d.parameters.zip values).reverse with hrs
  have hnames : rs.map Prod.fst = d.parameters.reverse := by
    rw [hrs, List.map_reverse, List.map_fst_zip (by omega)]
  have hvalues : rs.map Prod.snd = values.reverse := by
    rw [hrs, List.map_reverse, List.map_snd_zip (by omega)]
  have hlist : parametersCode d.inside d.parameters =
      rs.map fun r => withInt .storeLocal (d.inside.address .function r.1) := by
    rw [parametersCode, ← hnames, List.map_map]
    rfl
  have hrsmem : ∀ r ∈ rs, r.1 ∈ d.inside.inner := by
    intro r hr
    have hr' : r.1 ∈ rs.map Prod.fst := List.mem_map_of_mem hr
    rw [hnames, List.mem_reverse] at hr'
    exact hmem _ hr'
  have hcount : rs.length = d.parameters.length := by
    rw [hrs, List.length_reverse, List.length_zip]
    omega
  have hbound : Meaning.bound d.parameters values =
      rs.foldl (fun (env : Environment) r => Function.update env r.1 (some r.2)) fun _ => none := by
    rw [hrs, List.foldl_reverse]
    rfl
  rw [hlist] at hcode
  rw [← hvalues] at hstack
  rw [← hcount, hbound]
  exact h.stores hn hG hhome hrsmem hcode hstack

/-- The second machine is in the block of the function at whose entry the first one is: a frame has
been opened at the end of memory, and memory in front of it is as it was. -/
structure Inside (m m' : Machine) : Prop where
  reaches : m.Reaches m'
  frame : m'.frame = m.memory.size
  calls : m'.calls = m.frame :: m.calls
  below : m'.memory.take m.memory.size = m.memory

theorem Inside.follow (h : Inside m m') (h' : Follows p G fin σ σ' m' m'' a stack) : Inside m m'' where
  reaches := h.reaches.trans h'.reaches
  frame := h'.frame.trans h.frame
  calls := h'.calls.trans h.calls
  below := by
    have hbelow := h'.below
    rw [h.frame, h.below] at hbelow
    exact hbelow

section Function

variable {entries : Entries} {arity : String → Option Nat} {d : Definition} {entry : Nat}

theorem InPlace.home_names (hd : InPlace p G entries arity d entry) :
    (d.body.names d.inside).home = .function := by
  rw [← (d.body.le_names d.inside).home, hd.home]

/-- A frame is opened, and the arguments become variables. -/
theorem Ready.enter (hd : InPlace p G entries arity d entry) {values : List Float}
    (hlength : values.length = d.parameters.length) (h : Ready p G fin σ m entry)
    (hstack : m.stack = values.reverse ++ stack) :
    ∃ m', Inside m m' ∧ m'.stack = stack ∧
      Ready p G (d.body.names d.inside) { σ with locals := Meaning.bound d.parameters values } m'
        (entry + 1 + d.parameters.length) := by
  have hcode := hd.code.left
  set opened : Machine :=
    { m with calls := m.frame :: m.calls, frame := m.memory.size, ip := m.ip + 1 } with hopened
  have hturn : m.Turns opened := (h.at_code hcode.left).turn (Machine.execute_enter m)
  have hinside : Inside m opened := ⟨.single hturn, rfl, rfl, by simp [hopened]⟩
  have hready : Ready p G (d.body.names d.inside) { σ with locals := fun _ => none } opened
      (entry + 1) := by
    refine ⟨h.running, ?_, h.program, h.roomy.of_reaches (.single hturn), h.agrees.enter hd.home_names⟩
    change m.ip + 1 = _
    rw [h.ip]
    rfl
  obtain ⟨m', hm'⟩ := hready.parameters (d.body.le_names d.inside) hd.globals hd.home hd.parameters
    hlength hcode.left.tail hstack
  exact ⟨m', hinside.follow hm', hm'.stack, hm'.ready⟩

/-- The frame is closed, and memory is what it was at the entry. -/
theorem Ready.leave {fin' : Names} {back : Nat} {x : Float} (h : Ready p G fin σ m entry)
    (hinside : Inside m m') (h' : Ready p G fin' σ' m' a) (hi : p[a]? = some (plain .leave))
    (hstack : m'.stack = x :: stack) (hx : Operand.address (.float x) = .ok (back : Int))
    (hglobals : σ'.globals = σ.globals) :
    ∃ m'', Follows p G fin σ { σ' with locals := σ.locals } m m'' back stack := by
  have hmemory : m'.memory.take m'.frame = m.memory := by rw [hinside.frame, hinside.below]
  have hexecute := Machine.execute_leave m' hstack hinside.calls hx
  rw [hmemory] at hexecute
  have hreaches : m.Reaches { m' with
      stack, memory := m.memory, frame := m.frame, calls := m.calls, ip := (back : Int) } :=
    hinside.reaches.tail (Machine.turns_of_execute h'.running (h'.instruction? hi) hexecute)
  exact ⟨_, hreaches, ⟨h'.running, rfl, h'.program, h.roomy.of_reaches hreaches,
    h.agrees.leave h'.agrees hglobals⟩, rfl, rfl, rfl, rfl, fun _ => hglobals⟩

/-- A function that is called comes back with memory as it was. -/
theorem Ready.called {back : Nat} {values : List Float} {x : Float} {body : Meaning Unit}
    (hd : InPlace p G entries arity d entry) (hlength : values.length = d.parameters.length)
    (hbody : ∀ {σ σ' : Store} {m : Machine} {a : Nat}, Ready p G (d.body.names d.inside) σ m a →
      CodeAt p a (d.body.code entries d.inside a) → body σ = .ok () σ' →
        ∃ m', Follows p G (d.body.names d.inside) σ σ' m m'
          (a + (d.body.code entries d.inside a).length) m.stack)
    (h : Ready p G fin σ m entry) (hstack : m.stack = values.reverse ++ x :: stack)
    (hx : Operand.address (.float x) = .ok (back : Int))
    (hexec : Meaning.within (Meaning.bound d.parameters values) body σ = .ok () σ') :
    ∃ m', Follows p G fin σ σ' m m' back stack := by
  set begin := entry + 1 + d.parameters.length with hbegin
  have hcode := hd.code
  unfold Definition.code at hcode
  have hcount : entry + (plain .enter :: parametersCode d.inside d.parameters).length = begin := by
    simp [parametersCode, hbegin]
    omega
  have hblock := hcode.left.right
  rw [hcount] at hblock
  have hleave := hcode.right.head
  rw [List.length_append, ← Nat.add_assoc, hcount] at hleave
  obtain ⟨m₁, hinside, hstack₁, h₁⟩ := h.enter hd hlength hstack
  unfold Meaning.within at hexec
  cases hrun : body { σ with locals := Meaning.bound d.parameters values } with
  | error t σ₁ =>
    rw [hrun] at hexec
    cases hexec
  | ok u σ₁ =>
    rw [hrun] at hexec
    injection hexec with _ hσ
    subst hσ
    obtain ⟨m₂, h₂⟩ := hbody h₁ hblock hrun
    exact h.leave (hinside.follow h₂) h₂.ready hleave (h₂.stack.trans hstack₁) hx
      (h₂.globals hd.home_names)

end Function

/-! ## All statements -/

/-- All functions stand where the code that calls them says, and every return address is small enough
to become a number. -/
structure Linked (p : Program) (G : List String) (entries : Entries) (defs : Definitions) : Prop where
  inPlace : ∀ f d, defs f = some d →
    ∃ entry, entries f = some entry ∧ InPlace p G entries defs.arity d entry
  small : ∀ (a back : Nat), p[a]? = some (withInt .pushReturn back) → back < 2 ^ 53

/-- With so many steps, statements and blocks are carried out on the machine as in the tree. -/
structure Carried (p : Program) (G : List String) (entries : Entries) (defs : Definitions)
    (fuel : Nat) : Prop where
  statement : ∀ {s : Statement} {n fin : Names} {σ σ' : Store} {m : Machine} {a : Nat},
    Ready p G fin σ m a → CodeAt p a (s.code entries n a) → (s.names n).Le fin → fin.globals <+: G →
      s.CallsMatch defs.arity → s.exec defs fuel n σ = .ok () σ' →
        ∃ m', Follows p G fin σ σ' m m' (a + (s.code entries n a).length) m.stack
  block : ∀ {b : Block} {n fin : Names} {σ σ' : Store} {m : Machine} {a : Nat},
    Ready p G fin σ m a → CodeAt p a (b.code entries n a) → (b.names n).Le fin → fin.globals <+: G →
      b.CallsMatch defs.arity → b.exec defs fuel n σ = .ok () σ' →
        ∃ m', Follows p G fin σ σ' m m' (a + (b.code entries n a).length) m.stack

section Statements

variable {entries : Entries} {defs : Definitions} {fuel : Nat}

/-- An expression in front of what takes its value. -/
theorem Ready.expression {e : Expression} (h : Ready p G fin σ m a) (hcode : CodeAt p a (e.code n))
    (hn : n.Le fin) (hG : fin.globals <+: G) {v : Float} (heval : e.eval n σ = .ok v σ') :
    ∃ m', Follows p G fin σ σ' m m' (a + (e.code n).length) (v :: m.stack) :=
  h.pushes (Expr.pushes e (h.at_code hcode) (h.agrees.shows hn hG) heval)

theorem print_follows {e : Expression} (h : Ready p G fin σ m a)
    (hcode : CodeAt p a (e.code n ++ [plain .print])) (hn : n.Le fin) (hG : fin.globals <+: G)
    (hexec : (Statement.print e).exec defs (fuel + 1) n σ = .ok () σ') :
    ∃ m', Follows p G fin σ σ' m m' (a + (e.code n ++ [plain .print]).length) m.stack := by
  simp only [Statement.exec, bind_eq_ok] at hexec
  obtain ⟨v, σ₁, hv, hprint⟩ := hexec
  obtain ⟨m₁, h₁⟩ := h.expression hcode.left hn hG hv
  obtain ⟨m₂, h₂⟩ := h₁.ready.print hcode.right.head h₁.stack hprint
  rw [List.length_append, ← Nat.add_assoc]
  exact ⟨m₂, h₁.trans h₂⟩

/-- An expression whose value is given to a variable. -/
theorem assign_follows {x : String} {e : Expression} (h : Ready p G fin σ m a)
    (hcode : CodeAt p a (e.code (n.bind x) ++ [(n.bind x).store x])) (hn : (n.bind x).Le fin)
    (hG : fin.globals <+: G) {v : Float} (hv : e.eval (n.bind x) σ = .ok v σ')
    (hassign : Meaning.assign n.home x v σ' = .ok () σ'') :
    ∃ m', Follows p G fin σ σ'' m m'
      (a + (e.code (n.bind x) ++ [(n.bind x).store x]).length) m.stack := by
  have hx : x ∈ (n.bind x).inScope (n.bind x).home := by
    rw [Names.home_bind]
    exact Names.mem_bind n x
  rw [← Names.home_bind n x] at hassign
  obtain ⟨m₁, h₁⟩ := h.expression hcode.left hn hG hv
  obtain ⟨m₂, h₂⟩ := h₁.ready.store hn hG hx hcode.right.head h₁.stack hassign
  rw [List.length_append, ← Nat.add_assoc]
  exact ⟨m₂, h₁.trans h₂⟩

theorem reserve_follows {x : String} (h : Ready p G fin σ m a) (hcode : CodeAt p a (n.reserve x)) :
    ∃ m', Follows p G fin σ σ m m' (a + (n.reserve x).length) m.stack := by
  unfold Names.reserve at hcode ⊢
  split at hcode
  · rename_i hbinds
    rw [if_pos hbinds]
    exact ⟨m, h.refl⟩
  · rename_i hbinds
    rw [if_neg hbinds]
    exact h.allocate hcode.head

theorem call_follows (hl : Linked p G entries defs) (ih : Carried p G entries defs fuel) {f : String}
    {arguments : List Expression} (h : Ready p G fin σ m a)
    (hcode : CodeAt p a ((Statement.call f arguments).code entries n a)) (hn : n.Le fin)
    (hG : fin.globals <+: G) (hmatch : (Statement.call f arguments).CallsMatch defs.arity)
    (hexec : (Statement.call f arguments).exec defs (fuel + 1) n σ = .ok () σ') :
    ∃ m', Follows p G fin σ σ' m m'
      (a + ((Statement.call f arguments).code entries n a).length) m.stack := by
  simp only [Statement.exec, bind_eq_ok] at hexec
  obtain ⟨values, σ₁, hvalues, hcall⟩ := hexec
  cases hd : defs f with
  | none =>
    rw [hd] at hcall
    exact absurd hcall throw_ne_ok
  | some d =>
    rw [hd] at hcall
    obtain ⟨entry, hentry, hplace⟩ := hl.inPlace f d hd
    have hcount : arguments.length = d.parameters.length := by
      rw [Statement.CallsMatch, Definitions.arity, hd] at hmatch
      exact (Option.some.inj hmatch).symm
    simp only [Statement.code, hentry] at hcode ⊢
    set code := argumentsCode n arguments with hargs
    have htarget : a + (withInt .pushReturn (a + code.length + 2) :: code ++
        [withInt .call entry]).length = a + code.length + 2 := by
      simp
      omega
    rw [htarget]
    -- the return address
    have hpush := hcode.left.head
    obtain ⟨x, hx, haddress⟩ := Number.exists_ofInt? (hl.small a _ hpush)
    have h₁ := h.goOn hpush (Machine.execute_pushReturn m hx) (b := a + 1) (by rw [h.ip]; rfl)
    -- the arguments
    obtain ⟨hlength, hpushes⟩ := argumentValues_pushes (h₁.ready.at_code hcode.left.tail)
      (h₁.ready.agrees.shows hn hG) hvalues
    obtain ⟨m₂, h₂⟩ := h₁.ready.pushes hpushes
    -- the call
    have hcallAt : p[a + 1 + code.length]? = some (withInt .call entry) := by
      have hlast := hcode.right.head
      rwa [List.length_cons, ← Nat.add_assoc, Nat.add_right_comm] at hlast
    have h₃ := h₂.ready.goOn hcallAt (Machine.execute_call m₂ entry) (b := entry) rfl
    have hbody : ∀ {σ σ' : Store} {m : Machine} {a : Nat}, Ready p G (d.body.names d.inside) σ m a →
        CodeAt p a (d.body.code entries d.inside a) → d.body.exec defs fuel d.inside σ = .ok () σ' →
          ∃ m', Follows p G (d.body.names d.inside) σ σ' m m'
            (a + (d.body.code entries d.inside a).length) m.stack :=
      fun h hcode hexec => ih.block h hcode (.refl _) hplace.globals hplace.callsMatch hexec
    obtain ⟨m', h'⟩ := h₃.ready.called hplace (hlength.trans hcount) hbody h₂.stack haddress hcall
    exact ⟨m', ((h₁.trans h₂).trans h₃).trans h'⟩

theorem choice_follows (ih : Carried p G entries defs fuel) {c : Condition} {yes : Block}
    (h : Ready p G fin σ m a) (hcode : CodeAt p a ((Statement.choice c yes).code entries n a))
    (hn : (yes.names n).Le fin) (hG : fin.globals <+: G)
    (hmatch : (Statement.choice c yes).CallsMatch defs.arity)
    (hexec : (Statement.choice c yes).exec defs (fuel + 1) n σ = .ok () σ') :
    ∃ m', Follows p G fin σ σ' m m' (a + ((Statement.choice c yes).code entries n a).length)
      m.stack := by
  have hle : n.Le fin := (yes.le_names n).trans hn
  simp only [Statement.exec, bind_eq_ok] at hexec
  obtain ⟨holds, σ₁, hholds, hexec⟩ := hexec
  simp only [Statement.code] at hcode ⊢
  set test := c.code n with htest
  set first := yes.code entries n (a + test.length + 1) with hfirst
  rw [length_tested]
  obtain ⟨m₁, h₁⟩ := h.pushes (Condition.pushes (h.at_code hcode.left) (h.agrees.shows hle hG) hholds)
  obtain ⟨m₂, h₂⟩ := h₁.ready.jumpIfZero hcode.right.head h₁.stack
  cases holds with
  | false =>
    obtain ⟨-, rfl⟩ := pure_eq_ok.mp hexec
    exact ⟨m₂, h₁.trans h₂⟩
  | true =>
    rw [Statement.CallsMatch] at hmatch
    obtain ⟨m₃, h₃⟩ := ih.block h₂.ready hcode.right.tail hn hG hmatch hexec
    rw [h₂.stack] at h₃
    exact ⟨m₃, (h₁.trans h₂).trans h₃⟩

theorem alternative_follows (ih : Carried p G entries defs fuel) {c : Condition} {yes no : Block}
    (h : Ready p G fin σ m a) (hcode : CodeAt p a ((Statement.alternative c yes no).code entries n a))
    (hn : (no.names (yes.names n)).Le fin) (hG : fin.globals <+: G)
    (hmatch : (Statement.alternative c yes no).CallsMatch defs.arity)
    (hexec : (Statement.alternative c yes no).exec defs (fuel + 1) n σ = .ok () σ') :
    ∃ m', Follows p G fin σ σ' m m'
      (a + ((Statement.alternative c yes no).code entries n a).length) m.stack := by
  have hyes : (yes.names n).Le fin := (no.le_names _).trans hn
  have hle : n.Le fin := (yes.le_names n).trans hyes
  simp only [Statement.exec, bind_eq_ok] at hexec
  obtain ⟨holds, σ₁, hholds, hexec⟩ := hexec
  rw [Statement.CallsMatch] at hmatch
  simp only [Statement.code] at hcode ⊢
  set test := c.code n with htest
  set first := yes.code entries n (a + test.length + 1) with hfirst
  set middle := a + test.length + 1 + first.length + 1 with hmiddle
  set second := no.code entries (yes.names n) middle with hsecond
  have htarget : a + (test ++ withInt .jumpIfZero middle :: first ++
      withInt .jump (middle + second.length) :: second).length = middle + second.length := by
    simp
    omega
  have hbehind := hcode.right
  rw [length_tested] at hbehind
  rw [htarget]
  obtain ⟨m₁, h₁⟩ := h.pushes (Condition.pushes (h.at_code hcode.left.left) (h.agrees.shows hle hG) hholds)
  obtain ⟨m₂, h₂⟩ := h₁.ready.jumpIfZero hcode.left.right.head h₁.stack
  cases holds with
  | false =>
    obtain ⟨m₃, h₃⟩ := ih.block h₂.ready hbehind.tail hn hG hmatch.2 hexec
    rw [h₂.stack] at h₃
    exact ⟨m₃, (h₁.trans h₂).trans h₃⟩
  | true =>
    obtain ⟨m₃, h₃⟩ := ih.block h₂.ready hcode.left.right.tail hyes hG hmatch.1 hexec
    obtain ⟨m₄, h₄⟩ := h₃.ready.jump hbehind.head
    rw [h₃.stack, h₂.stack] at h₄
    exact ⟨m₄, ((h₁.trans h₂).trans h₃).trans h₄⟩

theorem loop_follows (ih : Carried p G entries defs fuel) {c : Condition} {body : Block}
    (h : Ready p G fin σ m a) (hcode : CodeAt p a ((Statement.loop c body).code entries n a))
    (hn : (body.names n).Le fin) (hG : fin.globals <+: G)
    (hmatch : (Statement.loop c body).CallsMatch defs.arity)
    (hexec : (Statement.loop c body).exec defs (fuel + 1) n σ = .ok () σ') :
    ∃ m', Follows p G fin σ σ' m m' (a + ((Statement.loop c body).code entries n a).length)
      m.stack := by
  have hle : n.Le fin := (body.le_names n).trans hn
  have hwhole := hcode
  simp only [Statement.exec, bind_eq_ok] at hexec
  obtain ⟨holds, σ₁, hholds, hexec⟩ := hexec
  simp only [Statement.code] at hcode
  set test := c.code n with htest
  set inside := body.code entries n (a + test.length + 1) with hinside
  have htarget : a + ((Statement.loop c body).code entries n a).length =
      a + test.length + 1 + inside.length + 1 := by
    simp [Statement.code, htest, hinside]
    omega
  have hbehind := hcode.right
  rw [length_tested] at hbehind
  obtain ⟨m₁, h₁⟩ := h.pushes (Condition.pushes (h.at_code hcode.left.left) (h.agrees.shows hle hG) hholds)
  obtain ⟨m₂, h₂⟩ := h₁.ready.jumpIfZero hcode.left.right.head h₁.stack
  cases holds with
  | false =>
    obtain ⟨-, rfl⟩ := pure_eq_ok.mp hexec
    rw [htarget]
    exact ⟨m₂, h₁.trans h₂⟩
  | true =>
    simp only [if_true, bind_eq_ok] at hexec
    obtain ⟨_, σ₂, hround, hexec⟩ := hexec
    have hbody := hmatch
    rw [Statement.CallsMatch] at hbody
    obtain ⟨m₃, h₃⟩ := ih.block h₂.ready hcode.left.right.tail hn hG hbody hround
    obtain ⟨m₄, h₄⟩ := h₃.ready.jump hbehind.head
    -- back in front of the test, with one step less
    obtain ⟨m₅, h₅⟩ := ih.statement h₄.ready hwhole hn hG hmatch hexec
    rw [h₄.stack, h₃.stack, h₂.stack] at h₅
    exact ⟨m₅, (((h₁.trans h₂).trans h₃).trans h₄).trans h₅⟩

theorem statement_follows (hl : Linked p G entries defs) (ih : Carried p G entries defs fuel)
    {s : Statement} (h : Ready p G fin σ m a) (hcode : CodeAt p a (s.code entries n a))
    (hn : (s.names n).Le fin) (hG : fin.globals <+: G) (hmatch : s.CallsMatch defs.arity)
    (hexec : s.exec defs (fuel + 1) n σ = .ok () σ') :
    ∃ m', Follows p G fin σ σ' m m' (a + (s.code entries n a).length) m.stack := by
  cases s with
  | print e => exact print_follows h hcode hn hG hexec
  | assign x e =>
    simp only [Statement.exec, bind_eq_ok] at hexec
    obtain ⟨v, σ₁, hv, hassign⟩ := hexec
    simp only [Statement.code, List.append_assoc] at hcode ⊢
    obtain ⟨m₁, h₁⟩ := reserve_follows h hcode.left
    obtain ⟨m₂, h₂⟩ := assign_follows h₁.ready hcode.right hn hG hv hassign
    rw [h₁.stack] at h₂
    rw [List.length_append, ← Nat.add_assoc]
    exact ⟨m₂, h₁.trans h₂⟩
  | call f arguments => exact call_follows hl ih h hcode hn hG hmatch hexec
  | choice c yes => exact choice_follows ih h hcode hn hG hmatch hexec
  | alternative c yes no => exact alternative_follows ih h hcode hn hG hmatch hexec
  | loop c body => exact loop_follows ih h hcode hn hG hmatch hexec

theorem block_follows (ih : Carried p G entries defs fuel) {block : Block}
    (h : Ready p G fin σ m a) (hcode : CodeAt p a (block.code entries n a))
    (hn : (block.names n).Le fin) (hG : fin.globals <+: G) (hmatch : block.CallsMatch defs.arity)
    (hexec : block.exec defs (fuel + 1) n σ = .ok () σ') :
    ∃ m', Follows p G fin σ σ' m m' (a + (block.code entries n a).length) m.stack := by
  cases block with
  | nil =>
    obtain ⟨-, rfl⟩ := pure_eq_ok.mp hexec
    exact ⟨m, h.refl⟩
  | cons s rest =>
    simp only [Block.exec, bind_eq_ok] at hexec
    obtain ⟨_, σ₁, hs, hrest⟩ := hexec
    rw [Block.CallsMatch] at hmatch
    simp only [Block.code] at hcode ⊢
    obtain ⟨m₁, h₁⟩ := ih.statement h hcode.left ((rest.le_names _).trans hn) hG hmatch.1 hs
    obtain ⟨m₂, h₂⟩ := ih.block h₁.ready hcode.right hn hG hmatch.2 hrest
    rw [h₁.stack] at h₂
    rw [List.length_append, ← Nat.add_assoc]
    exact ⟨m₂, h₁.trans h₂⟩

/-- However many steps there are, statements and blocks are carried out alike. -/
theorem carried (hl : Linked p G entries defs) (fuel : Nat) : Carried p G entries defs fuel := by
  induction fuel with
  | zero => exact ⟨fun _ _ _ _ _ hexec => absurd hexec throw_ne_ok,
      fun _ _ _ _ _ hexec => absurd hexec throw_ne_ok⟩
  | succ fuel ih => exact ⟨statement_follows hl ih, block_follows ih⟩

end Statements

end StackPrimer.Simulation

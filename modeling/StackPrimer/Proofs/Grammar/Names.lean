import Mathlib.Data.List.Basic
import StackPrimer.Names.Entry
import StackPrimer.Proofs.Grammar.Tree

/-!
# The names bound at a point of a program

Names are bound in the order of the text: what a name means at some point depends on what was bound
before that point, no matter which way a run takes. Variables of the program and of the function
around are two lists of names; the address of a variable is its place in the list.

Results:
* `Names.bind_le`, `Statement.le_names`, `Block.le_names`: a list only grows at its end, so that an
  address stays what it is.
* `Names.address_of_le`: a variable that is bound has the same address at every later point.
* `Names.leave_enter`: what a function binds is not bound behind it.
-/

namespace StackPrimer.Grammar

/-- The variables bound so far: those of the program and, inside a function, those of the
function. -/
structure Names where
  globals : List String := []
  locals : Option (List String) := none
  deriving DecidableEq, Repr

namespace Names

/-- The list with one more name at its end, unless the name is there. -/
def extend (names : List String) (x : String) : List String :=
  if x ∈ names then names else names ++ [x]

/-- The variables of the function around, if there is one. -/
def inner (n : Names) : List String := n.locals.getD []

/-- The scope in which new names are bound. -/
def home (n : Names) : Scope := if n.locals.isSome then .function else .global

/-- The variables of a scope. -/
def inScope (n : Names) : Scope → List String
  | .global => n.globals
  | .function => n.inner

/-- Whether the name is bound in the scope in which new names are bound. -/
def binds (n : Names) (x : String) : Bool := x ∈ n.inScope n.home

/-- The names with one more in the scope in which new names are bound. -/
def bind (n : Names) (x : String) : Names :=
  match n.locals with
  | none => { n with globals := extend n.globals x }
  | some locals => { n with locals := some (extend locals x) }

/-- Where a name is found: inside a function first among the variables of the function. -/
def scope? (n : Names) (x : String) : Option Scope :=
  if x ∈ n.inner then some .function else if x ∈ n.globals then some .global else none

/-- The address of a variable in its scope. -/
def address (n : Names) (scope : Scope) (x : String) : Nat := (n.inScope scope).idxOf x

/-- The names at the beginning of the block of a function. -/
def enter (n : Names) (parameters : List String) : Names :=
  parameters.foldl bind { n with locals := some [] }

/-- Names of a later point: both lists may have grown. -/
structure Le (n n' : Names) : Prop where
  globals : n.globals <+: n'.globals
  inner : n.inner <+: n'.inner
  home : n.home = n'.home

end Names

/-! ## Binding through a program -/

mutual

/-- The names behind a statement. -/
def Statement.names (n : Names) : Statement → Names
  | .print _ => n
  | .assign x _ => n.bind x
  | .call .. => n
  | .choice _ yes => yes.names n
  | .alternative _ yes no => no.names (yes.names n)
  | .loop _ body => body.names n

/-- The names behind statements one after the other. -/
def Block.names (n : Names) : Block → Names
  | .nil => n
  | .cons s rest => rest.names (s.names n)

end

/-- The names behind a declaration. -/
def Declaration.names (n : Names) : Declaration → Names
  | assign x _ => n.bind x
  | define .. => n

/-- The names behind declarations one after the other. -/
def namesBehind (n : Names) (ds : List Declaration) : Names := ds.foldl Declaration.names n

/-! ## Names that can be used -/

/-- Every variable of the expression can be found. -/
def Expr.Scoped {l : Level} (n : Names) : Expr l → Prop
  | input => True
  | ofSum e => e.Scoped n
  | ofTerm e => e.Scoped n
  | add left _ right => left.Scoped n ∧ right.Scoped n
  | ofFactor e => e.Scoped n
  | multiply left _ right => left.Scoped n ∧ right.Scoped n
  | name x => (n.scope? x).isSome
  | number _ => True
  | group e => e.Scoped n

/-- Every variable of the condition can be found. -/
def Condition.Scoped (n : Names) (c : Condition) : Prop := c.left.Scoped n ∧ c.right.Scoped n

mutual

/-- Every variable of the statement can be found, and every function that it calls is one of
`functions`. -/
def Statement.Scoped (functions : List String) (n : Names) : Statement → Prop
  | .print e => e.Scoped n
  | .assign x e => e.Scoped (n.bind x)
  | .call f arguments => f ∈ functions ∧ ∀ e ∈ arguments, e.Scoped n
  | .choice c yes => c.Scoped n ∧ yes.Scoped functions n
  | .alternative c yes no =>
    c.Scoped n ∧ yes.Scoped functions n ∧ no.Scoped functions (yes.names n)
  | .loop c body => c.Scoped n ∧ body.Scoped functions n

/-- The same for statements one after the other. -/
def Block.Scoped (functions : List String) (n : Names) : Block → Prop
  | .nil => True
  | .cons s rest => s.Scoped functions n ∧ rest.Scoped functions (s.names n)

end

/-- The functions declared behind a declaration. -/
def Declaration.functions (functions : List String) : Declaration → List String
  | assign .. => functions
  | define f .. => functions ++ [f]

/-- The functions declared behind declarations one after the other. -/
def functionsBehind (functions : List String) (ds : List Declaration) : List String :=
  ds.foldl Declaration.functions functions

/-- Every variable of the declaration can be found. A variable does not have the name of a function,
no function is declared twice, and a function may call itself. -/
def Declaration.Scoped (functions : List String) (n : Names) : Declaration → Prop
  | assign x e => x ∉ functions ∧ e.Scoped (n.bind x)
  | define f parameters body =>
    f ∉ functions ∧ body.Scoped (functions ++ [f]) (n.enter parameters)

/-- The same for declarations one after the other. -/
def DeclarationsScoped (functions : List String) (n : Names) : List Declaration → Prop
  | [] => True
  | d :: ds => d.Scoped functions n ∧ DeclarationsScoped (d.functions functions) (d.names n) ds

/-- Every name of the program denotes what it is used for. -/
def Source.Scoped (source : Source) : Prop :=
  DeclarationsScoped [] {} source.declarations ∧
    source.statements.Scoped (functionsBehind [] source.declarations)
      (namesBehind {} source.declarations)

/-! ## Names only come to be -/

namespace Names

variable {n n' n'' : Names}

theorem Le.refl (n : Names) : Le n n := ⟨List.prefix_rfl, List.prefix_rfl, rfl⟩

theorem Le.trans (h : Le n n') (h' : Le n' n'') : Le n n'' :=
  ⟨h.globals.trans h'.globals, h.inner.trans h'.inner, h.home.trans h'.home⟩

theorem Le.inScope (h : Le n n') (scope : Scope) : n.inScope scope <+: n'.inScope scope := by
  cases scope
  · exact h.globals
  · exact h.inner

theorem prefix_extend (names : List String) (x : String) : names <+: extend names x := by
  unfold extend
  split
  · exact List.prefix_rfl
  · exact List.prefix_append ..

theorem mem_extend (names : List String) (x : String) : x ∈ extend names x := by
  unfold extend
  split
  · assumption
  · simp

theorem nodup_extend {names : List String} (h : names.Nodup) (x : String) :
    (extend names x).Nodup := by
  unfold extend
  split
  · exact h
  · rename_i hx
    exact List.nodup_append.mpr ⟨h, by simp, by simpa using fun y hy => ne_of_mem_of_not_mem hy hx⟩

theorem le_bind (n : Names) (x : String) : Le n (n.bind x) := by
  rcases n with ⟨globals, _ | locals⟩
  · exact ⟨prefix_extend .., List.prefix_rfl, rfl⟩
  · exact ⟨List.prefix_rfl, prefix_extend .., rfl⟩

@[simp] theorem home_bind (n : Names) (x : String) : (n.bind x).home = n.home :=
  (le_bind n x).home.symm

/-- Binding does not touch the other scope. -/
theorem inScope_bind (n : Names) (x : String) :
    (n.bind x).inScope n.home = extend (n.inScope n.home) x := by
  rcases n with ⟨globals, _ | locals⟩ <;> rfl

theorem mem_bind (n : Names) (x : String) : x ∈ (n.bind x).inScope n.home := by
  rw [inScope_bind]
  exact mem_extend _ x

/-- Binding a name again changes nothing. -/
theorem bind_of_binds {n : Names} {x : String} (h : n.binds x = true) : n.bind x = n := by
  rcases n with ⟨globals, _ | locals⟩
  · have hx : x ∈ globals := of_decide_eq_true h
    simp [bind, extend, hx]
  · have hx : x ∈ locals := of_decide_eq_true h
    simp [bind, extend, hx]

/-- A name that has just been bound is found in the scope in which it was bound. -/
theorem scope?_bind (n : Names) (x : String) : (n.bind x).scope? x = some n.home := by
  rcases n with ⟨globals, _ | locals⟩
  · simp [bind, scope?, home, inner, mem_extend]
  · simp [bind, scope?, home, inner, mem_extend]

/-- A name is found where it is bound. -/
theorem mem_of_scope? {x : String} {scope : Scope} (h : n.scope? x = some scope) :
    x ∈ n.inScope scope := by
  unfold scope? at h
  split at h
  · cases h
    assumption
  · split at h
    · cases h
      assumption
    · cases h

/-- A name has the same place in a list that has grown. -/
theorem idxOf_of_prefix {names names' : List String} (h : names <+: names') {x : String}
    (hx : x ∈ names) : names'.idxOf x = names.idxOf x := by
  obtain ⟨rest, rfl⟩ := h
  exact List.idxOf_append_of_mem hx

/-- A variable that is bound has the same address at every later point. -/
theorem address_of_le (h : Le n n') {scope : Scope} {x : String} (hx : x ∈ n.inScope scope) :
    n'.address scope x = n.address scope x :=
  idxOf_of_prefix (h.inScope scope) hx

theorem mem_of_le (h : Le n n') {scope : Scope} {x : String} (hx : x ∈ n.inScope scope) :
    x ∈ n'.inScope scope :=
  (h.inScope scope).subset hx

/-- Outside of functions nothing is found in the scope of a function. -/
theorem inner_eq_nil (h : n.home = .global) : n.inner = [] := by
  rcases n with ⟨globals, _ | locals⟩
  · rfl
  · cases h

end Names

mutual

/-- A statement only binds more names. -/
theorem Statement.le_names (n : Names) : ∀ s : Statement, Names.Le n (s.names n)
  | .print _ => .refl n
  | .assign x _ => Names.le_bind n x
  | .call .. => .refl n
  | .choice _ yes => yes.le_names n
  | .alternative _ yes no => (yes.le_names n).trans (no.le_names _)
  | .loop _ body => body.le_names n

/-- Statements only bind more names. -/
theorem Block.le_names (n : Names) : ∀ b : Block, Names.Le n (b.names n)
  | .nil => .refl n
  | .cons s rest => (s.le_names n).trans (rest.le_names _)

end

/-! ## Functions keep the globals -/

theorem Names.globals_bind {n : Names} (h : n.home = .function) (x : String) :
    (n.bind x).globals = n.globals := by
  rcases n with ⟨globals, _ | locals⟩
  · cases h
  · rfl

theorem Names.home_foldl_bind (n : Names) (xs : List String) : (xs.foldl bind n).home = n.home := by
  induction xs generalizing n with
  | nil => rfl
  | cons x xs ih => rw [List.foldl_cons, ih, home_bind]

theorem Names.globals_foldl_bind {n : Names} (h : n.home = .function) (xs : List String) :
    (xs.foldl bind n).globals = n.globals := by
  induction xs generalizing n with
  | nil => rfl
  | cons x xs ih => rw [List.foldl_cons, ih (by simpa using h), globals_bind h]

theorem Names.le_foldl_bind (n : Names) (xs : List String) : Le n (xs.foldl bind n) := by
  induction xs generalizing n with
  | nil => exact .refl n
  | cons x xs ih => exact (le_bind n x).trans (ih _)

theorem Names.mem_foldl_bind {n : Names} {x : String} {xs : List String} (hx : x ∈ xs) :
    x ∈ (xs.foldl bind n).inScope n.home := by
  induction xs generalizing n with
  | nil => cases hx
  | cons y xs ih =>
    rw [List.foldl_cons]
    rcases List.mem_cons.mp hx with rfl | hx
    · exact mem_of_le (le_foldl_bind (n.bind x) xs) (mem_bind n x)
    · rw [← home_bind n y]
      exact ih hx

/-- The parameters are variables of the function. -/
theorem Names.mem_enter {n : Names} {x : String} {parameters : List String} (hx : x ∈ parameters) :
    x ∈ (n.enter parameters).inner :=
  mem_foldl_bind (n := { n with locals := some [] }) hx

theorem Names.home_enter (n : Names) (parameters : List String) :
    (n.enter parameters).home = .function := by
  rw [enter, home_foldl_bind]
  rfl

/-- Entering a function changes nothing about the variables of the program. -/
theorem Names.globals_enter (n : Names) (parameters : List String) :
    (n.enter parameters).globals = n.globals :=
  globals_foldl_bind rfl parameters

mutual

/-- A statement of a function binds no global. -/
theorem Statement.globals_names {n : Names} (h : n.home = .function) :
    ∀ s : Statement, (s.names n).globals = n.globals
  | .print _ => rfl
  | .assign x _ => Names.globals_bind h x
  | .call .. => rfl
  | .choice _ yes => yes.globals_names h
  | .alternative _ yes no => by
    have hyes : (yes.names n).home = .function := by rw [← (yes.le_names n).home, h]
    rw [Statement.names, no.globals_names hyes, yes.globals_names h]
  | .loop _ body => body.globals_names h

/-- Statements of a function bind no global. -/
theorem Block.globals_names {n : Names} (h : n.home = .function) :
    ∀ b : Block, (b.names n).globals = n.globals
  | .nil => rfl
  | .cons s rest => by
    have hs : (s.names n).home = .function := by rw [← (s.le_names n).home, h]
    rw [Block.names, rest.globals_names hs, s.globals_names h]

end

/-- Behind a function the names are those before. -/
theorem Names.leave_enter {n : Names} (h : n.home = .global) (parameters : List String)
    (body : Block) : { body.names (n.enter parameters) with locals := none } = n := by
  have hglobals := (body.globals_names (home_enter n parameters)).trans (globals_enter n parameters)
  rcases n with ⟨globals, _ | locals⟩
  · exact congrArg (Names.mk · none) hglobals
  · cases h

end StackPrimer.Grammar

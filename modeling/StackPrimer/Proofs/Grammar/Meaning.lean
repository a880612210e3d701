import Mathlib.Logic.Function.Basic
import StackPrimer.Number.Writing
import StackPrimer.Proofs.Grammar.Linking

/-!
# What a tree means

A tree is carried out directly, without code: variables are found by name, in the environment of the
program and in the one of the call that is going on. Where a name is looked for is decided by the
names bound before in the text. Arithmetic is that of the machine.

The number of steps is bounded, since a loop need not end; every statement takes at least one.

Results:
* `Source.interpret_unique`: the bound makes no difference to how a program ends.
-/

namespace StackPrimer.Grammar

/-! ## Stores -/

/-- Variables by name, with their values if they have been assigned. -/
abbrev Environment := String → Option Float

/-- What there is besides the tree: variables, the words still to be read, and the lines printed so
far, the last one in front. -/
structure Store where
  globals : Environment := fun _ => none
  locals : Environment := fun _ => none
  words : List (List Char)
  printed : List String := []

/-- The variables of a scope. -/
def Store.inScope (σ : Store) : Scope → Environment
  | .global => σ.globals
  | .function => σ.locals

/-- Why a tree is not carried out to its end. -/
inductive Trouble
  | unassigned (name : String)
  | undefined (name : String)
  | endOfInput
  | notANumber (word : List Char)
  | unfinished
  deriving DecidableEq, Repr

/-- Something that is carried out on a store. -/
abbrev Meaning (α : Type) := EStateM Trouble Store α

namespace Meaning

/-- The value of a variable. -/
def valueOf (n : Names) (x : String) : Meaning Float := fun σ =>
  match (n.scope? x).bind fun scope => σ.inScope scope x with
  | some v => .ok v σ
  | none => .error (.unassigned x) σ

/-- Gives a value to a variable of the scope. -/
def assign (scope : Scope) (x : String) (v : Float) : Meaning Unit := fun σ =>
  match scope with
  | .global => .ok () { σ with globals := Function.update σ.globals x (some v) }
  | .function => .ok () { σ with locals := Function.update σ.locals x (some v) }

/-- Reads the next word, which has to be a number. -/
def readNumber : Meaning Float := fun σ =>
  match σ.words with
  | [] => .error .endOfInput σ
  | word :: words =>
    match Number.readFloat? (String.ofList word) with
    | some v => .ok v { σ with words }
    | none => .error (.notANumber word) { σ with words }

/-- Prints a number on a line of its own. -/
def print (v : Float) : Meaning Unit := fun σ =>
  .ok () { σ with printed := Number.display v :: σ.printed }

/-- The variables of a call. Parameters are bound from right to left. -/
def bound (parameters : List String) (values : List Float) : Environment :=
  (parameters.zip values).foldr (fun r env => Function.update env r.1 (some r.2)) fun _ => none

/-- Carries out a block with variables of its own, after which those of the caller are back. -/
def within (locals : Environment) (body : Meaning Unit) : Meaning Unit := fun σ =>
  match body { σ with locals } with
  | .ok _ σ' => .ok () { σ' with locals := σ.locals }
  | .error t σ' => .error t σ'

end Meaning

/-! ## Expressions -/

/-- The operation between terms. -/
def AddSign.apply : AddSign → Float → Float → Float
  | plus => (· + ·)
  | minus => (· - ·)

/-- The operation between factors. -/
def MulSign.apply : MulSign → Float → Float → Float
  | times => (· * ·)
  | divide => (· / ·)

/-- Whether two numbers compare as the sign says. -/
def Comparison.holds : Comparison → Float → Float → Bool
  | equal => (· == ·)
  | notEqual => (· != ·)
  | atLeast => fun a b => b ≤ a
  | atMost => fun a b => a ≤ b
  | greater => fun a b => b < a
  | less => fun a b => a < b

/-- The value of an expression. -/
def Expr.eval (n : Names) {l : Level} : Expr l → Meaning Float
  | input => Meaning.readNumber
  | ofSum e => e.eval n
  | ofTerm e => e.eval n
  | add left s right => do
    let a ← left.eval n
    let b ← right.eval n
    return s.apply a b
  | ofFactor e => e.eval n
  | multiply left s right => do
    let a ← left.eval n
    let b ← right.eval n
    return s.apply a b
  | name x => Meaning.valueOf n x
  | number x => return x.value
  | group e => e.eval n

/-- Whether the condition holds; the left side is evaluated first. -/
def Condition.eval (n : Names) (c : Condition) : Meaning Bool := do
  let a ← c.left.eval n
  let b ← c.right.eval n
  return c.comparison.holds a b

/-- The values of arguments, the first one first. -/
def argumentValues (n : Names) : List Expression → Meaning (List Float)
  | [] => return []
  | e :: rest => do
    let v ← e.eval n
    let vs ← argumentValues n rest
    return v :: vs

/-! ## Statements -/

mutual

/-- Carries out a statement. The names are those bound in front of it. -/
def Statement.exec (defs : Definitions) : (fuel : Nat) → Names → Statement → Meaning Unit
  | 0, _, _ => throw .unfinished
  | _ + 1, n, .print e => do
    let v ← e.eval n
    Meaning.print v
  | _ + 1, n, .assign x e => do
    let v ← e.eval (n.bind x)
    Meaning.assign n.home x v
  | fuel + 1, n, .call f arguments => do
    let values ← argumentValues n arguments
    match defs f with
    | none => throw (.undefined f)
    | some d => Meaning.within (Meaning.bound d.parameters values) (d.body.exec defs fuel d.inside)
  | fuel + 1, n, .choice c yes => do
    let holds ← c.eval n
    if holds then yes.exec defs fuel n else pure ()
  | fuel + 1, n, .alternative c yes no => do
    let holds ← c.eval n
    if holds then yes.exec defs fuel n else no.exec defs fuel (yes.names n)
  | fuel + 1, n, .loop c body => do
    let holds ← c.eval n
    if holds then
      body.exec defs fuel n
      Statement.exec defs fuel n (.loop c body)
    else pure ()

/-- Carries out statements one after the other. -/
def Block.exec (defs : Definitions) : (fuel : Nat) → Names → Block → Meaning Unit
  | 0, _, _ => throw .unfinished
  | _ + 1, _, .nil => pure ()
  | fuel + 1, n, .cons s rest => do
    s.exec defs fuel n
    rest.exec defs fuel (s.names n)

end

/-! ## Programs -/

/-- Carries out a declaration. A function does nothing until it is called. -/
def Declaration.exec (n : Names) : Declaration → Meaning Unit
  | assign x e => do
    let v ← e.eval (n.bind x)
    Meaning.assign n.home x v
  | define .. => pure ()

/-- Carries out declarations one after the other. -/
def declarationsExec (n : Names) : List Declaration → Meaning Unit
  | [] => pure ()
  | d :: ds => do
    d.exec n
    declarationsExec (d.names n) ds

/-- Carries out a program. -/
def Source.exec (fuel : Nat) (source : Source) : Meaning Unit := do
  declarationsExec {} source.declarations
  source.statements.exec source.definitions fuel source.names

/-- Carries out a program that has these words for its input, from the beginning. -/
def Source.interpret (source : Source) (fuel : Nat) (words : List (List Char)) :
    EStateM.Result Trouble Store Unit :=
  source.exec fuel { words }

/-! ## The bound -/

/-- Where the first comes to its end, the second does so in the same way. -/
def Meaning.Extends {α : Type} (x y : Meaning α) : Prop :=
  ∀ σ a σ', x σ = .ok a σ' → y σ = .ok a σ'

namespace Meaning.Extends

variable {α β : Type} {x y : Meaning α}

theorem refl (x : Meaning α) : Extends x x := fun _ _ _ h => h

theorem trans {z : Meaning α} (h : Extends x y) (h' : Extends y z) : Extends x z :=
  fun σ a σ' hx => h' σ a σ' (h σ a σ' hx)

theorem of_throw (t : Trouble) (y : Meaning α) : Extends (throw t) y := by
  intro σ a σ' h
  cases h

theorem bind {f g : α → Meaning β} (h : Extends x y) (hf : ∀ a, Extends (f a) (g a)) :
    Extends (x >>= f) (y >>= g) := by
  intro σ b σ'' hb
  change EStateM.bind x f σ = _ at hb
  change EStateM.bind y g σ = _
  unfold EStateM.bind at hb ⊢
  cases hx : x σ with
  | error t σ' =>
    rw [hx] at hb
    cases hb
  | ok a σ' =>
    rw [hx] at hb
    rw [h σ a σ' hx]
    exact hf a σ' b σ'' hb

theorem within {body body' : Meaning Unit} (locals : Environment) (h : Extends body body') :
    Extends (Meaning.within locals body) (Meaning.within locals body') := by
  intro σ _ σ'' hexec
  unfold Meaning.within at hexec ⊢
  cases hbody : body { σ with locals } with
  | error t σ' =>
    rw [hbody] at hexec
    cases hexec
  | ok u σ' =>
    rw [hbody] at hexec
    rw [h _ _ _ hbody]
    exact hexec

end Meaning.Extends

section Bound

variable {defs : Definitions}

/-- One more step makes no difference to statements and blocks that come to their end. -/
theorem exec_extends_succ (fuel : Nat) :
    (∀ n s, Meaning.Extends (Statement.exec defs fuel n s) (Statement.exec defs (fuel + 1) n s)) ∧
      ∀ n b, Meaning.Extends (Block.exec defs fuel n b) (Block.exec defs (fuel + 1) n b) := by
  induction fuel with
  | zero => exact ⟨fun _ _ => .of_throw .unfinished _, fun _ _ => .of_throw .unfinished _⟩
  | succ fuel ih =>
    obtain ⟨hstatement, hblock⟩ := ih
    constructor
    · intro n s
      cases s with
      | print e => exact .refl _
      | assign x e => exact .refl _
      | call f arguments =>
        rw [Statement.exec, Statement.exec]
        refine .bind (.refl _) fun values => ?_
        cases defs f with
        | none => exact .refl _
        | some d => exact .within _ (hblock d.inside d.body)
      | choice c yes =>
        rw [Statement.exec, Statement.exec]
        refine .bind (.refl _) fun holds => ?_
        cases holds with
        | false => exact .refl _
        | true => exact hblock n yes
      | alternative c yes no =>
        rw [Statement.exec, Statement.exec]
        refine .bind (.refl _) fun holds => ?_
        cases holds with
        | false => exact hblock _ no
        | true => exact hblock n yes
      | loop c body =>
        rw [Statement.exec, Statement.exec]
        refine .bind (.refl _) fun holds => ?_
        cases holds with
        | false => exact .refl _
        | true => exact .bind (hblock n body) fun _ => hstatement n _
    · intro n b
      cases b with
      | nil => exact .refl _
      | cons s rest => exact .bind (hstatement n s) fun _ => hblock _ rest

/-- Neither do any number of them. -/
theorem Block.exec_extends {fuel fuel' : Nat} (h : fuel ≤ fuel') (n : Names) (b : Block) :
    Meaning.Extends (b.exec defs fuel n) (b.exec defs fuel' n) := by
  induction h with
  | refl => exact .refl _
  | step _ ih => exact ih.trans ((exec_extends_succ _).2 n b)

end Bound

/-- Carrying out a program with any two bounds has the same end, if it has one with both. -/
theorem Source.interpret_unique {source : Source} {fuel fuel' : Nat} {words : List (List Char)}
    {σ σ' : Store} (h : source.interpret fuel words = .ok () σ)
    (h' : source.interpret fuel' words = .ok () σ') : σ = σ' := by
  have hextends : ∀ {k k'}, k ≤ k' → Meaning.Extends (source.exec k) (source.exec k') :=
    fun hk => .bind (.refl _) fun _ => Block.exec_extends hk _ _
  have hboth : source.interpret (max fuel fuel') words = .ok () σ :=
    hextends (Nat.le_max_left ..) _ _ _ h
  have hboth' : source.interpret (max fuel fuel') words = .ok () σ' :=
    hextends (Nat.le_max_right ..) _ _ _ h'
  rw [hboth] at hboth'
  injection hboth'

end StackPrimer.Grammar

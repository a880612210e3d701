import StackPrimer.Proofs.Confinement.Statement
import StackPrimer.Proofs.Evaluation.Value

/-!
# Phrases that push a value

Expressions and conditions are compiled alike: their code runs from its beginning to its end and pushes
one value. What is to be said of both is said of phrases.

Results:
* `Expr.evaluates_phrase`, `Condition.evaluates_phrase`: expressions and conditions push their values.
* `Phrase.Evaluates.delivered`: so they do in the midst of any run.
-/

namespace StackPrimer

namespace Grammar

/-- Something that has a value. -/
structure Phrase where
  terminals : List Terminal
  mentions : List String
  inputs : Nat
  /-- The expression with which it ends. -/
  last : Expression
  code : Names → List Instruction
  value : Names → Meaning Float

/-- An expression as a phrase. -/
def Expr.phrase (e : Expression) : Phrase where
  terminals := e.terminals
  mentions := e.mentions
  inputs := e.inputs
  last := e
  code n := e.code n
  value n := e.eval n

/-- A condition as a phrase, which has one or zero for a value. -/
def Condition.phrase (c : Condition) : Phrase where
  terminals := c.terminals
  mentions := c.left.mentions ++ c.right.mentions
  inputs := c.left.inputs + c.right.inputs
  last := c.right
  code n := c.code n
  value n := c.truth n

theorem Condition.scoped_iff {n : Names} (c : Condition) :
    c.Scoped n ↔ ∀ x ∈ c.phrase.mentions, (n.scope? x).isSome := by
  simp only [Condition.Scoped, Condition.phrase, List.forall_mem_append, Expr.scoped_iff]

open Simulation (At Shows Pushes CodeAt)
open Confinement (Satisfies evaluates)

/-- The code of the phrase consists of operations on numbers, all its value needs are the variables and
the words that it reads, and the code pushes that value. -/
structure Phrase.Evaluates (p : Phrase) : Prop where
  operations : ∀ n : Names, (∀ x ∈ p.mentions, (n.scope? x).isSome) →
    ∀ i ∈ p.code n, Satisfies (fun op _ => evaluates op = true) i
  value : ∀ (n : Names) (σ : Store), (∀ x ∈ p.mentions, σ.Has n x) → Numeric p.inputs σ.words →
    ∃ v, p.value n σ = .ok v (σ.past p.inputs)
  pushes : ∀ {n : Names} {σ σ' : Store} {m : Machine} {a : Nat} {v : Float}, At m a (p.code n) →
    Shows n σ m → p.value n σ = .ok v σ' → Pushes σ σ' m [v] (a + (p.code n).length)

theorem Expr.evaluates_phrase (e : Expression) : e.phrase.Evaluates where
  operations n hn i hi := by
    have hvalue : ∀ i ∈ e.code n, Confinement.Value (fun _ => False) 0 0 n i :=
      Confinement.Expr.value e (e.scoped_iff.mpr hn)
    exact (hvalue i hi).imp fun _ _ h => h.1
  value _ _ := e.exists_eval
  pushes := Simulation.Expr.pushes e

theorem Condition.evaluates_phrase (c : Condition) : c.phrase.Evaluates where
  operations n hn i hi := by
    have hvalue : ∀ i ∈ c.code n, Confinement.Value (fun _ => False) 0 0 n i :=
      Confinement.Condition.value c (c.scoped_iff.mpr hn)
    exact (hvalue i hi).imp fun _ _ h => h.1
  value _ _ := c.exists_truth
  pushes hat hshows hvalue := by
    simp only [phrase, truth, bind_eq_ok, pure_eq_ok] at hvalue
    obtain ⟨holds, σ₁, heval, rfl, rfl⟩ := hvalue
    exact Simulation.Condition.pushes hat hshows heval

/-- In the midst of any run, where the cells of the variables exist and there are enough numbers to read,
the code pushes the value of the phrase and changes nothing else but the words left to read. -/
def Phrase.Delivered (p : Phrase) (book : AddressBook) (is : List Instruction) : Prop :=
  ∀ (m : Machine) (a : Nat), m.running = true → m.ip = a → CodeAt m.program a is →
    (∀ x ∈ p.mentions, (m.holding book x).isSome) → Numeric p.inputs m.input.words →
    ∃ v input, p.value book.names (m.viewed book) = .ok v ((m.viewed book).past p.inputs) ∧
      input.words = m.input.words.drop p.inputs ∧
      m.Reaches { m with stack := v :: m.stack, ip := (a + is.length : Nat), input }

theorem Phrase.Evaluates.delivered {p : Phrase} (h : p.Evaluates) {book : AddressBook}
    (hbook : book.variablesOnly.Sound) : p.Delivered book (p.code book.names) := by
  -- functions have no part in it
  change p.Delivered book.variablesOnly (p.code book.variablesOnly.names)
  intro m a hrunning hip hcode hcells hwords
  obtain ⟨v, hv⟩ := h.value book.variablesOnly.names (m.viewed book.variablesOnly)
    (fun x hx => Machine.has_viewed hbook (hcells x hx)) hwords
  obtain ⟨input, hreaches, hinput, -⟩ :=
    h.pushes ⟨hrunning, hip, hcode⟩ (Machine.shows_viewed hbook m) hv
  exact ⟨v, input, hv, hinput, hreaches⟩

end Grammar

end StackPrimer

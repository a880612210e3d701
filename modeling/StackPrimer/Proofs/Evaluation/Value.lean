import StackPrimer.Proofs.Evaluation.Lookup
import StackPrimer.Proofs.Simulation.Expression

/-!
# Values in the midst of a run

Whatever a machine holds, it stands for a store: the name of a variable has for its value what the cell
holds that the address book tells. The value of a tree in that store depends on nothing but the cells of
the variables of the tree and the words that it reads, so that it has one if these cells exist and these
words are numbers.

Results:
* `Expr.exists_eval`, `Condition.exists_truth`: when a tree has a value.
* `Machine.shows_viewed`: a machine shows the store that it stands for.
-/

namespace StackPrimer

namespace Grammar

/-! ## What the value of a tree depends on -/

/-- The variables of an expression, as they occur. -/
def Expr.mentions {l : Level} : Expr l → List String
  | input => []
  | ofSum e => e.mentions
  | ofTerm e => e.mentions
  | add left _ right => left.mentions ++ right.mentions
  | ofFactor e => e.mentions
  | multiply left _ right => left.mentions ++ right.mentions
  | name x => [x]
  | number _ => []
  | group e => e.mentions

/-- How many numbers are read for an expression. -/
def Expr.inputs {l : Level} : Expr l → Nat
  | input => 1
  | ofSum e => e.inputs
  | ofTerm e => e.inputs
  | add left _ right => left.inputs + right.inputs
  | ofFactor e => e.inputs
  | multiply left _ right => left.inputs + right.inputs
  | name _ => 0
  | number _ => 0
  | group e => e.inputs

/-- An expression can be used where all of its variables can be found. -/
theorem Expr.scoped_iff {n : Names} {l : Level} (e : Expr l) :
    e.Scoped n ↔ ∀ x ∈ e.mentions, (n.scope? x).isSome := by
  induction e with
  | input => simp [Scoped, mentions]
  | ofSum e ih => exact ih
  | ofTerm e ih => exact ih
  | add left s right ihl ihr => simp only [Scoped, mentions, List.forall_mem_append, ihl, ihr]
  | ofFactor e ih => exact ih
  | multiply left s right ihl ihr => simp only [Scoped, mentions, List.forall_mem_append, ihl, ihr]
  | name x => simp [Scoped, mentions]
  | number x => simp [Scoped, mentions]
  | group e ih => exact ih

/-- So many words stand in front, and they are numbers. -/
def Numeric (count : Nat) (words : List (List Char)) : Prop :=
  count ≤ words.length ∧ ∀ w ∈ words.take count, (Number.readFloat? (String.ofList w)).isSome

theorem Numeric.split {k l : Nat} {words : List (List Char)} (h : Numeric (k + l) words) :
    Numeric k words ∧ Numeric l (words.drop k) := by
  obtain ⟨hlength, hall⟩ := h
  rw [List.take_add, List.forall_mem_append] at hall
  exact ⟨⟨by omega, hall.1⟩, by rw [List.length_drop]; omega, hall.2⟩

/-- The variable has a value in the store. -/
def Store.Has (σ : Store) (n : Names) (x : String) : Prop :=
  ∃ scope v, n.scope? x = some scope ∧ σ.inScope scope x = some v

/-- The store after so many words have been read. -/
def Store.past (σ : Store) (count : Nat) : Store := { σ with words := σ.words.drop count }

theorem Store.past_past (σ : Store) (k l : Nat) : (σ.past k).past l = σ.past (k + l) := by
  simp [past, List.drop_drop]

section Values

variable {n : Names} {σ : Store}

theorem exists_readNumber (h : Numeric 1 σ.words) : ∃ v, Meaning.readNumber σ = .ok v (σ.past 1) := by
  obtain ⟨hlength, hall⟩ := h
  unfold Meaning.readNumber
  cases hwords : σ.words with
  | nil => simp [hwords] at hlength
  | cons w words =>
    obtain ⟨v, hv⟩ := Option.isSome_iff_exists.mp (hall w (by simp [hwords]))
    exact ⟨v, by simp [hv, Store.past, hwords]⟩

theorem exists_valueOf {x : String} (h : σ.Has n x) : ∃ v, Meaning.valueOf n x σ = .ok v σ := by
  obtain ⟨scope, v, hscope, hv⟩ := h
  exact ⟨v, by simp [Meaning.valueOf, hscope, hv]⟩

/-- Two operands, one after the other. -/
theorem exists_operands {x y : Meaning Float} {f : Float → Float → Float} {k l : Nat}
    (hx : ∃ a, x σ = .ok a (σ.past k)) (hy : ∃ b, y (σ.past k) = .ok b ((σ.past k).past l)) :
    ∃ v, (do let a ← x; let b ← y; return f a b : Meaning Float) σ = .ok v (σ.past (k + l)) := by
  obtain ⟨a, hx⟩ := hx
  obtain ⟨b, hy⟩ := hy
  exact ⟨f a b, by rw [bind_of_ok hx, bind_of_ok hy, Store.past_past]; rfl⟩

/-- An expression has a value if its variables have one and there are enough numbers to read. -/
theorem Expr.exists_eval {l : Level} (e : Expr l) :
    ∀ {σ : Store}, (∀ x ∈ e.mentions, σ.Has n x) → Numeric e.inputs σ.words →
      ∃ v, e.eval n σ = .ok v (σ.past e.inputs) := by
  have hnone : ∀ {σ : Store}, σ = σ.past 0 := rfl
  induction e with
  | input => exact fun _ hwords => exists_readNumber hwords
  | ofSum e ih => exact ih
  | ofTerm e ih => exact ih
  | add left s right ihl ihr =>
    intro σ hmentions hwords
    obtain ⟨hl, hr⟩ := List.forall_mem_append.mp hmentions
    exact exists_operands (ihl hl hwords.split.1) (ihr hr hwords.split.2)
  | ofFactor e ih => exact ih
  | multiply left s right ihl ihr =>
    intro σ hmentions hwords
    obtain ⟨hl, hr⟩ := List.forall_mem_append.mp hmentions
    exact exists_operands (ihl hl hwords.split.1) (ihr hr hwords.split.2)
  | name x =>
    intro σ hmentions _
    rw [inputs, ← hnone]
    exact exists_valueOf (hmentions x (List.mem_singleton_self x))
  | number x => exact fun _ _ => ⟨x.value, rfl⟩
  | group e ih => exact ih

/-- One if the condition holds, and zero if not. -/
def Condition.truth (n : Names) (c : Condition) : Meaning Float := do
  let holds ← c.eval n
  return if holds then 1 else 0

/-- A condition has a value if both sides have one. -/
theorem Condition.exists_truth (c : Condition)
    (hmentions : ∀ x ∈ c.left.mentions ++ c.right.mentions, σ.Has n x)
    (hwords : Numeric (c.left.inputs + c.right.inputs) σ.words) :
    ∃ v, c.truth n σ = .ok v (σ.past (c.left.inputs + c.right.inputs)) := by
  obtain ⟨hl, hr⟩ := List.forall_mem_append.mp hmentions
  obtain ⟨a, ha⟩ := c.left.exists_eval hl hwords.split.1
  have hright : ∀ x ∈ c.right.mentions, (σ.past c.left.inputs).Has n x := hr
  obtain ⟨b, hb⟩ := c.right.exists_eval hright hwords.split.2
  refine ⟨if c.comparison.holds a b then 1 else 0, ?_⟩
  have heval : c.eval n σ = .ok (c.comparison.holds a b) (σ.past (c.left.inputs + c.right.inputs)) := by
    rw [Condition.eval, bind_of_ok ha, bind_of_ok hb, Store.past_past]
    rfl
  rw [Condition.truth, bind_of_ok heval]
  rfl

end Values

end Grammar

/-! ## What a machine stands for -/

namespace Machine

open Grammar

/-- What the cell of a variable holds, if the name can be found and there is such a cell. -/
def holding (m : Machine) (book : AddressBook) (x : String) : Option Float :=
  (book.find? x).bind fun v => m.memory[m.cell v.scope v.address.toNat]?

/-- The store in which every name has the value that its cell holds. -/
def viewed (m : Machine) (book : AddressBook) : Store where
  globals := m.holding book
  locals := m.holding book
  words := m.input.words
  printed := m.printed

theorem inScope_viewed (m : Machine) (book : AddressBook) (scope : Scope) :
    (m.viewed book).inScope scope = m.holding book := by
  cases scope <;> rfl

variable {book : AddressBook}

/-- A machine shows the store that it stands for. -/
theorem shows_viewed (h : book.Sound) (m : Machine) :
    Simulation.Shows book.names (m.viewed book) m where
  cell {x scope v} hscope hv := by
    have hfind := book.find?_eq h x
    rw [hscope] at hfind
    obtain ⟨w, hw, rfl, haddress⟩ := hfind
    rw [inScope_viewed, holding, hw, Option.bind_some, haddress, Int.toNat_natCast] at hv
    exact hv
  words := rfl

/-- A variable whose cell exists has a value. -/
theorem has_viewed (h : book.Sound) {m : Machine} {x : String} (hx : (m.holding book x).isSome) :
    (m.viewed book).Has book.names x := by
  have hfind := book.find?_eq h x
  cases hscope : book.names.scope? x with
  | none =>
    rw [hscope] at hfind
    simp [holding, hfind] at hx
  | some scope =>
    obtain ⟨v, hv⟩ := Option.isSome_iff_exists.mp hx
    exact ⟨scope, v, hscope, by rw [inScope_viewed, hv]⟩

end Machine

end StackPrimer

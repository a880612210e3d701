import StackPrimer.Proofs.Grammar.Meaning
import StackPrimer.Proofs.Machine.Turn
import StackPrimer.Proofs.OnePass.Action
import StackPrimer.Proofs.Stretch

/-!
# Stores and memory

While a tree is carried out, every variable that has been assigned has its value in the cell of its
address. Nothing is said of other cells: reserving a cell may be skipped or repeated, so that how far
memory reaches says nothing about which variables there are. What keeps the variables of the program
from being touched inside a function is that those assigned lie in front of the frame.

Results:
* `Agrees.cell`: a variable that has a value has it in its cell.
* `Agrees.assign`: storing into the cell of a variable is assigning it.
-/

namespace StackPrimer.Simulation

open Grammar

/-! ## Code in place -/

/-- The program has these instructions from the address on. -/
def CodeAt (p : Program) (a : Nat) (is : List Instruction) : Prop :=
  ∀ (j : Nat) (i : Instruction), is[j]? = some i → p[a + j]? = some i

namespace CodeAt

variable {p : Program} {a : Nat} {i : Instruction} {is js : List Instruction}

theorem cons_iff : CodeAt p a (i :: is) ↔ p[a]? = some i ∧ CodeAt p (a + 1) is :=
  forall_at_cons (P := fun a i => p[a]? = some i)

theorem append_iff : CodeAt p a (is ++ js) ↔ CodeAt p a is ∧ CodeAt p (a + is.length) js :=
  forall_at_append (P := fun a i => p[a]? = some i)

theorem head (h : CodeAt p a (i :: is)) : p[a]? = some i := (cons_iff.mp h).1

theorem tail (h : CodeAt p a (i :: is)) : CodeAt p (a + 1) is := (cons_iff.mp h).2

theorem left (h : CodeAt p a (is ++ js)) : CodeAt p a is := (append_iff.mp h).1

theorem right (h : CodeAt p a (is ++ js)) : CodeAt p (a + is.length) js := (append_iff.mp h).2

end CodeAt

/-! ## Agreement -/

/-- The machine agrees with the store. `G` is the list of all variables of the program; the names are
those bound behind the code that is being carried out, which is that of a function or not. -/
structure Agrees (G : List String) (fin : Names) (σ : Store) (m : Machine) : Prop where
  globals : ∀ x v, σ.globals x = some v → x ∈ G ∧ m.memory[G.idxOf x]? = some v
  locals : ∀ x v, σ.locals x = some v →
    x ∈ fin.inner ∧ m.memory[m.frame + fin.inner.idxOf x]? = some v
  /-- In a function, the variables of the program that have been assigned lie in front of the frame. -/
  apart : fin.home = .function → ∀ x v, σ.globals x = some v → G.idxOf x < m.frame
  outside : fin.home = .global → m.frame = 0
  fits : m.frame ≤ m.memory.size
  words : m.input.words = σ.words
  printed : m.printed = σ.printed

section Agrees

variable {G : List String} {n fin : Names} {σ : Store} {m : Machine}

/-- A variable that has a value has it in its cell. -/
theorem Agrees.cell (h : Agrees G fin σ m) (hn : n.Le fin) (hG : fin.globals <+: G) {x : String}
    {scope : Scope} {v : Float} (hscope : n.scope? x = some scope) (hv : σ.inScope scope x = some v) :
    m.memory[m.cell scope (n.address scope x)]? = some v := by
  have hx : x ∈ n.inScope scope := Names.mem_of_scope? hscope
  cases scope with
  | global =>
    have haddress : G.idxOf x = n.globals.idxOf x :=
      Names.idxOf_of_prefix (hn.globals.trans hG) hx
    have hcell := (h.globals x v hv).2
    rw [haddress] at hcell
    exact hcell
  | function =>
    have haddress : fin.inner.idxOf x = n.inner.idxOf x := Names.idxOf_of_prefix hn.inner hx
    have hcell := (h.locals x v hv).2
    rw [haddress] at hcell
    exact hcell

/-- The stack and the address have no part in it, and reading only concerns the words. -/
theorem Agrees.read (h : Agrees G fin σ m) {stack : List Float} {ip : Int} {input : Input}
    {words : List (List Char)} (hwords : input.words = words) :
    Agrees G fin { σ with words } { m with stack, ip, input } :=
  ⟨h.globals, h.locals, h.apart, h.outside, h.fits, hwords, h.printed⟩

theorem Agrees.goOn (h : Agrees G fin σ m) {stack : List Float} {ip : Int} :
    Agrees G fin σ { m with stack, ip } :=
  ⟨h.globals, h.locals, h.apart, h.outside, h.fits, h.words, h.printed⟩

theorem Agrees.print (h : Agrees G fin σ m) {stack : List Float} {ip : Int} (line : String) :
    Agrees G fin { σ with printed := line :: σ.printed }
      { m with stack, ip, printed := line :: m.printed } :=
  ⟨h.globals, h.locals, h.apart, h.outside, h.fits, h.words, by rw [← h.printed]⟩

theorem getElem?_push_of_some {memory : Array Float} {i : Nat} {v z : Float}
    (h : memory[i]? = some v) : (memory.push z)[i]? = some v := by
  have hi : i < memory.size := (Array.getElem?_eq_some_iff.mp h).1
  rw [Array.getElem?_push_lt hi, ← h, Array.getElem?_eq_getElem hi]

/-- Nothing is lost when a cell is reserved. -/
theorem Agrees.reserve (h : Agrees G fin σ m) {ip : Int} (z : Float) :
    Agrees G fin σ { m with ip, memory := m.memory.push z } where
  globals x v hv := ⟨(h.globals x v hv).1, getElem?_push_of_some (h.globals x v hv).2⟩
  locals x v hv := ⟨(h.locals x v hv).1, getElem?_push_of_some (h.locals x v hv).2⟩
  apart := h.apart
  outside := h.outside
  fits := by
    rw [Array.size_push]
    exact Nat.le_succ_of_le h.fits
  words := h.words
  printed := h.printed

/-- Among variables that have cells of their own, storing into the cell of one is assigning it. -/
theorem cell_of_update {xs : List String} {values : String → Option Float} {memory : Array Float}
    {start : Nat}
    (hcells : ∀ y w, values y = some w → y ∈ xs ∧ memory[start + xs.idxOf y]? = some w) {x : String}
    (hx : x ∈ xs) {v : Float} (y : String) (w : Float)
    (hw : Function.update values x (some v) y = some w) :
    y ∈ xs ∧ (Machine.written memory (start + xs.idxOf x) v)[start + xs.idxOf y]? = some w := by
  by_cases hy : y = x
  · subst hy
    rw [Function.update_self] at hw
    exact ⟨hx, by rw [Machine.getElem?_written_self, hw]⟩
  · rw [Function.update_of_ne hy] at hw
    obtain ⟨hmem, hcell⟩ := hcells y w hw
    have hne : start + xs.idxOf x ≠ start + xs.idxOf y := fun heq =>
      hy ((List.idxOf_inj hx).mp (Nat.add_left_cancel heq)).symm
    exact ⟨hmem, Machine.getElem?_written_of_ne hne hcell⟩

/-- Outside of functions, storing at the address of a variable is assigning it. -/
theorem Agrees.storeGlobal (h : Agrees G fin σ m) (hhome : fin.home = .global) {x : String}
    (hx : x ∈ G) {v : Float} {stack : List Float} {ip : Int} :
    Agrees G fin { σ with globals := Function.update σ.globals x (some v) }
      { m with stack, ip, memory := Machine.written m.memory (G.idxOf x) v } where
  globals := by
    have hcells : ∀ y w, σ.globals y = some w → y ∈ G ∧ m.memory[0 + G.idxOf y]? = some w := by
      simpa only [Nat.zero_add] using h.globals
    simpa only [Nat.zero_add] using cell_of_update hcells hx
  locals y w hw := by
    have hy := (h.locals y w hw).1
    rw [Names.inner_eq_nil hhome] at hy
    cases hy
  apart hfunction := by
    rw [hhome] at hfunction
    cases hfunction
  outside := h.outside
  fits := by
    rw [Machine.size_written]
    exact Nat.le_trans h.fits (Nat.le_max_left ..)
  words := h.words
  printed := h.printed

/-- In a function, storing at the address of a variable in the frame is assigning it. -/
theorem Agrees.storeLocal (h : Agrees G fin σ m) (hhome : fin.home = .function) {x : String}
    (hx : x ∈ fin.inner) {v : Float} {stack : List Float} {ip : Int} :
    Agrees G fin { σ with locals := Function.update σ.locals x (some v) }
      { m with
        stack, ip, memory := Machine.written m.memory (m.frame + fin.inner.idxOf x) v } where
  globals y w hw := by
    obtain ⟨hyG, hcell⟩ := h.globals y w hw
    have hlt := h.apart hhome y w hw
    exact ⟨hyG, Machine.getElem?_written_of_ne (by omega) hcell⟩
  locals := cell_of_update h.locals hx
  apart := h.apart
  outside hglobal := by
    rw [hhome] at hglobal
    cases hglobal
  fits := by
    rw [Machine.size_written]
    exact Nat.le_trans h.fits (Nat.le_max_left ..)
  words := h.words
  printed := h.printed

/-- Storing into the cell of a variable is assigning it. -/
theorem Agrees.assign (h : Agrees G fin σ m) (hn : n.Le fin) (hG : fin.globals <+: G) {x : String}
    (hx : x ∈ n.inScope n.home) {v : Float} {σ' : Store} {stack : List Float} {ip : Int}
    (hassign : Meaning.assign n.home x v σ = .ok () σ') :
    Agrees G fin σ' { m with
      stack, ip, memory := Machine.written m.memory (m.cell n.home (n.address n.home x)) v } := by
  cases hhome : n.home with
  | global =>
    rw [hhome] at hassign hx
    have haddress : G.idxOf x = n.globals.idxOf x := Names.idxOf_of_prefix (hn.globals.trans hG) hx
    injection hassign with _ hσ
    subst hσ
    have hstore : Agrees G fin { σ with globals := Function.update σ.globals x (some v) }
        { m with stack, ip, memory := Machine.written m.memory (G.idxOf x) v } :=
      h.storeGlobal (by rw [← hn.home, hhome]) ((hn.globals.trans hG).subset hx)
    rwa [haddress] at hstore
  | function =>
    rw [hhome] at hassign hx
    have haddress : fin.inner.idxOf x = n.inner.idxOf x := Names.idxOf_of_prefix hn.inner hx
    injection hassign with _ hσ
    subst hσ
    have hstore : Agrees G fin { σ with locals := Function.update σ.locals x (some v) } { m with
        stack, ip, memory := Machine.written m.memory (m.frame + fin.inner.idxOf x) v } :=
      h.storeLocal (by rw [← hn.home, hhome]) (hn.inner.subset hx)
    rwa [haddress] at hstore

end Agrees

end StackPrimer.Simulation

import Mathlib.Data.List.TakeWhile
import StackPrimer.Proofs.OnePass.Action

/-!
# When an action succeeds

The single actions succeed under conditions that can be read off the state. Together with what a
successful action has done this says all there is to know about them.

Results:
* `exists_land`: a jump that has been written can land.
* `exists_load`, `exists_store`: a variable that can be found can be used.
-/

namespace StackPrimer.Compilation

open Grammar

variable {s : State}

/-! ## Tokens -/

theorem current_ok (s : State) : current s = .ok s.token s := rfl

theorem currentKind_ok (s : State) : currentKind s = .ok s.token.kind s := rfl

theorem exists_advance (h : s.upcoming ≠ []) : ∃ s', advance s = .ok () s' := by
  unfold advance
  split
  · exact ⟨s, rfl⟩
  · split
    · contradiction
    · exact ⟨_, rfl⟩

theorem exists_skipIndents (h : ∃ t ∈ s.tokens, t.kind ≠ .indent) :
    ∃ s', skipIndents s = .ok () s' := by
  obtain ⟨t, ht, hk⟩ := h
  unfold skipIndents
  split
  · rename_i hnone
    rw [List.dropWhile_eq_nil_iff] at hnone
    exact absurd (by simpa using hnone t ht) hk
  · exact ⟨_, rfl⟩

/-! ## Code -/

theorem exists_emit (op : Opcode) (x : Option Operand) (h : op.takesOperand = x.isSome)
    (s : State) : ∃ a s', emit op x s = .ok a s' := by
  unfold emit
  rw [Log.emit_listed h]
  exact ⟨_, _, rfl⟩

theorem exists_emitInt (op : Opcode) (h : op.takesOperand = true) (n : Int) (s : State) :
    ∃ a s', emitInt op n s = .ok a s' :=
  exists_emit op _ (by simpa using h) s

theorem exists_emitPlain {op : Opcode} (h : op.takesOperand = false) (s : State) :
    ∃ s', emitPlain op s = .ok () s' := by
  obtain ⟨a, s', hemit⟩ := exists_emit op none (by simpa using h) s
  exact ⟨s', bind_of_ok hemit⟩

/-- A jump that has been written can land. -/
theorem exists_land {before after : List Instruction} {op : Opcode} {x : Operand} {a : Int}
    (hs : s.code = before ++ .of op (some x) :: after) (ha : a = before.length) :
    ∃ s', land a s = .ok () s' := by
  have hget : s.log.instructions[before.length]? = some (.of op (some x)) := by
    rw [← Array.getElem?_toList, show s.log.instructions.toList = _ from hs]
    simp
  unfold land Log.patch
  rw [ha, if_pos (Int.natCast_nonneg _), Int.toNat_natCast, hget]
  exact ⟨_, rfl⟩

/-- The same, where the jump has been written since the state `s`. -/
theorem exists_land_since {s s₁ : State} {ts : List Terminal} {before after : List Instruction}
    {op : Opcode} {x : Operand} {a : Int}
    (h : Advances s s₁ ts (before ++ .of op (some x) :: after))
    (ha : a = (s.code.length + before.length : Nat)) : ∃ s', land a s₁ = .ok () s' := by
  have hcode : s₁.code = (s.code ++ before) ++ .of op (some x) :: after := by
    rw [h.code, List.append_assoc]
  exact exists_land hcode (by rw [ha, List.length_append])

/-! ## Names -/

/-- A name that is bound is found. -/
theorem exists_lookup {t : Token} (hs : s.book.Sound)
    (ht : (s.book.names.scope? t.lexeme).isSome) : ∃ v, lookup t s = .ok (some v) s := by
  have hfind := s.book.find?_eq hs t.lexeme
  obtain ⟨scope, hscope⟩ := Option.isSome_iff_exists.mp ht
  rw [hscope] at hfind
  obtain ⟨v, hv, -⟩ := hfind
  exact ⟨v, by rw [lookup, hv]⟩

theorem exists_load {t : Token} (hs : s.book.Sound)
    (ht : (s.book.names.scope? t.lexeme).isSome) : ∃ s', load t s = .ok () s' := by
  obtain ⟨v, hlookup⟩ := exists_lookup hs ht
  obtain ⟨a, s', hemit⟩ := exists_emitInt
    (if v.scope = .function then .loadLocal else .loadGlobal) (by split <;> rfl) v.address s
  unfold load
  rw [bind_of_ok hlookup]
  exact ⟨s', bind_of_ok hemit⟩

theorem exists_store {t : Token} (hs : s.book.Sound)
    (ht : (s.book.names.scope? t.lexeme).isSome) : ∃ s', store t s = .ok () s' := by
  obtain ⟨v, hlookup⟩ := exists_lookup hs ht
  obtain ⟨a, s', hemit⟩ := exists_emitInt
    (if v.scope = .function then .storeLocal else .storeGlobal) (by split <;> rfl) v.address s
  unfold store
  rw [bind_of_ok hlookup]
  exact ⟨s', bind_of_ok hemit⟩

theorem exists_declare (t : Token) (s : State) : ∃ s', declare t s = .ok () s' := by
  have hadd : ∃ a s₁, addVariable t s = .ok a s₁ := ⟨_, _, rfl⟩
  obtain ⟨a, s₁, hadd⟩ := hadd
  obtain ⟨b, s₂, hemit⟩ := exists_emitInt .allocate rfl 1 s₁
  unfold declare
  rw [bind_of_ok hadd]
  exact ⟨s₂, bind_of_ok hemit⟩

/-- A function can be declared under a name that is new among functions. -/
theorem exists_addFunction {t : Token} (h : t.lexeme ∉ s.book.functionNames) :
    ∃ s', addFunction t s = .ok () s' := by
  unfold addFunction AddressBook.addFunction Layer.mount
  rw [Layer.contains_eq,
    decide_eq_false (show (Mention.ofToken t).text ∉ s.book.functions.names from h)]
  exact ⟨_, rfl⟩

theorem exists_enterFunction (h : s.book.names.home = .global) :
    ∃ s', enterFunction s = .ok () s' := by
  rw [AddressBook.home_names] at h
  unfold enterFunction AddressBook.enter
  rw [h]
  exact ⟨_, rfl⟩

theorem exists_exitFunction (h : s.book.names.home = .function) :
    ∃ s', exitFunction s = .ok () s' := by
  rw [AddressBook.home_names] at h
  unfold exitFunction AddressBook.exit
  rw [h]
  exact ⟨_, rfl⟩

end StackPrimer.Compilation

import Mathlib.Data.Set.Insert
import StackPrimer.Code.Log

/-!
# Code that stands further on

The same code can be written at the start of a log or behind instructions that are there already.
What differs are the operands that are addresses. A jump whose target is not known yet differs in
nothing, because it is written with a zero in either place; it will once it has landed.

Results:
* `Copied.push`, `Copied.pushWaiting`: what is written on both sides keeps one program a copy of the
  other.
* `Copied.land`: so does a jump that lands on both sides.
* `Copied.eq_map`: where all jumps have landed, the copy is the program with its addresses moved.
-/

namespace StackPrimer

/-- Whether the operand of the operation is the address of an instruction. -/
def Opcode.addresses : Opcode → Bool
  | jump | jumpIfZero | pushReturn | call => true
  | _ => false

namespace Instruction

/-- The instruction where what it refers to stands `n` addresses further on. -/
def relocate (n : Nat) : Instruction → Instruction
  | ⟨.listed op, some (.int a)⟩ => .of op (some (.int (if op.addresses then n + a else a)))
  | i => i

theorem relocate_of_addresses (n : Nat) {op : Opcode} (h : op.addresses = true) (a : Int) :
    relocate n (.of op (some (.int a))) = .of op (some (.int (n + a))) := by
  simp [relocate, of, h]

/-- Nothing but addresses is changed. -/
theorem relocate_of_not_addresses (n : Nat) {op : Opcode} (h : op.addresses = false)
    (x : Option Operand) : relocate n (.of op x) = .of op x := by
  rcases x with _ | (a | x) <;> simp [relocate, of, h]

theorem relocate_plain (n : Nat) (op : Opcode) : relocate n (.of op none) = .of op none := rfl

end Instruction

/-- The second program is the first one, to stand behind `n` instructions. At the places in `waiting`
both have the same instruction, with an operand that will become an address. -/
structure Copied (n : Nat) (waiting : Set Nat) (p q : Program) : Prop where
  size : q.size = p.size
  settled : ∀ k, k ∉ waiting → q[k]? = p[k]?.map (Instruction.relocate n)
  unsettled : ∀ k ∈ waiting, ∃ op a, op.addresses = true ∧
    p[k]? = some (.of op (some (.int a))) ∧ q[k]? = some (.of op (some (.int a)))

namespace Copied

variable {n : Nat} {waiting : Set Nat} {p q : Program}

theorem empty (n : Nat) : Copied n ∅ #[] #[] := ⟨rfl, by simp, by simp⟩

theorem lt_size (h : Copied n waiting p q) {k : Nat} (hk : k ∈ waiting) : k < p.size := by
  obtain ⟨op, a, -, hp, -⟩ := h.unsettled k hk
  exact (Array.getElem?_eq_some_iff.mp hp).1

/-- The next address is no place at which anything waits. -/
theorem size_notMem (h : Copied n waiting p q) : p.size ∉ waiting := fun hmem =>
  absurd (h.lt_size hmem) (Nat.lt_irrefl _)

/-- What is there stays as it is when more is written. -/
theorem getElem?_push_of_mem (h : Copied n waiting p q) {k : Nat} (hk : k ∈ waiting)
    (i j : Instruction) : (p.push i)[k]? = p[k]? ∧ (q.push j)[k]? = q[k]? := by
  have hp := h.lt_size hk
  have hq : k < q.size := h.size.symm ▸ hp
  exact ⟨by rw [Array.getElem?_push, if_neg hp.ne], by rw [Array.getElem?_push, if_neg hq.ne]⟩

/-- An instruction written on one side, and on the other one with its address moved. -/
theorem push (h : Copied n waiting p q) (i : Instruction) :
    Copied n waiting (p.push i) (q.push (i.relocate n)) where
  size := by simp [h.size]
  settled k hk := by
    rw [Array.getElem?_push, Array.getElem?_push, h.size]
    split
    · rfl
    · exact h.settled k hk
  unsettled k hk := by
    obtain ⟨hp, hq⟩ := h.getElem?_push_of_mem hk i (i.relocate n)
    rw [hp, hq]
    exact h.unsettled k hk

/-- A jump written on both sides that will land later. -/
theorem pushWaiting (h : Copied n waiting p q) {op : Opcode} (hop : op.addresses = true) (a : Int) :
    Copied n (insert p.size waiting) (p.push (.of op (some (.int a))))
      (q.push (.of op (some (.int a)))) where
  size := by simp [h.size]
  settled k hk := by
    rw [Set.mem_insert_iff, not_or] at hk
    rw [Array.getElem?_push, Array.getElem?_push, h.size, if_neg hk.1, if_neg hk.1]
    exact h.settled k hk.2
  unsettled k hk := by
    rcases Set.mem_insert_iff.mp hk with rfl | hk
    · exact ⟨op, a, hop, by simp, by simp [← h.size]⟩
    · obtain ⟨hp, hq⟩ := h.getElem?_push_of_mem hk (.of op (some (.int a)))
        (.of op (some (.int a)))
      rw [hp, hq]
      exact h.unsettled k hk

/-- A jump that lands on both sides, at places that correspond. -/
theorem land {k : Nat} {op : Opcode} (h : Copied n (insert k waiting) p q) (hk : k ∉ waiting)
    (hop : op.addresses = true) (a : Int) :
    Copied n waiting (p.setIfInBounds k (.of op (some (.int a))))
      (q.setIfInBounds k (.of op (some (.int (n + a))))) where
  size := by simp [h.size]
  settled l hl := by
    rw [Array.getElem?_setIfInBounds, Array.getElem?_setIfInBounds, h.size]
    by_cases hkl : k = l
    · rw [if_pos hkl, if_pos hkl, apply_ite (Option.map _), Option.map_some, Option.map_none,
        Instruction.relocate_of_addresses n hop]
    · rw [if_neg hkl, if_neg hkl]
      exact h.settled l (by simp [hl, Ne.symm hkl])
  unsettled l hl := by
    have hkl : k ≠ l := fun hkl => hk (hkl ▸ hl)
    rw [Array.getElem?_setIfInBounds, Array.getElem?_setIfInBounds, if_neg hkl, if_neg hkl]
    exact h.unsettled l (Set.mem_insert_of_mem k hl)

/-- Where all jumps have landed, the copy is the program with its addresses moved. -/
theorem eq_map (h : Copied n ∅ p q) : q = p.map (Instruction.relocate n) :=
  Array.ext_getElem? fun k => (h.settled k (Set.notMem_empty k)).trans Array.getElem?_map.symm

end Copied

/-! ## The log behind other instructions -/

/-- The program behind the instructions of `old`, with its addresses moved. -/
def Program.onto (p : Program) (old : Log) : Program :=
  old.instructions ++ p.map (Instruction.relocate old.size)

namespace Log

/-- The log of the instructions of `old` and those behind them. -/
def followedBy (old : Log) (later : Program) : Log := ⟨old.instructions ++ later⟩

theorem size_followedBy (old : Log) (later : Program) :
    (old.followedBy later).size = old.size + later.size := by
  simp [followedBy, size]

/-- Writing behind other instructions leaves those as they are. -/
theorem emit_followedBy {old : Log} {op : Opcode} {x : Option Operand}
    (h : op.takesOperand = x.isSome) (later : Program) :
    (old.followedBy later).emit (.listed op) x =
      (.ok (old.size + later.size), old.followedBy (later.push (.of op x))) := by
  rw [emit_listed h, size_followedBy, followedBy, Array.push_append]
  rfl

theorem patch_of_getElem? {log : Log} {k : Nat} {op : Opcode} {a : Int}
    (h : log.instructions[k]? = some (.of op (some (.int a)))) (target : Int) :
    log.patch k (some (.int target)) =
      (.ok (), ⟨log.instructions.setIfInBounds k (.of op (some (.int target)))⟩) := by
  rw [patch, if_pos (Int.natCast_nonneg k), Int.toNat_natCast, h]
  rfl

/-- Replacing the operand of one of the instructions behind leaves those in front as they are. -/
theorem patch_followedBy {old : Log} {later : Program} {k : Nat} {op : Opcode} {a : Int}
    (h : later[k]? = some (.of op (some (.int a)))) (target : Int) :
    (old.followedBy later).patch (old.size + k : Nat) (some (.int target)) =
      (.ok (), old.followedBy (later.setIfInBounds k (.of op (some (.int target))))) := by
  have hget : (old.followedBy later).instructions[old.size + k]? =
      some (.of op (some (.int a))) := by
    rw [followedBy, size, Array.getElem?_append_right (Nat.le_add_right ..), Nat.add_sub_cancel_left,
      h]
  rw [patch_of_getElem? hget, followedBy, size, followedBy,
    Array.setIfInBounds_append_right (Nat.le_add_right ..), Nat.add_sub_cancel_left]

end Log

end StackPrimer

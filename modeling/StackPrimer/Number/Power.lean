/-!
# Powers of two and ten

The places of binary and of decimal numbers.

Results:
* `twoTo_succ`, `twoTo_add`, `tenTo_succ`, `tenTo_add`: one more place, and places put together.
* `twoTo_pos`, `tenTo_pos`: no power is zero.
-/

namespace StackPrimer.Number

/-- The power of two with the exponent `n`. -/
def twoTo (n : Nat) : Nat := Nat.pow 2 n

/-- The power of ten with the exponent `n`. -/
def tenTo (n : Nat) : Nat := Nat.pow 10 n

@[simp] theorem twoTo_zero : twoTo 0 = 1 := rfl

@[simp] theorem tenTo_zero : tenTo 0 = 1 := rfl

theorem twoTo_succ (n : Nat) : twoTo (n + 1) = twoTo n * 2 := rfl

theorem tenTo_succ (n : Nat) : tenTo (n + 1) = tenTo n * 10 := rfl

theorem twoTo_add (m n : Nat) : twoTo (m + n) = twoTo m * twoTo n := by
  induction n with
  | zero => simp
  | succ n ih => rw [← Nat.add_assoc, twoTo_succ, twoTo_succ, ih, Nat.mul_assoc]

theorem tenTo_add (m n : Nat) : tenTo (m + n) = tenTo m * tenTo n := by
  induction n with
  | zero => simp
  | succ n ih => rw [← Nat.add_assoc, tenTo_succ, tenTo_succ, ih, Nat.mul_assoc]

theorem twoTo_pos (n : Nat) : 0 < twoTo n := by
  induction n with
  | zero => decide
  | succ n ih =>
    rw [twoTo_succ]
    omega

theorem tenTo_pos (n : Nat) : 0 < tenTo n := by
  induction n with
  | zero => decide
  | succ n ih =>
    rw [tenTo_succ]
    omega

end StackPrimer.Number

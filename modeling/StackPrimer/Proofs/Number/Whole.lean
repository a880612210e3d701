import StackPrimer.Machine.Fault
import StackPrimer.Proofs.Number.Rounding

/-!
# Whole numbers as double-precision numbers

A whole number below 2⁵³ is a double-precision number, and is found again in it. Return addresses
travel on the operand stack in this form.

Results:
* `parts_ofRatio_whole`: a small whole number is rounded to itself.
* `exists_ofInt?`: a small address can become a number, which is then that address.
-/

namespace StackPrimer.Number

/-- The mantissa of a whole number is the number shifted to the left as far as it goes. -/
theorem mantissa_bounds {n : Nat} (hpos : n ≠ 0) (h : n < 2 ^ 53) :
    2 ^ 52 ≤ n * 2 ^ (52 - n.log2) ∧ n * 2 ^ (52 - n.log2) < 2 ^ 53 := by
  have hlog : n.log2 < 53 := (Nat.log2_lt hpos).mpr h
  have hle : 2 ^ n.log2 ≤ n := Nat.log2_self_le hpos
  have hlt : n < 2 ^ (n.log2 + 1) := Nat.lt_log2_self
  have hsplit : 2 ^ n.log2 * 2 ^ (52 - n.log2) = 2 ^ 52 := by
    rw [← Nat.pow_add]
    congr 1
    omega
  have hsplit' : 2 ^ (n.log2 + 1) * 2 ^ (52 - n.log2) = 2 ^ 53 := by
    rw [← Nat.pow_add]
    congr 1
    omega
  constructor
  · rw [← hsplit]
    exact Nat.mul_le_mul_right _ hle
  · rw [← hsplit']
    exact Nat.mul_lt_mul_of_pos_right hlt (Nat.two_pow_pos _)

/-- A small whole number is a number with no places behind the point. -/
theorem parts_ofRatio_whole {n : Nat} (hpos : n ≠ 0) (h : n < 2 ^ 53) :
    parts (ofRatio false n 1) = .finite false (n * 2 ^ (52 - n.log2)) ((n.log2 : Int) - 52) := by
  have hlog : n.log2 < 53 := (Nat.log2_lt hpos).mpr h
  obtain ⟨hge, hlt⟩ := mantissa_bounds hpos h
  have hvalue : (n : ℚ) / (1 : Nat) = (n * 2 ^ (52 - n.log2) : Nat) * 2 ^ ((n.log2 : Int) - 52) := by
    have hshift : (2 : ℚ) ^ (52 - n.log2) * 2 ^ ((n.log2 : Int) - 52) = 1 := by
      rw [← zpow_natCast, ← zpow_add₀ (by norm_num),
        show ((52 - n.log2 : Nat) : Int) + ((n.log2 : Int) - 52) = 0 by omega, zpow_zero]
    push_cast
    rw [mul_assoc, hshift]
    norm_num
  apply parts_ofRatio false (by decide) ⟨hlt, by omega, by omega, fun _ => hge⟩ (by omega)
  rw [hvalue]
  exact near_self (by omega)

/-- A number shifted to the left is whole, and the number before. -/
theorem wholeOf?_shift {n : Nat} (hpos : n ≠ 0) (h : n < 2 ^ 53) :
    wholeOf? false (n * 2 ^ (52 - n.log2)) ((n.log2 : Int) - 52) = some (n : Int) := by
  have hlog : n.log2 < 53 := (Nat.log2_lt hpos).mpr h
  unfold wholeOf?
  by_cases hfull : n.log2 = 52
  · simp [hfull]
  · have hplaces : (-((n.log2 : Int) - 52)).toNat = 52 - n.log2 := by omega
    simp only [Bool.false_eq_true, if_false]
    rw [if_neg (by omega), hplaces, twoTo_eq, if_pos (Nat.mul_mod_left ..),
      Nat.mul_div_cancel _ (Nat.two_pow_pos _)]

/-- A small address can become a number, which is then that address. -/
theorem exists_ofInt? {n : Nat} (h : n < 2 ^ 53) :
    ∃ x, ofInt? n = some x ∧ Operand.address (.float x) = .ok (n : Int) := by
  by_cases hpos : n = 0
  · subst hpos
    have hparts : parts (ofRatio false 0 1) = .finite false 0 (-1074) := by decide +kernel
    refine ⟨ofRatio false 0 1, by decide +kernel, ?_⟩
    simp only [Operand.address, hparts, wholeOf?, Nat.zero_mod, Nat.zero_div]
    rfl
  · have hparts := parts_ofRatio_whole hpos h
    have hnonneg : decide ((n : Int) < 0) = false := by simp
    refine ⟨ofRatio false n 1, ?_, ?_⟩
    · simp only [ofInt?, hnonneg, Int.natAbs_natCast, hparts]
    · simp only [Operand.address, hparts, wholeOf?_shift hpos h]

end StackPrimer.Number

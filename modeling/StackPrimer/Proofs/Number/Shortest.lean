import StackPrimer.Number.Shortest
import StackPrimer.Proofs.Number.Digit
import StackPrimer.Proofs.Number.Rounding

/-!
# The shortest decimal reads back

The decimals with a given last place form a grid. If the grid is finer than the interval of a double is
wide, then one of the two neighbours of the double on the grid lies in the interval. With seventeen
digits the grid is always fine enough, so the search ends with a decimal in the interval, and zeros
dropped at its end do not change it.

Results:
* `near_of_onGrid?`, `isSome_onGrid?`: what is found on a grid, and when.
* `ten_zpow_le_of_wholeDigits`: the first digit of a number is not taken to be further in front than it is.
* `near_shortest`: the shortest decimal is rounded to the double that it has been found for.
-/

namespace StackPrimer.Number

/-- The number that a decimal is. -/
def Decimal.value (d : Decimal) : ℚ := d.digits * 10 ^ d.exponent

theorem ten_zpow_pos (k : Int) : (0 : ℚ) < 10 ^ k := zpow_pos (by norm_num) k

/-- Powers with exponents of either sign, as whole numbers. -/
theorem zpow_mul_toNat {b : ℚ} (hb : b ≠ 0) (k : Int) : b ^ k * b ^ (-k).toNat = b ^ k.toNat := by
  rw [← zpow_natCast, ← zpow_natCast, ← zpow_add₀ hb]
  congr 1
  omega

/-! ## Grids -/

section Grid

variable {m d : Nat} {e place : Int}

/-- A quarter of a unit of the last binary place, scaled to a whole number. -/
def gridQuarter (e place : Int) : Nat := twoTo e.toNat * tenTo (-place).toNat

/-- A unit of the last decimal place, scaled in the same way. -/
def gridUnit (e place : Int) : Nat := 4 * twoTo (-e).toNat * tenTo place.toNat

/-- Whether the decimal with these digits lies in the interval. -/
def readsBack (m : Nat) (e place : Int) (d : Nat) : Bool :=
  let value := 4 * m * gridQuarter e place
  let low := value - (if m = twoTo 52 ∧ -1074 < e then 1 else 2) * gridQuarter e place
  let high := value + 2 * gridQuarter e place
  if m % 2 = 0 then low ≤ d * gridUnit e place && d * gridUnit e place ≤ high
  else low < d * gridUnit e place && d * gridUnit e place < high

/-- The ends of the interval are multiples of a quarter. -/
theorem readsBack_eq (m : Nat) (e place : Int) (d : Nat) : readsBack m e place d =
    if m % 2 = 0 then
      decide (lowQuarter m e * gridQuarter e place ≤ d * gridUnit e place) &&
        decide (d * gridUnit e place ≤ (4 * m + 2) * gridQuarter e place)
    else
      decide (lowQuarter m e * gridQuarter e place < d * gridUnit e place) &&
        decide (d * gridUnit e place < (4 * m + 2) * gridQuarter e place) := by
  rw [lowQuarter, Nat.sub_mul, Nat.add_mul]
  rfl

theorem gridQuarter_pos (e place : Int) : 0 < gridQuarter e place :=
  Nat.mul_pos (twoTo_pos _) (tenTo_pos _)

theorem gridUnit_pos (e place : Int) : 0 < gridUnit e place :=
  Nat.mul_pos (Nat.mul_pos (by decide) (twoTo_pos _)) (tenTo_pos _)

/-- What both are scaled by. -/
def gridScale (e place : Int) : ℚ := 4 * 2 ^ (-e).toNat * 10 ^ (-place).toNat

theorem gridScale_pos (e place : Int) : 0 < gridScale e place := by
  unfold gridScale
  positivity

theorem cast_gridQuarter (e place : Int) :
    (gridQuarter e place : ℚ) = 2 ^ (e - 2) * gridScale e place := by
  rw [gridQuarter, twoTo_eq, tenTo_eq, gridScale, Nat.cast_mul, Nat.cast_pow, Nat.cast_pow,
    Nat.cast_ofNat, Nat.cast_ofNat, ← zpow_mul_toNat (by norm_num : (2 : ℚ) ≠ 0) e, two_zpow_eq_quarters e]
  ring

theorem cast_gridUnit (e place : Int) :
    (gridUnit e place : ℚ) = 10 ^ place * gridScale e place := by
  rw [gridUnit, twoTo_eq, tenTo_eq, gridScale, Nat.cast_mul, Nat.cast_mul, Nat.cast_pow, Nat.cast_pow,
    Nat.cast_ofNat, Nat.cast_ofNat, Nat.cast_ofNat,
    ← zpow_mul_toNat (by norm_num : (10 : ℚ) ≠ 0) place]
  ring

theorem le_grid_iff (k : Nat) : k * gridQuarter e place ≤ d * gridUnit e place ↔
    (k : ℚ) * 2 ^ (e - 2) ≤ d * 10 ^ place := by
  rw [← mul_le_mul_iff_left₀ (gridScale_pos e place), mul_assoc, mul_assoc, ← cast_gridQuarter,
    ← cast_gridUnit]
  exact_mod_cast Iff.rfl

theorem grid_le_iff (k : Nat) : d * gridUnit e place ≤ k * gridQuarter e place ↔
    d * 10 ^ place ≤ (k : ℚ) * 2 ^ (e - 2) := by
  rw [← mul_le_mul_iff_left₀ (gridScale_pos e place), mul_assoc, mul_assoc, ← cast_gridQuarter,
    ← cast_gridUnit]
  exact_mod_cast Iff.rfl

theorem near_of_readsBack (h : readsBack m e place d = true) : Near m e (d * 10 ^ place) := by
  have hhigh : ((4 * m + 2 : Nat) : ℚ) = 4 * m + 2 := by norm_num
  rw [readsBack_eq] at h
  split at h
  · rename_i heven
    rw [Bool.and_eq_true, decide_eq_true_eq, decide_eq_true_eq, le_grid_iff, grid_le_iff, hhigh] at h
    exact ⟨h.1, h.2, by omega⟩
  · rw [Bool.and_eq_true, decide_eq_true_eq, decide_eq_true_eq, ← not_le, ← not_le, grid_le_iff,
      le_grid_iff, hhigh, not_le, not_le] at h
    exact ⟨h.1.le, h.2.le, fun _ => h⟩

/-- The neighbour below on the grid. -/
def gridBelow (m : Nat) (e place : Int) : Nat := 4 * m * gridQuarter e place / gridUnit e place

/-- One of the two neighbours is taken, if it lies in the interval. -/
theorem onGrid?_cases (m : Nat) (e place : Int) :
    (∃ d, onGrid? m e place = some ⟨d, place⟩ ∧ readsBack m e place d = true) ∨
      onGrid? m e place = none ∧ readsBack m e place (gridBelow m e place) = false ∧
        readsBack m e place (gridBelow m e place + 1) = false := by
  unfold onGrid?
  simp only
  split
  · rename_i hbelow habove
    left
    split
    · exact ⟨_, rfl, hbelow⟩
    · exact ⟨_, rfl, habove⟩
  · rename_i hbelow _
    exact .inl ⟨_, rfl, hbelow⟩
  · rename_i _ habove
    exact .inl ⟨_, rfl, habove⟩
  · rename_i hbelow habove
    exact .inr ⟨rfl, hbelow, habove⟩

/-- What is found on a grid lies in the interval. -/
theorem near_of_onGrid? {found : Decimal} (h : onGrid? m e place = some found) :
    Near m e found.value := by
  rcases onGrid?_cases m e place with ⟨d, hd, hback⟩ | ⟨hnone, -⟩
  · rw [hd] at h
    obtain rfl := Option.some.inj h
    exact near_of_readsBack hback
  · rw [hnone] at h
    cases h

/-- If the interval is wider than the grid, one of the two neighbours lies in it. -/
theorem isSome_onGrid? (hm : m ≠ 0)
    (hfine : gridUnit e place + lowQuarter m e * gridQuarter e place <
      (4 * m + 2) * gridQuarter e place) : (onGrid? m e place).isSome := by
  rcases onGrid?_cases m e place with ⟨d, hd, -⟩ | ⟨-, hbelow, habove⟩
  · rw [hd]
    rfl
  · exfalso
    have hunit := gridUnit_pos e place
    have hquarter := gridQuarter_pos e place
    have hsplit := Nat.div_add_mod (4 * m * gridQuarter e place) (gridUnit e place)
    have hrest := Nat.mod_lt (4 * m * gridQuarter e place) hunit
    have hlow : lowQuarter m e * gridQuarter e place < 4 * m * gridQuarter e place :=
      Nat.mul_lt_mul_of_pos_right (lowQuarter_bounds hm e).2 hquarter
    have hhigh : 4 * m * gridQuarter e place < (4 * m + 2) * gridQuarter e place :=
      Nat.mul_lt_mul_of_pos_right (by omega) hquarter
    rw [Nat.mul_comm] at hsplit
    change gridBelow m e place * gridUnit e place + _ = _ at hsplit
    have hnext : (gridBelow m e place + 1) * gridUnit e place =
        gridBelow m e place * gridUnit e place + gridUnit e place := Nat.succ_mul ..
    rw [readsBack_eq] at hbelow habove
    split at hbelow
    · rename_i heven
      rw [if_pos heven] at habove
      simp only [Bool.and_eq_false_iff, decide_eq_false_iff_not] at hbelow habove
      omega
    · rename_i hodd
      rw [if_neg hodd] at habove
      simp only [Bool.and_eq_false_iff, decide_eq_false_iff_not] at hbelow habove
      omega

end Grid

/-! ## Seventeen digits -/

section Seventeen

variable {m : Nat} {e place : Int}

/-- The interval is four quarters wide, and three just above a power of two. -/
theorem lowQuarter_cases (hnormal : Normalized m e) (hm : m ≠ 0) :
    lowQuarter m e + 4 = 4 * m + 2 ∧ m < 2 ^ 53 ∨ lowQuarter m e + 3 = 4 * m + 2 ∧ m = 2 ^ 52 := by
  have hlt := hnormal.lt
  unfold lowQuarter
  split
  · rename_i hpower
    exact .inr ⟨by omega, hpower.1⟩
  · exact .inl ⟨by omega, hlt⟩

/-- A grid with seventeen digits is finer than the interval is wide. -/
theorem isSome_onGrid?_seventeen (hnormal : Normalized m e) (hm : m ≠ 0)
    (h : (10 : ℚ) ^ (place + 16) ≤ m * 2 ^ e) : (onGrid? m e place).isSome := by
  apply isSome_onGrid? hm
  have hscale := gridScale_pos e place
  have hten : (10 : ℚ) ^ (place + 16) = 10 ^ 16 * 10 ^ place := by
    rw [zpow_add₀ (by norm_num), mul_comm]
    norm_num
  have hpos := two_zpow_pos (e - 2)
  rw [hten, two_zpow_eq_quarters] at h
  have hwide : (10 : ℚ) ^ place + lowQuarter m e * 2 ^ (e - 2) < (4 * m + 2 : Nat) * 2 ^ (e - 2) := by
    rcases lowQuarter_cases hnormal hm with ⟨hwidth, hlt⟩ | ⟨hwidth, rfl⟩
    · have hlt : (m : ℚ) < 2 ^ 53 := by exact_mod_cast hlt
      rw [← hwidth]
      push_cast
      nlinarith
    · rw [← hwidth]
      push_cast at h ⊢
      nlinarith
  have hscaled : (gridUnit e place : ℚ) + lowQuarter m e * gridQuarter e place <
      (4 * m + 2 : Nat) * gridQuarter e place := by
    rw [cast_gridQuarter, cast_gridUnit]
    nlinarith
  exact_mod_cast hscaled

end Seventeen

/-! ## The first digit -/

section FirstDigit

variable {m : Nat} {e : Int}

theorem atLeastTenTo_iff (k : Int) : atLeastTenTo m e k = true ↔ (10 : ℚ) ^ k ≤ m * 2 ^ e := by
  have hscale : (0 : ℚ) < 2 ^ (-e).toNat * 10 ^ (-k).toNat := by positivity
  have hten : (10 : ℚ) ^ k * (2 ^ (-e).toNat * 10 ^ (-k).toNat) = 10 ^ k.toNat * 2 ^ (-e).toNat := by
    rw [← zpow_mul_toNat (by norm_num : (10 : ℚ) ≠ 0) k]
    ring
  have htwo : (m : ℚ) * 2 ^ e * (2 ^ (-e).toNat * 10 ^ (-k).toNat) =
      m * 2 ^ e.toNat * 10 ^ (-k).toNat := by
    rw [← zpow_mul_toNat (by norm_num : (2 : ℚ) ≠ 0) e]
    ring
  rw [atLeastTenTo, decide_eq_true_eq, ← mul_le_mul_iff_left₀ hscale, hten, htwo, twoTo_eq, twoTo_eq,
    tenTo_eq, tenTo_eq]
  exact_mod_cast Iff.rfl

/-- The search stays at its first guess, or goes on behind a power that the number is not below. -/
theorem leastPowerAbove_cases (steps : Nat) (guess : Int) :
    leastPowerAbove m e steps guess = guess ∨
      (10 : ℚ) ^ (leastPowerAbove m e steps guess - 1) ≤ m * 2 ^ e := by
  induction steps generalizing guess with
  | zero => exact .inl rfl
  | succ steps ih =>
    rw [leastPowerAbove]
    split
    · rename_i hle
      right
      rcases ih (guess + 1) with hstays | hgoes
      · rw [hstays, Int.add_sub_cancel]
        exact (atLeastTenTo_iff guess).mp hle
      · exact hgoes
    · exact .inl rfl

/-- The logarithm of two, from below and from above. -/
theorem log_two_bounds : 10 ^ 30102 ≤ 2 ^ 100000 ∧ 2 ^ 100000 ≤ 10 ^ 30103 := by decide +kernel

/-- A power of ten that is not above a power of two. -/
theorem ten_zpow_le_two_zpow {k n : Int} (hn : n ≤ 100000) (h : 100000 * k ≤ n * 30103) :
    (10 : ℚ) ^ (k - 1) ≤ 2 ^ n := by
  have hbase : (1 : ℚ) ≤ 10 := by norm_num
  have hraised : ((10 : ℚ) ^ (k - 1)) ^ 100000 = 10 ^ ((k - 1) * 100000) := by
    rw [zpow_mul]
    exact (zpow_natCast _ _).symm
  have hpow : ((10 : ℚ) ^ (k - 1)) ^ 100000 ≤ (2 ^ n) ^ 100000 := by
    rw [hraised]
    rcases Int.le_total 0 n with hpos | hneg
    · obtain ⟨n, rfl⟩ := Int.eq_ofNat_of_zero_le hpos
      calc (10 : ℚ) ^ ((k - 1) * 100000) ≤ 10 ^ ((30102 * n : Nat) : Int) :=
            zpow_le_zpow_right₀ hbase (by omega)
        _ = (10 ^ 30102) ^ n := by rw [zpow_natCast, pow_mul]
        _ ≤ (2 ^ 100000) ^ n := by
            apply pow_le_pow_left₀ (by positivity)
            exact_mod_cast log_two_bounds.1
        _ = (2 ^ (n : Int)) ^ 100000 := by rw [zpow_natCast, ← pow_mul, ← pow_mul, Nat.mul_comm]
    · obtain ⟨n, rfl⟩ : ∃ n' : Nat, n = -n' := ⟨(-n).toNat, by omega⟩
      calc (10 : ℚ) ^ ((k - 1) * 100000) ≤ 10 ^ (-((30103 * n : Nat) : Int)) :=
            zpow_le_zpow_right₀ hbase (by omega)
        _ = ((10 ^ 30103) ^ n)⁻¹ := by rw [zpow_neg, zpow_natCast, pow_mul]
        _ ≤ ((2 ^ 100000) ^ n)⁻¹ := by
            apply inv_anti₀ (by positivity)
            apply pow_le_pow_left₀ (by positivity)
            exact_mod_cast log_two_bounds.2
        _ = (2 ^ (-(n : Int))) ^ 100000 := by
            rw [zpow_neg, zpow_natCast, inv_pow, ← pow_mul, ← pow_mul, Nat.mul_comm]
  exact (pow_le_pow_iff_left₀ (ten_zpow_pos _).le (two_zpow_pos _).le (by norm_num)).mp hpow

/-- The first digit is not further in front than it is taken to be. -/
theorem ten_zpow_wholeDigits_le (hm : m ≠ 0) (hsmall : (m.log2 : Int) + e ≤ 100000) :
    (10 : ℚ) ^ (wholeDigits m e - 1) ≤ m * 2 ^ e := by
  unfold wholeDigits
  rcases leastPowerAbove_cases (m := m) (e := e) 4
    ((((m.log2 : Int) + e) * 30103).fdiv 100000 - 1) with hstays | hgoes
  · rw [hstays]
    have hdiv : (((m.log2 : Int) + e) * 30103).fdiv 100000 = ((m.log2 : Int) + e) * 30103 / 100000 :=
      Int.fdiv_eq_ediv_of_nonneg _ (by norm_num)
    have hlog : (2 : ℚ) ^ (m.log2 : Int) ≤ m := by
      rw [zpow_natCast]
      exact_mod_cast Nat.log2_self_le hm
    calc (10 : ℚ) ^ ((((m.log2 : Int) + e) * 30103).fdiv 100000 - 1 - 1)
        ≤ 2 ^ ((m.log2 : Int) + e) := by
          apply ten_zpow_le_two_zpow hsmall
          rw [hdiv]
          omega
      _ = 2 ^ (m.log2 : Int) * 2 ^ e := zpow_add₀ (by norm_num) _ _
      _ ≤ m * 2 ^ e := mul_le_mul_of_nonneg_right hlog (two_zpow_pos e).le
  · exact hgoes

end FirstDigit

/-! ## Zeros at the end -/

/-- A zero at the end stands for a factor of ten. -/
theorem Decimal.value_dropZeros (steps : Nat) (d : Decimal) : (d.dropZeros steps).value = d.value := by
  induction steps generalizing d with
  | zero => rfl
  | succ steps ih =>
    rw [dropZeros]
    split
    · rename_i hzero
      rw [ih]
      have hdigits : ((d.digits / 10 * 10 : Nat) : ℚ) = d.digits := by
        have := hzero.2
        congr 1
        omega
      simp only [value]
      rw [← hdigits, zpow_add₀ (by norm_num)]
      push_cast
      ring
    · rfl

/-- The shortest decimal lies in the interval of the double that it has been found for. -/
theorem near_shortest {m : Nat} {e : Int} (hnormal : Normalized m e) (hm : m ≠ 0) :
    Near m e (shortest m e).value := by
  have hlog : m.log2 < 53 := (Nat.log2_lt hm).mpr hnormal.lt
  have hmost := hnormal.le
  have hfirst := ten_zpow_wholeDigits_le hm (e := e) (by omega)
  have hfound : ((List.range 17).findSome? fun i : Nat =>
      onGrid? m e (wholeDigits m e - 1 - (i : Int))).isSome := by
    rw [List.findSome?_isSome_iff]
    refine ⟨16, by simp, ?_⟩
    apply isSome_onGrid?_seventeen hnormal hm
    rw [show wholeDigits m e - 1 - ((16 : Nat) : Int) + 16 = wholeDigits m e - 1 by omega]
    exact hfirst
  obtain ⟨found, hfound⟩ := Option.isSome_iff_exists.mp hfound
  obtain ⟨i, -, hgrid⟩ := List.exists_of_findSome?_eq_some hfound
  unfold shortest
  simp only [hfound, Option.getD_some]
  rw [Decimal.value_dropZeros]
  exact near_of_onGrid? hgrid

end StackPrimer.Number

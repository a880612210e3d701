import StackPrimer.Proofs.Number.Bits

/-!
# Rounding

A quotient is rounded to the double whose interval it lies in. The interval of a double reaches halfway to
its neighbours; its ends belong to it if the mantissa is even.

Results:
* `nearestWhole_eq`: rounding to a whole number.
* `lastPlace_eq`: the last place comes from the logarithm.
* `magnitudeBits_eq`, `parts_ofRatio`: everything in the interval of a double is rounded to it.
-/

namespace StackPrimer.Number

theorem two_zpow_pos (e : Int) : (0 : ℚ) < 2 ^ e := zpow_pos (by norm_num) e

theorem two_zpow_shift (e : Int) (n : Nat) : (2 : ℚ) ^ (e + n) = 2 ^ n * 2 ^ e := by
  rw [zpow_add₀ (by norm_num), zpow_natCast, mul_comm]

theorem two_zpow_eq_quarters (e : Int) : (2 : ℚ) ^ e = 4 * 2 ^ (e - 2) := by
  have hshift := two_zpow_shift (e - 2) 2
  rw [show e - 2 + (2 : Nat) = e by omega] at hshift
  rw [hshift]
  norm_num

/-! ## Intervals -/

/-- The lower end of the interval of a double, counted in quarters of its last place. Below a power of two
the doubles are twice as close. -/
def lowQuarter (m : Nat) (e : Int) : Nat := 4 * m - if m = 2 ^ 52 ∧ -1074 < e then 1 else 2

/-- The number lies in the interval of the double with this mantissa and exponent. -/
structure Near (m : Nat) (e : Int) (q : ℚ) : Prop where
  low_le : lowQuarter m e * (2 : ℚ) ^ (e - 2) ≤ q
  le_high : q ≤ (4 * m + 2) * (2 : ℚ) ^ (e - 2)
  strict : m % 2 = 1 → lowQuarter m e * (2 : ℚ) ^ (e - 2) < q ∧ q < (4 * m + 2) * (2 : ℚ) ^ (e - 2)

theorem lowQuarter_bounds {m : Nat} (hm : m ≠ 0) (e : Int) :
    4 * m ≤ lowQuarter m e + 2 ∧ lowQuarter m e < 4 * m := by
  unfold lowQuarter
  split <;> omega

theorem Near.pos {m : Nat} {e : Int} {q : ℚ} (h : Near m e q) (hm : m ≠ 0) : 0 < q := by
  have hlow : 0 < lowQuarter m e := by
    have := lowQuarter_bounds hm e
    omega
  have hpos : (0 : ℚ) < lowQuarter m e * 2 ^ (e - 2) :=
    mul_pos (by exact_mod_cast hlow) (two_zpow_pos _)
  exact hpos.trans_le h.low_le

/-! ## Whole numbers -/

/-- What is at most half away from a whole number is rounded to it, but what lies halfway to an odd one is
not. -/
theorem nearestWhole_eq {num den k : Nat} (hden : 0 < den) (hlow : 2 * k * den ≤ 2 * num + den)
    (hhigh : 2 * num ≤ (2 * k + 1) * den)
    (hodd : k % 2 = 1 → 2 * k * den < 2 * num + den ∧ 2 * num < (2 * k + 1) * den) :
    nearestWhole num den = k := by
  have hsplit : den * (num / den) + num % den = num := Nat.div_add_mod num den
  have hrest : num % den < den := Nat.mod_lt num hden
  generalize hq : num / den = q at hsplit
  generalize hr : num % den = r at hsplit hrest
  have hle : k ≤ q + 1 := by
    by_contra hlt
    have : (q + 2) * den ≤ k * den := Nat.mul_le_mul_right _ (by omega)
    nlinarith
  have hge : q ≤ k := by
    by_contra hlt
    have : (k + 1) * den ≤ q * den := Nat.mul_le_mul_right _ (by omega)
    nlinarith
  unfold nearestWhole
  simp only [hq, hr]
  rcases Nat.lt_or_ge q k with hlt | hle'
  · obtain rfl : k = q + 1 := by omega
    have hhalf : den ≤ 2 * r := by nlinarith
    rw [if_pos]
    rcases Nat.lt_or_ge den (2 * r) with h | h
    · exact .inl h
    · have htie : 2 * r = den := by omega
      right
      refine ⟨htie, ?_⟩
      by_contra heven
      have := (hodd (by omega)).1
      nlinarith
  · obtain rfl : k = q := by omega
    have hhalf : 2 * r ≤ den := by nlinarith
    rw [if_neg]
    rintro (h | ⟨htie, hk⟩)
    · omega
    · have := (hodd hk).2
      nlinarith

/-! ## The last place -/

section Ratios

variable {num den : Nat}

/-- A quotient in units of 2 ^ `place`. -/
theorem ratio_scaled (num : Nat) (hden : 0 < den) (place : Int) :
    (num : ℚ) / den / 2 ^ place =
      if 0 ≤ place then (num : ℚ) / (den * twoTo place.toNat : Nat)
      else ((num * twoTo (-place).toNat : Nat) : ℚ) / den := by
  have hden : (den : ℚ) ≠ 0 := by exact_mod_cast hden.ne'
  split
  · rename_i hplace
    obtain ⟨n, rfl⟩ := Int.eq_ofNat_of_zero_le hplace
    rw [Int.toNat_natCast, twoTo_eq, zpow_natCast, Nat.cast_mul, Nat.cast_pow, Nat.cast_ofNat, div_div]
  · rename_i hplace
    obtain ⟨n, rfl⟩ : ∃ n : Nat, place = -n := ⟨(-place).toNat, by omega⟩
    rw [neg_neg, Int.toNat_natCast, twoTo_eq, zpow_neg, zpow_natCast, Nat.cast_mul, Nat.cast_pow,
      Nat.cast_ofNat, div_inv_eq_mul, div_mul_eq_mul_div]

theorem below_iff (num : Nat) (hden : 0 < den) (k : Int) :
    (if 0 ≤ k then decide (num < den * twoTo k.toNat)
      else decide (num * twoTo (-k).toNat < den)) = true ↔ (num : ℚ) / den < 2 ^ k := by
  have hscaled := ratio_scaled num hden k
  rw [← div_lt_one (two_zpow_pos k), hscaled]
  split
  · have hpos : (0 : ℚ) < (den * twoTo k.toNat : Nat) := by
      exact_mod_cast Nat.mul_pos hden (twoTo_pos _)
    rw [div_lt_one hpos, decide_eq_true_eq, Nat.cast_lt]
  · have hpos : (0 : ℚ) < den := by exact_mod_cast hden
    rw [div_lt_one hpos, decide_eq_true_eq, Nat.cast_lt]

/-- The logarithms of the two numbers give that of the quotient, up to one. -/
theorem log_bounds (hnum : num ≠ 0) (hden : 0 < den) :
    (2 : ℚ) ^ ((num.log2 : Int) - den.log2 - 1) ≤ num / den ∧
      (num : ℚ) / den < 2 ^ ((num.log2 : Int) - den.log2 + 1) := by
  have hden' : (0 : ℚ) < den := by exact_mod_cast hden
  have hnumLow : (2 : ℚ) ^ (num.log2 : Int) ≤ num := by
    rw [zpow_natCast]
    exact_mod_cast Nat.log2_self_le hnum
  have hnumHigh : (num : ℚ) < 2 ^ ((num.log2 : Int) + 1) := by
    exact_mod_cast Nat.lt_log2_self
  have hdenLow : (2 : ℚ) ^ (den.log2 : Int) ≤ den := by
    rw [zpow_natCast]
    exact_mod_cast Nat.log2_self_le hden.ne'
  have hdenHigh : (den : ℚ) < 2 ^ ((den.log2 : Int) + 1) := by
    exact_mod_cast Nat.lt_log2_self
  constructor
  · rw [le_div_iff₀ hden']
    calc (2 : ℚ) ^ ((num.log2 : Int) - den.log2 - 1) * den
        ≤ 2 ^ ((num.log2 : Int) - den.log2 - 1) * 2 ^ ((den.log2 : Int) + 1) :=
          mul_le_mul_of_nonneg_left hdenHigh.le (two_zpow_pos _).le
      _ = 2 ^ (num.log2 : Int) := by
          rw [← zpow_add₀ (by norm_num)]
          congr 1
          omega
      _ ≤ num := hnumLow
  · rw [div_lt_iff₀ hden']
    calc (num : ℚ) < 2 ^ ((num.log2 : Int) + 1) := hnumHigh
      _ = 2 ^ ((num.log2 : Int) - den.log2 + 1) * 2 ^ (den.log2 : Int) := by
          rw [← zpow_add₀ (by norm_num)]
          congr 1
          omega
      _ ≤ 2 ^ ((num.log2 : Int) - den.log2 + 1) * den :=
          mul_le_mul_of_nonneg_left hdenLow (two_zpow_pos _).le

theorem log_eq {q : ℚ} {k : Int} (hlow : 2 ^ k ≤ q) (hhigh : q < 2 ^ (k + 1)) : Int.log 2 q = k := by
  have hq : 0 < q := (two_zpow_pos k).trans_le hlow
  have hge : k ≤ Int.log 2 q := (Int.zpow_le_iff_le_log (by norm_num) hq).mp (by exact_mod_cast hlow)
  have hlt : Int.log 2 q < k + 1 :=
    (Int.lt_zpow_iff_log_lt (by norm_num) hq).mp (by exact_mod_cast hhigh)
  omega

/-- The last place is 52 places behind the first one, unless that is behind the last one there is. -/
theorem lastPlace_eq (hnum : num ≠ 0) (hden : 0 < den) :
    lastPlace num den = max (Int.log 2 ((num : ℚ) / den) - 52) (-1074) := by
  obtain ⟨hlow, hhigh⟩ := log_bounds hnum hden
  have hbelow := below_iff num hden ((num.log2 : Int) - den.log2)
  unfold lastPlace
  simp only
  by_cases hlt : (num : ℚ) / den < 2 ^ ((num.log2 : Int) - den.log2)
  · rw [if_pos (hbelow.mpr hlt), log_eq hlow (by simpa using hlt)]
  · rw [if_neg (mt hbelow.mp hlt), log_eq (not_lt.mp hlt) hhigh]

/-! ## Rounding a quotient -/

/-- The number is nowhere nearer to another whole number than to this one, and not halfway if this one is
odd. -/
structure Rounds (x : ℚ) (k : Nat) : Prop where
  low : 2 * (k : ℚ) ≤ 2 * x + 1
  high : 2 * x ≤ 2 * k + 1
  strict : k % 2 = 1 → 2 * (k : ℚ) < 2 * x + 1 ∧ 2 * x < 2 * k + 1

theorem nearestWhole_of_rounds (hden : 0 < den) {k : Nat} (h : Rounds ((num : ℚ) / den) k) :
    nearestWhole num den = k := by
  have hden' : (0 : ℚ) < den := by exact_mod_cast hden
  have hnum : (num : ℚ) = num / den * den := (div_mul_cancel₀ _ hden'.ne').symm
  apply nearestWhole_eq hden
  · have hlow : (2 * k * den : ℚ) ≤ 2 * num + den := by
      rw [hnum]
      nlinarith [h.low]
    exact_mod_cast hlow
  · have hhigh : (2 * num : ℚ) ≤ (2 * k + 1) * den := by
      rw [hnum]
      nlinarith [h.high]
    exact_mod_cast hhigh
  · intro hodd
    obtain ⟨hlow, hhigh⟩ := h.strict hodd
    constructor
    · have hlow : (2 * k * den : ℚ) < 2 * num + den := by
        rw [hnum]
        nlinarith
      exact_mod_cast hlow
    · have hhigh : (2 * num : ℚ) < (2 * k + 1) * den := by
        rw [hnum]
        nlinarith
      exact_mod_cast hhigh

/-- The mantissa is the quotient in units of the last place, rounded. -/
theorem mantissa_eq (hden : 0 < den) {place : Int} {k : Nat}
    (h : Rounds ((num : ℚ) / den / 2 ^ place) k) :
    (if 0 ≤ place then nearestWhole num (den * twoTo place.toNat)
      else nearestWhole (num * twoTo (-place).toNat) den) = k := by
  rw [ratio_scaled num hden] at h
  split
  · rename_i hplace
    rw [if_pos hplace] at h
    exact nearestWhole_of_rounds (Nat.mul_pos hden (twoTo_pos _)) h
  · rename_i hplace
    rw [if_neg hplace] at h
    exact nearestWhole_of_rounds hden h

end Ratios

section Interval

variable {m : Nat} {e : Int} {q : ℚ}

/-- In units of its last place, what lies in the interval of a double is rounded to its mantissa. -/
theorem Near.rounds (h : Near m e q) (hm : m ≠ 0) : Rounds (q / 2 ^ e) m := by
  have hpos := two_zpow_pos (e - 2)
  have hquarter : (4 * m : ℚ) ≤ lowQuarter m e + 2 := by
    exact_mod_cast (lowQuarter_bounds hm e).1
  have hscaled : q = q / 2 ^ e * (4 * 2 ^ (e - 2)) := by
    rw [← two_zpow_eq_quarters, div_mul_cancel₀ _ (two_zpow_pos e).ne']
  have hlow := h.low_le
  have hhigh := h.le_high
  have hstrict := h.strict
  generalize q / 2 ^ e = x at hscaled
  generalize (2 : ℚ) ^ (e - 2) = u at *
  rw [hscaled] at hlow hhigh hstrict
  refine ⟨?_, ?_, ?_⟩
  · nlinarith
  · nlinarith
  · intro hodd
    obtain ⟨hlow, hhigh⟩ := hstrict hodd
    constructor <;> nlinarith

/-- The logarithm of what lies in the interval of a double. The numbers just below a power of two have a
smaller one than that. -/
theorem Near.log (h : Near m e q) (hnormal : Normalized m e) (hm : m ≠ 0) :
    Int.log 2 q ≤ e + 52 ∧
      (Int.log 2 q - 52 < e → -1074 < e → m = 2 ^ 52 ∧ Int.log 2 q = e + 51) := by
  have hq := h.pos hm
  have hpos := two_zpow_pos (e - 2)
  have hunit (n : Nat) : (2 : ℚ) ^ (e - 2 + n) = 2 ^ n * 2 ^ (e - 2) := two_zpow_shift _ n
  constructor
  · by_contra hgt
    have hle : (2 : ℚ) ^ (e - 2 + (55 : Nat)) ≤ q := by
      have hlog : e - 2 + (55 : Nat) ≤ Int.log 2 q := by omega
      exact_mod_cast (Int.zpow_le_iff_le_log (by norm_num) hq).mpr hlog
    have hlt : (m : ℚ) + 1 ≤ 2 ^ 53 := by exact_mod_cast hnormal.lt
    have hhigh := h.le_high
    rw [hunit] at hle
    nlinarith
  · intro hlog he
    have hfull := hnormal.full he
    have hlt : q < 2 ^ (e - 2 + (54 : Nat)) := by
      have hlog : Int.log 2 q < e - 2 + (54 : Nat) := by omega
      exact_mod_cast (Int.lt_zpow_iff_log_lt (by norm_num) hq).mpr hlog
    have hlow := h.low_le
    rw [hunit] at hlt
    have hquarter : lowQuarter m e < 2 ^ 54 := by
      have hquarter : (lowQuarter m e : ℚ) < 2 ^ 54 := by
        by_contra hge
        nlinarith [not_lt.mp hge]
      exact_mod_cast hquarter
    have hpower : m = 2 ^ 52 := by
      have := (lowQuarter_bounds hm e).1
      omega
    refine ⟨hpower, ?_⟩
    have hexact : lowQuarter m e = 2 ^ 54 - 1 := by
      rw [lowQuarter, if_pos ⟨hpower, he⟩, hpower]
      norm_num
    have hge : (2 : ℚ) ^ (e - 2 + (53 : Nat)) ≤ q := by
      rw [hexact] at hlow
      rw [hunit]
      norm_num at hlow ⊢
      nlinarith
    have hle : e - 2 + (53 : Nat) ≤ Int.log 2 q :=
      (Int.zpow_le_iff_le_log (by norm_num) hq).mp (by exact_mod_cast hge)
    omega

/-- In units of the place behind, what lies just below a power of two is rounded up to it. -/
theorem Near.rounds_below (h : Near (2 ^ 52) e q) (he : -1074 < e) (hlt : q < 2 ^ (e + 52)) :
    Rounds (q / 2 ^ (e - 1)) (2 ^ 53) := by
  have hunit : (2 : ℚ) ^ (e - 1) = 2 ^ 1 * 2 ^ (e - 2) := by
    rw [← two_zpow_shift]
    congr 1
    omega
  have hpower : (2 : ℚ) ^ (e + 52) = 2 ^ 54 * 2 ^ (e - 2) := by
    rw [← two_zpow_shift]
    congr 1
    omega
  have hquarter : lowQuarter (2 ^ 52) e = 2 ^ 54 - 1 := by
    rw [lowQuarter, if_pos ⟨rfl, he⟩]
    norm_num
  have hpos := two_zpow_pos (e - 2)
  have hlow := h.low_le
  have hscaled : q = q / 2 ^ (e - 1) * (2 ^ 1 * 2 ^ (e - 2)) := by
    rw [← hunit, div_mul_cancel₀ _ (two_zpow_pos _).ne']
  rw [hpower] at hlt
  rw [hquarter] at hlow
  generalize q / 2 ^ (e - 1) = x at hscaled ⊢
  generalize (2 : ℚ) ^ (e - 2) = u at *
  rw [hscaled] at hlow hlt
  norm_num at hlow hlt
  refine ⟨?_, ?_, ?_⟩
  · norm_num
    nlinarith
  · norm_num
    nlinarith
  · intro hodd
    norm_num at hodd

/-- Everything in the interval of a double is rounded to it. Just below a power of two the mantissa is
rounded up to the next one, which gives the same bits. -/
theorem magnitudeBits_eq {num den : Nat} (hden : 0 < den) (hnormal : Normalized m e) (hm : m ≠ 0)
    (h : Near m e ((num : ℚ) / den)) :
    magnitudeBits num den = (e + 1074).toNat * twoTo 52 + m := by
  have hq := h.pos hm
  have hnum : num ≠ 0 := by
    rintro rfl
    simp at hq
  obtain ⟨hle, hpower⟩ := h.log hnormal hm
  have hlt := hnormal.lt
  have hge := hnormal.ge
  have hmost := hnormal.le
  unfold magnitudeBits
  rw [if_neg hnum]
  simp only
  rw [lastPlace_eq hnum hden]
  by_cases hplace : max (Int.log 2 ((num : ℚ) / den) - 52) (-1074) = e
  · rw [hplace, mantissa_eq hden (h.rounds hm), twoTo_eq]
    omega
  · obtain ⟨rfl, hlog⟩ := hpower (by omega) (by omega)
    have hplace : max (Int.log 2 ((num : ℚ) / den) - 52) (-1074) = e - 1 := by omega
    have hbelow : (num : ℚ) / den < 2 ^ (e + 52) := by
      have hlt : Int.log 2 ((num : ℚ) / den) < e + 52 := by omega
      exact_mod_cast (Int.lt_zpow_iff_log_lt (by norm_num) hq).mpr hlt
    rw [hplace, mantissa_eq hden (h.rounds_below (by omega) hbelow), twoTo_eq]
    omega

/-- So the parts of a quotient that has been rounded are those of the double. -/
theorem parts_ofRatio (negative : Bool) {num den : Nat} (hden : 0 < den) (hnormal : Normalized m e)
    (hm : m ≠ 0) (h : Near m e ((num : ℚ) / den)) :
    parts (ofRatio negative num den) = .finite negative m e := by
  rw [ofRatio, magnitudeBits_eq hden hnormal hm h]
  exact parts_of_normalized hnormal

/-- A double lies in its own interval. -/
theorem near_self (hm : m ≠ 0) : Near m e (m * 2 ^ e) := by
  have hpos := two_zpow_pos (e - 2)
  have hquarter : (lowQuarter m e : ℚ) < 4 * m := by exact_mod_cast (lowQuarter_bounds hm e).2
  rw [two_zpow_eq_quarters]
  have hlow : (lowQuarter m e : ℚ) * 2 ^ (e - 2) < m * (4 * 2 ^ (e - 2)) := by nlinarith
  have hhigh : (m : ℚ) * (4 * 2 ^ (e - 2)) < (4 * m + 2) * 2 ^ (e - 2) := by nlinarith
  exact ⟨hlow.le, hhigh.le, fun _ => ⟨hlow, hhigh⟩⟩

end Interval

end StackPrimer.Number

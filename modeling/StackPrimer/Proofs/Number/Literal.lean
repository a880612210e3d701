import StackPrimer.Number.Writing
import StackPrimer.Proofs.Number.Shortest

/-!
# Literals are read as they are written

A literal is a run of digits with a point in it, or an exponent behind it, or both. Whichever layout is
chosen, what it spells is the shortest decimal, which is rounded to the number itself.

Results:
* `readDecimal?_of_spells`: what a text spells is what is read.
* `spells_decimalText`: what the layouts of a decimal spell.
* `readFloat?_literal`: every number is read as it is written, the value that is none and the sign of zero
  included.
* `readInt?_literal`, `isPlain_of_mem_literal`: a literal is no whole number, and has no blanks.
-/

namespace StackPrimer.Number

/-! ## Spelling -/

/-- The exponent behind the digits, if there is one. -/
def exponentPart : Option Int → List Char
  | none => []
  | some k => 'e' :: exponentText k

/-- The text spells the number with these digits, of which the last one stands for a power of ten with
this exponent. -/
inductive Spells : List Char → List Char → Int → Prop
  | pointed {whole fraction : List Char} {k : Option Int} : whole ≠ [] →
      (∀ c ∈ whole, c.isDigit = true) → (∀ c ∈ fraction, c.isDigit = true) →
      Spells (whole ++ '.' :: (fraction ++ exponentPart k)) (whole ++ fraction)
        (k.getD 0 - fraction.length)
  | scaled {whole : List Char} {k : Int} : whole ≠ [] → (∀ c ∈ whole, c.isDigit = true) →
      Spells (whole ++ exponentPart (some k)) whole k

/-! ## Exponents -/

/-- The digits of an exponent, at least two. -/
def exponentDigits (n : Nat) : List Char :=
  if (digitChars n).length < 2 then '0' :: digitChars n else digitChars n

theorem exponentText_eq (k : Int) :
    exponentText k = (if k < 0 then '-' else '+') :: exponentDigits k.natAbs := rfl

theorem isDigit_of_mem_digitChars {n : Nat} : ∀ c ∈ digitChars n, c.isDigit = true :=
  fun _ => isDigit_of_mem_toDigits

theorem digitChars_ne_nil (n : Nat) : digitChars n ≠ [] := Nat.toDigits_ne_nil

theorem ofDigits_digitChars (n : Nat) : ofDigits ((digitChars n).map digitValue) = n := by
  rw [ofDigits_map]
  exact Nat.ofDigitChars_ten_toDigits

theorem isDigit_of_mem_exponentDigits {n : Nat} : ∀ c ∈ exponentDigits n, c.isDigit = true := by
  unfold exponentDigits
  split
  · exact List.forall_mem_cons.mpr ⟨by decide, isDigit_of_mem_digitChars⟩
  · exact isDigit_of_mem_digitChars

theorem exponentDigits_ne_nil (n : Nat) : exponentDigits n ≠ [] := by
  unfold exponentDigits
  split
  · simp
  · exact digitChars_ne_nil n

theorem ofDigits_exponentDigits (n : Nat) : ofDigits ((exponentDigits n).map digitValue) = n := by
  unfold exponentDigits
  split
  · rw [List.map_cons, ofDigits_cons, show digitValue '0' = 0 by decide, Nat.zero_mul, Nat.zero_add,
      ofDigits_digitChars]
  · exact ofDigits_digitChars n

theorem exponent?_exponentPart (k : Option Int) : exponent? (exponentPart k) = some (k.getD 0) := by
  cases k with
  | none => rfl
  | some k =>
    have hsigned : signed (exponentText k) = (decide (k < 0), exponentDigits k.natAbs) := by
      rw [exponentText_eq]
      by_cases hneg : k < 0
      · rw [if_pos hneg, decide_eq_true hneg]
        rfl
      · rw [if_neg hneg, decide_eq_false hneg]
        rfl
    have hrun := digitRun_append [] (isDigit_of_mem_exponentDigits (n := k.natAbs)) (by simp)
    rw [List.append_nil] at hrun
    obtain ⟨c, cs, hcons⟩ := List.exists_cons_of_ne_nil (exponentDigits_ne_nil k.natAbs)
    have hvalue := ofDigits_exponentDigits k.natAbs
    change exponent? ('e' :: exponentText k) = some k
    unfold exponent?
    simp only [true_or, if_true, hsigned, hrun]
    rw [hcons, List.map_cons] at hvalue ⊢
    simp only [hvalue, decide_eq_true_eq]
    split_ifs <;> congr 1 <;> omega

theorem not_isDigit_of_mem_head?_exponentPart {k : Option Int} :
    ∀ c, (exponentPart k).head? = some c → c.isDigit = false ∧ c ≠ '_' := by
  cases k with
  | none => simp [exponentPart]
  | some k =>
    intro c hc
    obtain rfl : 'e' = c := by simpa [exponentPart] using hc
    decide

/-! ## Reading -/

section Reading

variable {cs digits : List Char} {place : Int}

theorem Spells.isDigit (h : Spells cs digits place) : ∀ c ∈ digits, c.isDigit = true := by
  cases h with
  | pointed _ hwhole hfraction => exact List.forall_mem_append.mpr ⟨hwhole, hfraction⟩
  | scaled _ hwhole => exact hwhole

/-- A digit stands in front. -/
theorem Spells.exists_cons (h : Spells cs digits place) : ∃ c rest, cs = c :: rest ∧ c.isDigit = true := by
  cases h with
  | pointed hne hwhole _ =>
    obtain ⟨c, whole, rfl⟩ := List.exists_cons_of_ne_nil hne
    exact ⟨c, _, rfl, hwhole c (List.mem_cons_self ..)⟩
  | scaled hne hwhole =>
    obtain ⟨c, whole, rfl⟩ := List.exists_cons_of_ne_nil hne
    exact ⟨c, _, rfl, hwhole c (List.mem_cons_self ..)⟩

theorem isPlain_of_mem_exponentPart {k : Option Int} : ∀ c ∈ exponentPart k, IsPlain c := by
  cases k with
  | none => simp [exponentPart]
  | some k =>
    have hdigits : ∀ c ∈ exponentDigits k.natAbs, IsPlain c :=
      fun c hc => isPlain_of_isDigit (isDigit_of_mem_exponentDigits c hc)
    rw [exponentPart, exponentText_eq]
    refine List.forall_mem_cons.mpr ⟨by decide, List.forall_mem_cons.mpr ⟨?_, hdigits⟩⟩
    split <;> decide

theorem Spells.isPlain (h : Spells cs digits place) : ∀ c ∈ cs, IsPlain c := by
  cases h with
  | pointed _ hwhole hfraction =>
    refine List.forall_mem_append.mpr ⟨fun c hc => isPlain_of_isDigit (hwhole c hc), ?_⟩
    refine List.forall_mem_cons.mpr ⟨by decide, ?_⟩
    exact List.forall_mem_append.mpr
      ⟨fun c hc => isPlain_of_isDigit (hfraction c hc), isPlain_of_mem_exponentPart⟩
  | scaled _ hwhole =>
    exact List.forall_mem_append.mpr
      ⟨fun c hc => isPlain_of_isDigit (hwhole c hc), isPlain_of_mem_exponentPart⟩

/-- What a text spells is what is read. -/
theorem readDecimal?_of_spells (negative : Bool) (h : Spells cs digits place) :
    readDecimal? negative cs = some (ofDecimal negative (digits.map digitValue) place) := by
  cases h with
  | @pointed whole fraction k hne hwhole hfraction =>
    have hrun := digitRun_append ('.' :: (fraction ++ exponentPart k)) hwhole (by simp)
    have hrun' := digitRun_append (exponentPart k) hfraction not_isDigit_of_mem_head?_exponentPart
    simp [readDecimal?, hrun, hrun', hne, exponent?_exponentPart]
  | scaled hne hwhole =>
    have hrun := digitRun_append (exponentPart (some place)) hwhole not_isDigit_of_mem_head?_exponentPart
    have hexponent := exponent?_exponentPart (some place)
    simp only [exponentPart, Option.getD_some] at hrun hexponent
    simp [readDecimal?, exponentPart, hrun, hne, hexponent]

/-- The digits in front are not all. -/
theorem Spells.digitRun (h : Spells cs digits place) :
    ∃ d ds c rest, Number.digitRun cs = (d :: ds, c :: rest) := by
  cases h with
  | @pointed whole fraction k hne hwhole _ =>
    have hrun := digitRun_append ('.' :: (fraction ++ exponentPart k)) hwhole (by simp)
    obtain ⟨c, whole, rfl⟩ := List.exists_cons_of_ne_nil hne
    exact ⟨_, _, _, _, hrun⟩
  | scaled hne hwhole =>
    have hrun := digitRun_append (exponentPart (some place)) hwhole not_isDigit_of_mem_head?_exponentPart
    obtain ⟨c, whole, rfl⟩ := List.exists_cons_of_ne_nil hne
    exact ⟨_, _, _, _, hrun⟩

end Reading

/-! ## Layouts -/

/-- Digits with a point in them, and no exponent. -/
theorem Spells.fixed {whole fraction : List Char} (hne : whole ≠ [])
    (hwhole : ∀ c ∈ whole, c.isDigit = true) (hfraction : ∀ c ∈ fraction, c.isDigit = true) :
    Spells (whole ++ '.' :: fraction) (whole ++ fraction) (-(fraction.length : Int)) := by
  have hspells : Spells (whole ++ '.' :: (fraction ++ exponentPart none)) (whole ++ fraction)
      ((none : Option Int).getD 0 - fraction.length) := .pointed hne hwhole hfraction
  simpa [exponentPart] using hspells

/-- The text spells the decimal. -/
def SpellsDecimal (cs : List Char) (d : Decimal) : Prop :=
  ∃ digits place, Spells cs digits place ∧
    (ofDigits (digits.map digitValue) : ℚ) * 10 ^ place = d.value

section Layouts

variable {d : Decimal} {cs : List Char} {place : Int}

/-- The digits are those of the decimal, and so is the place of the last one. -/
theorem Spells.decimal (h : Spells cs (digitChars d.digits) place) (hplace : place = d.exponent) :
    SpellsDecimal cs d :=
  ⟨_, _, h, by rw [ofDigits_digitChars, hplace, Decimal.value]⟩

theorem isDigit_of_mem_zeros {n : Nat} : ∀ c ∈ List.replicate n '0', c.isDigit = true := by
  intro c hc
  rw [List.eq_of_mem_replicate hc]
  rfl

theorem map_digitValue_zeros (n : Nat) :
    (List.replicate n '0').map digitValue = List.replicate n 0 := by
  rw [List.map_replicate]
  rfl

/-- A decimal below one, with zeros behind the point. -/
theorem spellsDecimal_small {zeros : Nat}
    (h : -((zeros + (digitChars d.digits).length : Nat) : Int) = d.exponent) :
    SpellsDecimal ('0' :: '.' :: List.replicate zeros '0' ++ digitChars d.digits) d := by
  have hspells : Spells (['0'] ++ '.' :: (List.replicate zeros '0' ++ digitChars d.digits))
      (['0'] ++ (List.replicate zeros '0' ++ digitChars d.digits))
      (-((List.replicate zeros '0' ++ digitChars d.digits).length : Int)) :=
    .fixed (by simp) (by simp)
      (List.forall_mem_append.mpr ⟨isDigit_of_mem_zeros, isDigit_of_mem_digitChars⟩)
  refine ⟨_, _, hspells, ?_⟩
  have hvalue : ofDigits ((['0'] ++ (List.replicate zeros '0' ++ digitChars d.digits)).map digitValue) =
      d.digits := by
    rw [List.map_append, List.map_append, map_digitValue_zeros, ofDigits_append, ofDigits_append,
      ofDigits_replicate_zero, ofDigits_digitChars]
    simp [ofDigits, digitValue]
  rw [hvalue, List.length_append, List.length_replicate, h, Decimal.value]

/-- A whole decimal, with zeros in front of the point and one behind. -/
theorem spellsDecimal_large {zeros : Nat} (h : (zeros : Int) = d.exponent) :
    SpellsDecimal (digitChars d.digits ++ List.replicate zeros '0' ++ ['.', '0']) d := by
  have hspells : Spells (digitChars d.digits ++ List.replicate zeros '0' ++ '.' :: ['0'])
      (digitChars d.digits ++ List.replicate zeros '0' ++ ['0']) (-(['0'].length : Int)) :=
    .fixed (by simp [digitChars_ne_nil])
      (List.forall_mem_append.mpr ⟨isDigit_of_mem_digitChars, isDigit_of_mem_zeros⟩) (by simp)
  refine ⟨_, _, hspells, ?_⟩
  have hvalue : ofDigits ((digitChars d.digits ++ List.replicate zeros '0' ++ ['0']).map digitValue) =
      d.digits * 10 ^ zeros * 10 := by
    rw [List.map_append, List.map_append, map_digitValue_zeros, ofDigits_append, ofDigits_append,
      ofDigits_replicate_zero, ofDigits_digitChars]
    simp [ofDigits, digitValue]
  rw [hvalue, Decimal.value, ← h, List.length_singleton, Nat.cast_one, zpow_neg_one, zpow_natCast]
  push_cast
  ring

/-- A decimal with the point among its digits. -/
theorem spellsDecimal_middle {n : Nat} (hpos : 0 < n) (hlt : n < (digitChars d.digits).length)
    (h : (n : Int) = d.exponent + (digitChars d.digits).length) :
    SpellsDecimal ((digitChars d.digits).take n ++ '.' :: (digitChars d.digits).drop n) d := by
  have hspells : Spells ((digitChars d.digits).take n ++ '.' :: (digitChars d.digits).drop n)
      ((digitChars d.digits).take n ++ (digitChars d.digits).drop n)
      (-(((digitChars d.digits).drop n).length : Int)) := by
    apply Spells.fixed
    · simp [digitChars_ne_nil, hpos.ne']
    · exact fun c hc => isDigit_of_mem_digitChars c (List.mem_of_mem_take hc)
    · exact fun c hc => isDigit_of_mem_digitChars c (List.mem_of_mem_drop hc)
  rw [List.take_append_drop] at hspells
  apply hspells.decimal
  rw [List.length_drop]
  omega

/-- One digit and an exponent. -/
theorem spellsDecimal_digit (h : (digitChars d.digits).length = 1) :
    SpellsDecimal ((digitChars d.digits).take 1 ++ 'e' :: exponentText d.exponent) d := by
  rw [List.take_of_length_le h.le]
  exact (Spells.scaled (digitChars_ne_nil _) isDigit_of_mem_digitChars).decimal rfl

/-- A digit, a point, more digits and an exponent. -/
theorem spellsDecimal_scientific {k : Int}
    (h : k - ((digitChars d.digits).length - 1 : Nat) = d.exponent) :
    SpellsDecimal ((digitChars d.digits).take 1 ++ '.' :: (digitChars d.digits).drop 1 ++
      'e' :: exponentText k) d := by
  have hspells : Spells ((digitChars d.digits).take 1 ++ '.' :: ((digitChars d.digits).drop 1 ++
      exponentPart (some k))) ((digitChars d.digits).take 1 ++ (digitChars d.digits).drop 1)
      ((some k).getD 0 - ((digitChars d.digits).drop 1).length) := by
    apply Spells.pointed
    · simp [digitChars_ne_nil]
    · exact fun c hc => isDigit_of_mem_digitChars c (List.mem_of_mem_take hc)
    · exact fun c hc => isDigit_of_mem_digitChars c (List.mem_of_mem_drop hc)
  rw [List.take_append_drop] at hspells
  rw [List.append_assoc]
  apply hspells.decimal
  rw [List.length_drop]
  exact h

/-- Whichever layout is chosen, the text of a decimal spells it. -/
theorem spells_decimalText (d : Decimal) : SpellsDecimal (decimalText d) d := by
  have hlength : 0 < (digitChars d.digits).length := List.length_pos_iff.mpr (digitChars_ne_nil _)
  unfold decimalText
  simp only
  split
  · split
    · exact spellsDecimal_small (by omega)
    · split
      · exact spellsDecimal_large (by omega)
      · exact spellsDecimal_middle (by omega) (by omega) (by omega)
  · split
    · have hone : (digitChars d.digits).length = 1 := by omega
      rw [hone, List.append_nil]
      rw [show d.exponent + ((1 : Nat) : Int) - 1 = d.exponent by omega]
      exact spellsDecimal_digit hone
    · exact spellsDecimal_scientific (by omega)

end Layouts

/-! ## Rounding -/

theorem two_pow_lt_ten_pow : 2 ^ 1024 < 10 ^ 310 ∧ 2 ^ 1076 < 10 ^ 331 := by decide +kernel

/-- Decimals that are too large or too small for their digits to matter are beyond all intervals. -/
theorem Near.bounds {m : Nat} {e : Int} {q : ℚ} (h : Near m e q) (hnormal : Normalized m e)
    (hm : m ≠ 0) : (10 : ℚ) ^ (-331 : Int) < q ∧ q < 10 ^ (310 : Int) := by
  have hpos := two_zpow_pos (e - 2)
  have hgt := hnormal.ge
  have hmost := hnormal.le
  constructor
  · have hquarter : (1 : ℚ) ≤ lowQuarter m e := by
      have := (lowQuarter_bounds hm e).1
      exact_mod_cast (by omega : 1 ≤ lowQuarter m e)
    calc (10 : ℚ) ^ (-331 : Int) = (10 ^ 331)⁻¹ := by rw [zpow_neg]; rfl
      _ < (2 ^ 1076)⁻¹ := by
          apply inv_strictAnti₀ (by positivity)
          exact_mod_cast two_pow_lt_ten_pow.2
      _ = 2 ^ (-1076 : Int) := by rw [zpow_neg]; rfl
      _ ≤ 2 ^ (e - 2) := zpow_le_zpow_right₀ (by norm_num) (by omega)
      _ ≤ lowQuarter m e * 2 ^ (e - 2) := le_mul_of_one_le_left hpos.le hquarter
      _ ≤ q := h.low_le
  · have hmantissa : (4 * m + 2 : ℚ) ≤ 2 ^ 55 := by
      have := hnormal.lt
      exact_mod_cast (by omega : 4 * m + 2 ≤ 2 ^ 55)
    calc q ≤ (4 * m + 2) * 2 ^ (e - 2) := h.le_high
      _ ≤ 2 ^ 55 * 2 ^ (e - 2) := mul_le_mul_of_nonneg_right hmantissa hpos.le
      _ = 2 ^ (e - 2 + (55 : Nat)) := (two_zpow_shift _ 55).symm
      _ ≤ 2 ^ ((1024 : Nat) : Int) := zpow_le_zpow_right₀ (by norm_num) (by omega)
      _ = 2 ^ 1024 := zpow_natCast _ _
      _ < 10 ^ 310 := by exact_mod_cast two_pow_lt_ten_pow.1
      _ = 10 ^ (310 : Int) := rfl

/-- Within those bounds the digits are rounded as a quotient of whole numbers. -/
theorem exists_ofDecimal_eq (negative : Bool) {ds : List Nat} (hds : ∀ d ∈ ds, d < 10) {place : Int}
    (hlow : (10 : ℚ) ^ (-331 : Int) < ofDigits ds * 10 ^ place)
    (hhigh : (ofDigits ds : ℚ) * 10 ^ place < 10 ^ (310 : Int)) :
    ∃ num den : Nat, 0 < den ∧ (num : ℚ) / den = ofDigits ds * 10 ^ place ∧
      ofDecimal negative ds place = ofRatio negative num den := by
  have hpos := ten_zpow_pos place
  rw [← ofDigits_dropWhile] at hlow hhigh ⊢
  have hlt : ofDigits (ds.dropWhile (· == 0)) < 10 ^ (ds.dropWhile (· == 0)).length :=
    ofDigits_lt fun d hd => hds d ((List.dropWhile_sublist _).mem hd)
  unfold ofDecimal
  simp only
  cases hdrop : ds.dropWhile (· == 0) with
  | nil =>
    rw [hdrop, ofDigits_nil, Nat.cast_zero, zero_mul] at hlow
    exact absurd hlow (ten_zpow_pos _).le.not_gt
  | cons d rest =>
    rw [hdrop] at hlow hhigh hlt
    have hd : d ≠ 0 := by
      have hhead := List.head?_dropWhile_not (· == 0) ds
      rw [hdrop] at hhead
      simpa using hhead
    have hge : (10 : ℚ) ^ rest.length ≤ ofDigits (d :: rest) := by exact_mod_cast le_ofDigits hd rest
    have hlt : (ofDigits (d :: rest) : ℚ) < 10 ^ (rest.length + 1) := by exact_mod_cast hlt
    have hfirst : ¬ 310 < place + ((d :: rest).length : Int) := by
      intro hpoint
      rw [List.length_cons] at hpoint
      have hle : (10 : ℚ) ^ (310 : Int) ≤ ofDigits (d :: rest) * 10 ^ place := by
        calc (10 : ℚ) ^ (310 : Int) ≤ 10 ^ ((rest.length : Int) + place) :=
              zpow_le_zpow_right₀ (by norm_num) (by omega)
          _ = 10 ^ rest.length * 10 ^ place := by rw [zpow_add₀ (by norm_num), zpow_natCast]
          _ ≤ ofDigits (d :: rest) * 10 ^ place := mul_le_mul_of_nonneg_right hge hpos.le
      exact absurd hhigh hle.not_gt
    have hlast : ¬ place + ((d :: rest).length : Int) < -330 := by
      intro hpoint
      rw [List.length_cons] at hpoint
      have hle : (ofDigits (d :: rest) : ℚ) * 10 ^ place ≤ 10 ^ (-331 : Int) := by
        calc (ofDigits (d :: rest) : ℚ) * 10 ^ place ≤ 10 ^ (rest.length + 1) * 10 ^ place :=
              mul_le_mul_of_nonneg_right hlt.le hpos.le
          _ = 10 ^ (((rest.length + 1 : Nat) : Int) + place) := by
              rw [zpow_add₀ (by norm_num), zpow_natCast]
          _ ≤ 10 ^ (-331 : Int) := zpow_le_zpow_right₀ (by norm_num) (by omega)
      exact absurd hlow hle.not_gt
    refine ⟨ofDigits (d :: rest) * tenTo place.toNat, tenTo (-place).toNat, tenTo_pos _, ?_, ?_⟩
    · rw [tenTo_eq, tenTo_eq]
      push_cast
      rw [← zpow_mul_toNat (by norm_num : (10 : ℚ) ≠ 0) place]
      field_simp
    · rw [if_neg (by simp), if_neg hfirst, if_neg hlast]

/-! ## All numbers -/

/-- The characters of a finite number behind its sign. -/
def finiteText (m : Nat) (e : Int) : List Char :=
  if m = 0 then ['0', '.', '0'] else decimalText (shortest m e)

theorem ofRatio_eq_of_parts {x : Float} {negative : Bool} {m : Nat} {e : Int} {num den : Nat}
    (h : parts x = .finite negative m e)
    (hbits : magnitudeBits num den = (e + 1074).toNat * twoTo 52 + m) :
    ofRatio negative num den = x := by
  rw [ofRatio, hbits]
  exact (eq_of_parts_finite h).symm

/-- The characters behind the sign spell digits that are rounded to the number. -/
theorem exists_spells_finiteText {x : Float} {negative : Bool} {m : Nat} {e : Int}
    (h : parts x = .finite negative m e) :
    ∃ digits place, Spells (finiteText m e) digits place ∧
      ofDecimal negative (digits.map digitValue) place = x := by
  have hnormal := normalized_of_parts h
  unfold finiteText
  by_cases hm : m = 0
  · subst hm
    have hleast : e = -1074 := by
      have hge := hnormal.ge
      by_contra hne
      exact absurd (hnormal.full (by omega)) (by norm_num)
    subst hleast
    have hspells : Spells (['0'] ++ '.' :: ['0']) (['0'] ++ ['0']) (-(['0'].length : Int)) :=
      .fixed (by simp) (by simp) (by simp)
    exact ⟨_, _, hspells, ofRatio_eq_of_parts h rfl⟩
  · rw [if_neg hm]
    have hnear := near_shortest hnormal hm
    obtain ⟨digits, place, hspells, hvalue⟩ := spells_decimalText (shortest m e)
    have hbounds := hnear.bounds hnormal hm
    rw [← hvalue] at hnear hbounds
    have hds : ∀ d ∈ digits.map digitValue, d < 10 := by
      intro d hd
      obtain ⟨c, hc, rfl⟩ := List.mem_map.mp hd
      exact plainDigit?_lt (by rw [plainDigit?_eq, if_pos (hspells.isDigit c hc)])
    obtain ⟨num, den, hden, hratio, heq⟩ :=
      exists_ofDecimal_eq negative hds hbounds.1 hbounds.2
    refine ⟨digits, place, hspells, ?_⟩
    rw [heq]
    rw [← hratio] at hnear
    exact ofRatio_eq_of_parts h (magnitudeBits_eq hden hnormal hm hnear)

theorem partsText_finite (negative : Bool) (m : Nat) (e : Int) :
    partsText (.finite negative m e) = withSign negative (finiteText m e) := by
  cases negative <;> rfl

theorem partsText_infinite (negative : Bool) :
    partsText (.infinite negative) = withSign negative ['i', 'n', 'f'] := by
  cases negative <;> rfl

/-- A word that begins with a digit is not one of the words for numbers. -/
theorem readFloat?_of_isDigit {s : String} {negative : Bool} {c : Char} {cs : List Char}
    (h : signed (trimmed s.toList) = (negative, c :: cs)) (hc : c.isDigit = true) :
    readFloat? s = readDecimal? negative (c :: cs) := by
  have hlower : c.toLower = c := by
    have hbounds := isDigit_iff.mp hc
    unfold Char.toLower
    rw [dif_neg]
    rintro ⟨hupper, -⟩
    have hupper : 65 ≤ c.toNat := UInt32.le_iff_toNat_le.mp hupper
    omega
  have hword : ∀ first rest, first.isDigit = false →
      String.ofList ((c :: cs).map Char.toLower) ≠ String.ofList (first :: rest) := by
    intro first rest hfirst heq
    have heq := congrArg String.toList heq
    rw [String.toList_ofList, String.toList_ofList, List.map_cons, hlower] at heq
    rw [(List.cons.inj heq).1, hfirst] at hc
    cases hc
  unfold readFloat?
  simp only [h]
  rw [if_neg (hword 'n' ['a', 'n'] (by decide)), if_neg]
  rintro (heq | heq)
  · exact hword 'i' ['n', 'f'] (by decide) heq
  · exact hword 'i' ['n', 'f', 'i', 'n', 'i', 't', 'y'] (by decide) heq

section Literals

variable {x : Float} {negative : Bool} {m : Nat} {e : Int}

theorem isPlain_of_mem_words : ∀ word ∈ [['n', 'a', 'n'], ['i', 'n', 'f']], ∀ c ∈ word, IsPlain c := by
  simp [IsPlain]

theorem isPlain_of_mem_literal (x : Float) : ∀ c ∈ (literal x).toList, IsPlain c := by
  rw [literal, String.toList_ofList]
  cases h : parts x with
  | nan => exact isPlain_of_mem_words ['n', 'a', 'n'] (by simp)
  | infinite negative =>
    rw [partsText_infinite]
    exact isPlain_of_mem_withSign (isPlain_of_mem_words _ (by simp))
  | finite negative m e =>
    obtain ⟨digits, place, hspells, -⟩ := exists_spells_finiteText h
    rw [partsText_finite]
    exact isPlain_of_mem_withSign hspells.isPlain

/-- What is left of a finite literal behind the sign. -/
theorem signed_literal (h : parts x = .finite negative m e) :
    signed (trimmed (literal x).toList) = (negative, finiteText m e) := by
  obtain ⟨digits, place, hspells, -⟩ := exists_spells_finiteText h
  obtain ⟨c, rest, hcons, hc⟩ := hspells.exists_cons
  rw [trimmed_of_isPlain (isPlain_of_mem_literal x), literal, String.toList_ofList, h, partsText_finite,
    hcons]
  exact signed_withSign negative hc rest

/-- Every number is read as it is written. -/
theorem readFloat?_literal (x : Float) : readFloat? (literal x) = some x := by
  cases h : parts x with
  | nan =>
    rw [eq_of_parts_nan h]
    decide +kernel
  | infinite negative =>
    rw [eq_of_parts_infinite h]
    cases negative <;> decide +kernel
  | finite negative m e =>
    obtain ⟨digits, place, hspells, hvalue⟩ := exists_spells_finiteText h
    obtain ⟨c, rest, hcons, hc⟩ := hspells.exists_cons
    have hsigned := signed_literal h
    have hread := readDecimal?_of_spells negative hspells
    rw [hvalue] at hread
    rw [hcons] at hsigned hread
    rw [readFloat?_of_isDigit hsigned hc, hread]

/-- A literal is no whole number. -/
theorem readInt?_literal (x : Float) : readInt? (literal x) = none := by
  cases h : parts x with
  | nan =>
    rw [literal, h]
    decide +kernel
  | infinite negative =>
    rw [literal, h]
    cases negative <;> decide +kernel
  | finite negative m e =>
    obtain ⟨digits, place, hspells, -⟩ := exists_spells_finiteText h
    obtain ⟨d, ds, c, rest, hrun⟩ := hspells.digitRun
    unfold readInt?
    simp only [signed_literal h, hrun]

end Literals

end StackPrimer.Number

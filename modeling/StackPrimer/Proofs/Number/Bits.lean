import Mathlib
import StackPrimer.Number.Binary

/-!
# The bits of a number

A double-precision number is the same as its 64 bits, of which there is one pattern only for the value
that is no number. So its parts determine it. That a number is made from its bits is a lemma of Batteries
that no single module of Mathlib brings, hence the import of all of it.

Results:
* `toBits_ofBits`: the bits of a finite number are those from which it has been made.
* `eq_of_parts_nan`, `eq_of_parts_infinite`, `eq_of_parts_finite`: a number is put together from its
  parts.
* `normalized_of_parts`, `parts_of_normalized`: which mantissas and exponents there are.
-/

namespace StackPrimer.Number

open Float.Model Float.Model.UnpackedFloat

theorem twoTo_eq (k : Nat) : twoTo k = 2 ^ k := rfl

/-! ## Numbers and bits -/

theorem toNat_unpackExponent (b : UInt64) :
    (@unpackExponent Format.binary64 b.toBitVec).toNat = b.toNat / 2 ^ 52 % 2 ^ 11 := by
  change (b.toNat >>> 52) % 2 ^ 11 = _
  rw [Nat.shiftRight_eq_div_pow]

theorem toNat_unpackMantissa (b : UInt64) :
    (@unpackMantissa Format.binary64 b.toBitVec).toNat = b.toNat % 2 ^ 52 := by
  change (b.toNat >>> 0) % 2 ^ 52 = _
  rw [Nat.shiftRight_zero]

/-- The bits of a finite number are those from which it has been made. -/
theorem toBits_ofBits {b : UInt64} (h : b.toNat / 2 ^ 52 % 2 ^ 11 ≠ 2047) :
    (Float.ofBits b).toBits = b := by
  rw [← toNat_unpackExponent] at h
  have hvalid : Format.binary64.Valid b.toBitVec := by
    constructor
    intro hones
    rw [hones] at h
    exact absurd rfl h
  exact UInt64.toBitVec_inj.mp (pack_unpack_of_valid hvalid)

/-- There is one pattern of bits for the value that is no number. -/
theorem toBits_eq_of_nan {x : Float} (hexponent : x.toBits.toNat / 2 ^ 52 % 2 ^ 11 = 2047)
    (hmantissa : x.toBits.toNat % 2 ^ 52 ≠ 0) : x.toBits = 0x7FF8000000000000 := by
  obtain ⟨⟨b, hvalid⟩⟩ := x
  change b.toNat / 2 ^ 52 % 2 ^ 11 = 2047 at hexponent
  change b.toNat % 2 ^ 52 ≠ 0 at hmantissa
  apply UInt64.toBitVec_inj.mp
  apply hvalid.eq_packedNaN
  · apply BitVec.eq_of_toNat_eq
    rw [toNat_unpackExponent, hexponent]
    rfl
  · intro hzero
    rw [← toNat_unpackMantissa, hzero] at hmantissa
    exact hmantissa rfl

/-! ## Numbers and parts -/

/-- The mantissas and exponents of finite numbers: the first bit is at place 52, unless the exponent is
the least one. -/
structure Normalized (m : Nat) (e : Int) : Prop where
  lt : m < 2 ^ 53
  ge : -1074 ≤ e
  le : e ≤ 971
  full : -1074 < e → 2 ^ 52 ≤ m

theorem Parts.ofBits_eq (b : Nat) : Parts.ofBits b =
    if b / 2 ^ 52 % 2 ^ 11 = 2047 then
      if b % 2 ^ 52 = 0 then .infinite (decide (2 ^ 63 ≤ b)) else .nan
    else if b / 2 ^ 52 % 2 ^ 11 = 0 then .finite (decide (2 ^ 63 ≤ b)) (b % 2 ^ 52) (-1074)
    else .finite (decide (2 ^ 63 ≤ b)) (2 ^ 52 + b % 2 ^ 52)
      (((b / 2 ^ 52 % 2 ^ 11 : Nat) : Int) - 1075) := rfl

/-- The bit of the sign is the first one. -/
theorem signBit_eq {b : Nat} (h : b < 2 ^ 64) :
    (if decide (2 ^ 63 ≤ b) = true then twoTo 63 else 0) = b / 2 ^ 63 * 2 ^ 63 := by
  rw [twoTo_eq]
  by_cases hb : 2 ^ 63 ≤ b
  · rw [if_pos (decide_eq_true hb)]
    omega
  · rw [if_neg (by simpa using hb)]
    omega

section Parts

variable {x : Float} {negative : Bool} {m : Nat} {e : Int}

theorem eq_of_parts_nan (h : parts x = .nan) : x = notANumber := by
  rw [parts, Parts.ofBits_eq] at h
  by_cases hexponent : x.toBits.toNat / 2 ^ 52 % 2 ^ 11 = 2047
  · rw [if_pos hexponent] at h
    by_cases hmantissa : x.toBits.toNat % 2 ^ 52 = 0
    · rw [if_pos hmantissa] at h
      cases h
    · rw [← Float.ofBits_toBits x, toBits_eq_of_nan hexponent hmantissa]
      rfl
  · rw [if_neg hexponent] at h
    split_ifs at h

theorem eq_of_parts_infinite (h : parts x = .infinite negative) : x = infinity negative := by
  have hlt : x.toBits.toNat < 2 ^ 64 := x.toBits.toNat_lt
  rw [parts, Parts.ofBits_eq] at h
  by_cases hexponent : x.toBits.toNat / 2 ^ 52 % 2 ^ 11 = 2047
  · rw [if_pos hexponent] at h
    by_cases hmantissa : x.toBits.toNat % 2 ^ 52 = 0
    · rw [if_pos hmantissa] at h
      obtain rfl := Parts.infinite.inj h
      have hbits : x.toBits.toNat =
          (if decide (2 ^ 63 ≤ x.toBits.toNat) then twoTo 63 else 0) + 2047 * twoTo 52 := by
        rw [signBit_eq hlt, twoTo_eq]
        omega
      rw [infinity, ← hbits, UInt64.ofNat_toNat, Float.ofBits_toBits]
    · rw [if_neg hmantissa] at h
      cases h
  · rw [if_neg hexponent] at h
    split_ifs at h

/-- What the parts of a finite number say about its bits. -/
theorem toBits_of_parts_finite (h : parts x = .finite negative m e) :
    Normalized m e ∧ x.toBits.toNat =
      (if negative then twoTo 63 else 0) + ((e + 1074).toNat * twoTo 52 + m) := by
  have hlt : x.toBits.toNat < 2 ^ 64 := x.toBits.toNat_lt
  rw [parts, Parts.ofBits_eq] at h
  by_cases hexponent : x.toBits.toNat / 2 ^ 52 % 2 ^ 11 = 2047
  · rw [if_pos hexponent] at h
    split_ifs at h
  · rw [if_neg hexponent] at h
    by_cases hleast : x.toBits.toNat / 2 ^ 52 % 2 ^ 11 = 0
    · rw [if_pos hleast] at h
      obtain ⟨rfl, rfl, rfl⟩ := Parts.finite.inj h
      refine ⟨⟨by omega, by omega, by omega, by omega⟩, ?_⟩
      rw [signBit_eq hlt, twoTo_eq]
      omega
    · rw [if_neg hleast] at h
      obtain ⟨rfl, rfl, rfl⟩ := Parts.finite.inj h
      refine ⟨⟨by omega, by omega, by omega, by omega⟩, ?_⟩
      rw [signBit_eq hlt, twoTo_eq]
      omega

theorem normalized_of_parts (h : parts x = .finite negative m e) : Normalized m e :=
  (toBits_of_parts_finite h).1

theorem eq_of_parts_finite (h : parts x = .finite negative m e) :
    x = Float.ofBits (UInt64.ofNat
      ((if negative then twoTo 63 else 0) + ((e + 1074).toNat * twoTo 52 + m))) := by
  rw [← (toBits_of_parts_finite h).2, UInt64.ofNat_toNat, Float.ofBits_toBits]

/-- A number that is put together from parts has these. -/
theorem parts_of_normalized (hnormal : Normalized m e) :
    parts (Float.ofBits (UInt64.ofNat
      ((if negative then twoTo 63 else 0) + ((e + 1074).toNat * twoTo 52 + m)))) =
      .finite negative m e := by
  obtain ⟨hlt, hge, hle, hfull⟩ := hnormal
  obtain ⟨n, hn⟩ : ∃ n : Nat, e + 1074 = n := ⟨(e + 1074).toNat, by omega⟩
  rw [hn, Int.toNat_natCast, twoTo_eq, twoTo_eq]
  generalize hb : (if negative = true then 2 ^ 63 else 0) + (n * 2 ^ 52 + m) = b
  have hsign : decide (2 ^ 63 ≤ b) = negative := by
    cases negative with
    | true => exact decide_eq_true (by simp at hb; omega)
    | false => exact decide_eq_false (by simp at hb; omega)
  have hfields : b < 2 ^ 64 ∧ b / 2 ^ 52 % 2 ^ 11 = (if m < 2 ^ 52 then 0 else n + 1) ∧
      b % 2 ^ 52 = (if m < 2 ^ 52 then m else m - 2 ^ 52) := by
    cases negative with
    | true =>
      simp only [if_true] at hb
      split <;> omega
    | false =>
      simp only [Bool.false_eq_true, if_false] at hb
      split <;> omega
  obtain ⟨hsize, hexponent, hmantissa⟩ := hfields
  have htoNat : (UInt64.ofNat b).toNat = b := by
    rw [UInt64.toNat_ofNat']
    exact Nat.mod_eq_of_lt hsize
  have hbits : (Float.ofBits (UInt64.ofNat b)).toBits = UInt64.ofNat b := by
    apply toBits_ofBits
    rw [htoNat, hexponent]
    split <;> omega
  rw [parts, hbits, htoNat, Parts.ofBits_eq, hexponent, hmantissa, hsign]
  by_cases hm : m < 2 ^ 52
  · rw [if_pos hm, if_pos hm, if_neg (by omega), if_pos rfl, Parts.finite.injEq]
    exact ⟨rfl, rfl, by omega⟩
  · rw [if_neg hm, if_neg hm, if_neg (by omega), if_neg (by omega), Parts.finite.injEq]
    exact ⟨rfl, by omega, by omega⟩

end Parts

end StackPrimer.Number

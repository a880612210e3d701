import StackPrimer.Number.Power

/-!
# Double-precision numbers, exactly

A double-precision number is not a number, infinite, or a sign with a whole mantissa below 2⁵³ and
a power of two. Taking a number apart and rounding a quotient of whole numbers are done in exact
arithmetic.
-/

namespace StackPrimer.Number

/-- A double-precision number taken apart. A finite one is ± `mantissa` · 2 ^ `exponent`, with the
least exponent, −1074, for all numbers below 2⁻¹⁰²². -/
inductive Parts
  | nan
  | infinite (negative : Bool)
  | finite (negative : Bool) (mantissa : Nat) (exponent : Int)
  deriving DecidableEq, Repr

/-- The parts of a number from its 64 bits: the sign, eleven bits of exponent, 52 of mantissa. -/
def Parts.ofBits (bits : Nat) : Parts :=
  let negative := twoTo 63 ≤ bits
  let exponent : Nat := bits / twoTo 52 % twoTo 11
  let mantissa : Nat := bits % twoTo 52
  if exponent = 2047 then
    if mantissa = 0 then .infinite negative else .nan
  else if exponent = 0 then .finite negative mantissa (-1074)
  else .finite negative (twoTo 52 + mantissa) ((exponent : Int) - 1075)

/-- The parts of a number. -/
def parts (x : Float) : Parts := Parts.ofBits x.toBits.toNat

/-- The power of two that the last place of the double nearest to `num / den` stands for. -/
def lastPlace (num den : Nat) : Int :=
  let guess : Int := num.log2 - den.log2
  let below : Bool :=
    if 0 ≤ guess then num < den * twoTo guess.toNat else num * twoTo (-guess).toNat < den
  max ((if below then guess - 1 else guess) - 52) (-1074)

/-- The whole number nearest to `num / den`; halfway between two, the even one. -/
def nearestWhole (num den : Nat) : Nat :=
  let q := num / den
  let r := num % den
  if den < 2 * r ∨ (2 * r = den ∧ q % 2 = 1) then q + 1 else q

/-- The bits of the double nearest to `num / den`, without its sign. A mantissa that rounds up to
2⁵³ carries into the exponent, and what is too large becomes infinite. -/
def magnitudeBits (num den : Nat) : Nat :=
  if num = 0 then 0
  else
    let place := lastPlace num den
    let mantissa :=
      if 0 ≤ place then nearestWhole num (den * twoTo place.toNat)
      else nearestWhole (num * twoTo (-place).toNat) den
    min ((place + 1074).toNat * twoTo 52 + mantissa) (2047 * twoTo 52)

/-- The double nearest to ± `num / den`; halfway between two, the one with the even mantissa. -/
def ofRatio (negative : Bool) (num den : Nat) : Float :=
  Float.ofBits (UInt64.ofNat ((if negative then twoTo 63 else 0) + magnitudeBits num den))

/-- An infinite number. -/
def infinity (negative : Bool) : Float :=
  Float.ofBits (UInt64.ofNat ((if negative then twoTo 63 else 0) + 2047 * twoTo 52))

/-- The value that is no number. -/
def notANumber : Float := Float.ofBits 0x7FF8000000000000

/-- The double nearest to a whole number, unless that is too large for any. -/
def ofInt? (n : Int) : Option Float :=
  let x := ofRatio (decide (n < 0)) n.natAbs 1
  match parts x with
  | .finite .. => some x
  | _ => none

/-- The whole number `mantissa` · 2 ^ `exponent` with its sign, if that is one. -/
def wholeOf? (negative : Bool) (mantissa : Nat) (exponent : Int) : Option Int :=
  let signed (n : Nat) : Int := if negative then -n else n
  if 0 ≤ exponent then some (signed (mantissa * twoTo exponent.toNat))
  else if mantissa % twoTo (-exponent).toNat = 0 then
    some (signed (mantissa / twoTo (-exponent).toNat))
  else none

/-- The number as a whole number, if it is one. -/
def whole? (x : Float) : Option Int :=
  match parts x with
  | .finite negative mantissa exponent => wholeOf? negative mantissa exponent
  | _ => none

end StackPrimer.Number

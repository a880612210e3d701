import StackPrimer.Number.Binary

/-!
# The fewest digits that read back

Of all decimals that round to a given double, the one with the fewest digits is chosen, and of
several such the one nearest to the double; of two equally near the one whose last digit is even.

With one digit, with two and so on, only the two neighbours of the number on the grid of decimals
with that many digits can be the nearest, so these two are tried.
-/

namespace StackPrimer.Number

/-- The number `digits` · 10 ^ `exponent`. -/
structure Decimal where
  digits : Nat
  exponent : Int
  deriving DecidableEq, Repr

/-- Whether `mantissa` · 2 ^ `exponent` is at least 10 ^ `k`. -/
def atLeastTenTo (mantissa : Nat) (exponent k : Int) : Bool :=
  tenTo k.toNat * twoTo (-exponent).toNat ≤ mantissa * twoTo exponent.toNat * tenTo (-k).toNat

/-- The least `k` from `guess` on, but within `steps` of it, for which the number is below
10 ^ `k`. -/
def leastPowerAbove (mantissa : Nat) (exponent : Int) : (steps : Nat) → (guess : Int) → Int
  | 0, guess => guess
  | steps + 1, guess =>
    if atLeastTenTo mantissa exponent guess then
      leastPowerAbove mantissa exponent steps (guess + 1)
    else guess

/-- How many digits a positive number has before its point; negative for zeros after the point. -/
def wholeDigits (mantissa : Nat) (exponent : Int) : Int :=
  leastPowerAbove mantissa exponent 4 ((((mantissa.log2 : Int) + exponent) * 30103).fdiv 100000 - 1)

/-- The decimal with last place 10 ^ `place` that is nearest to `mantissa` · 2 ^ `exponent`, if one
with that last place rounds to this double. All is scaled to whole numbers: a unit of the last
decimal place to `unit`, a quarter of a unit of the last binary place to `quarter`. -/
def onGrid? (mantissa : Nat) (exponent place : Int) : Option Decimal :=
  let quarter := twoTo exponent.toNat * tenTo (-place).toNat
  let unit := 4 * twoTo (-exponent).toNat * tenTo place.toNat
  let value := 4 * mantissa * quarter
  let low := value - (if mantissa = twoTo 52 ∧ -1074 < exponent then 1 else 2) * quarter
  let high := value + 2 * quarter
  let readsBack (d : Nat) : Bool :=
    if mantissa % 2 = 0 then low ≤ d * unit && d * unit ≤ high
    else low < d * unit && d * unit < high
  let down := value / unit
  let up := down + 1
  let rest := value % unit
  match readsBack down, readsBack up with
  | true, true =>
    some ⟨if 2 * rest < unit ∨ (2 * rest = unit ∧ down % 2 = 0) then down else up, place⟩
  | true, false => some ⟨down, place⟩
  | false, true => some ⟨up, place⟩
  | false, false => none

/-- The decimal without the zeros at its end, of which at most `steps` are dropped. -/
def Decimal.dropZeros : (steps : Nat) → Decimal → Decimal
  | 0, d => d
  | steps + 1, d =>
    if d.digits ≠ 0 ∧ d.digits % 10 = 0 then dropZeros steps ⟨d.digits / 10, d.exponent + 1⟩ else d

/-- The shortest decimal that reads back as the positive number `mantissa` · 2 ^ `exponent`. Every
double has one of at most seventeen digits. -/
def shortest (mantissa : Nat) (exponent : Int) : Decimal :=
  let point := wholeDigits mantissa exponent
  let found := (List.range 17).findSome? fun i : Nat => onGrid? mantissa exponent (point - 1 - (i : Int))
  (found.getD ⟨mantissa, exponent⟩).dropZeros 20

end StackPrimer.Number

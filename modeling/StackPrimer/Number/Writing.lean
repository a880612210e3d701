import StackPrimer.Number.Shortest

/-!
# Writing numbers

A literal shows all of a number: the fewest digits that read back, always with a point or an
exponent. It is positional for numbers from 10⁻⁴ up to, but not including, 10¹⁶, and otherwise has
an exponent of at least two digits with its sign. On display, a whole number below 10¹⁶ is written
without point and a negative zero without sign.
-/

namespace StackPrimer.Number

/-- The digits of a whole number in tens. -/
def digitChars (n : Nat) : List Char := Nat.toDigits 10 n

/-- An exponent of ten: its sign and at least two digits. -/
def exponentText (e : Int) : List Char :=
  let digits := digitChars e.natAbs
  (if e < 0 then '-' else '+') :: (if digits.length < 2 then '0' :: digits else digits)

/-- A positive decimal. -/
def decimalText (d : Decimal) : List Char :=
  let digits := digitChars d.digits
  let point : Int := d.exponent + digits.length
  if -4 < point ∧ point ≤ 16 then
    if point ≤ 0 then '0' :: '.' :: List.replicate (-point).toNat '0' ++ digits
    else
      let n := point.toNat
      if digits.length ≤ n then digits ++ List.replicate (n - digits.length) '0' ++ ['.', '0']
      else digits.take n ++ '.' :: digits.drop n
  else
    let fraction := if digits.length ≤ 1 then [] else '.' :: digits.drop 1
    digits.take 1 ++ fraction ++ 'e' :: exponentText (point - 1)

/-- A number from its parts. -/
def partsText : Parts → List Char
  | .nan => ['n', 'a', 'n']
  | .infinite negative => (if negative then ['-'] else []) ++ ['i', 'n', 'f']
  | .finite negative mantissa exponent =>
    (if negative then ['-'] else []) ++
      if mantissa = 0 then ['0', '.', '0'] else decimalText (shortest mantissa exponent)

/-- A number as a literal. -/
def literal (x : Float) : String := String.ofList (partsText (parts x))

/-- A number as the machine prints it. -/
def display (x : Float) : String :=
  match whole? x with
  | some n => if n.natAbs < tenTo 16 then toString n else literal x
  | none => literal x

end StackPrimer.Number

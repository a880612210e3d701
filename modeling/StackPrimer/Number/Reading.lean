import StackPrimer.Number.Binary
import StackPrimer.Text.Blank
import StackPrimer.Text.DecimalDigit

/-!
# Reading numbers

A number may have blanks around it, a sign in front, digits of any script, and single underscores
between two digits. A whole number is digits alone; it is refused with more than 4300 of them. Any
other number may have a point and an exponent, or be one of the words for infinity and for no
number, in letters of either case. It is rounded to the nearest double, which is infinite if the
number is too large.
-/

namespace StackPrimer.Number

/-- A whole number may not have more digits than this, leading zeros included. -/
def digitLimit : Nat := 4300

/-- A character of a number with foreign digits and blanks replaced by the common ones. The
information separators are blanks between words but not around a number. -/
def plainChar (c : Char) : Char :=
  if c.toNat < 0x80 then c
  else match Text.digitValue? c with
  | some d => Nat.digitChar d
  | none => if Text.isBlank c then ' ' else c

/-- The blanks that may stand around a number, once its characters are plain. -/
def isMargin (c : Char) : Bool := c == ' ' || (0x09 ≤ c.toNat && c.toNat ≤ 0x0D)

/-- The characters of a number, plain and without the blanks around it. -/
def trimmed (cs : List Char) : List Char :=
  (((cs.map plainChar).dropWhile isMargin).reverse.dropWhile isMargin).reverse

/-- The value of a plain digit. -/
def plainDigit? (c : Char) : Option Nat :=
  if '0' ≤ c ∧ c ≤ '9' then some (c.toNat - '0'.toNat) else none

/-- The digits at the front, with single underscores between them passed over, and the rest. -/
def digitRun : List Char → List Nat × List Char
  | [] => ([], [])
  | c :: cs =>
    match plainDigit? c with
    | none => ([], c :: cs)
    | some d =>
      match cs with
      | '_' :: next :: rest =>
        if (plainDigit? next).isSome then
          let (ds, rest) := digitRun (next :: rest)
          (d :: ds, rest)
        else ([d], '_' :: next :: rest)
      | cs =>
        let (ds, rest) := digitRun cs
        (d :: ds, rest)

/-- Whether there is a minus sign in front, and what follows the sign. -/
def signed : List Char → Bool × List Char
  | '-' :: cs => (true, cs)
  | '+' :: cs => (false, cs)
  | cs => (false, cs)

/-- The whole number that the digits stand for. -/
def ofDigits (ds : List Nat) : Nat := ds.foldl (fun n d => 10 * n + d) 0

/-- A whole number. -/
def readInt? (s : String) : Option Int :=
  let (negative, cs) := signed (trimmed s.toList)
  match digitRun cs with
  | ([], _) => none
  | (ds, []) =>
    if digitLimit < ds.length then none
    else some (if negative then -(ofDigits ds) else ofDigits ds)
  | _ => none

/-- An exponent, if the text is one: nothing at all, or a letter with a whole number. -/
def exponent? : List Char → Option Int
  | [] => some 0
  | c :: cs =>
    if c = 'e' ∨ c = 'E' then
      let (negative, cs) := signed cs
      match digitRun cs with
      | ([], _) => none
      | (ds, []) => some (if negative then -(ofDigits ds) else ofDigits ds)
      | _ => none
    else none

/-- The double nearest to ± `ds` · 10 ^ `exponent`. Numbers from 10³¹⁰ on are infinite, and those
below 10⁻³³⁰ are zero, whatever their digits. -/
def ofDecimal (negative : Bool) (ds : List Nat) (exponent : Int) : Float :=
  let ds := ds.dropWhile (· == 0)
  let point := exponent + ds.length
  if ds.isEmpty then ofRatio negative 0 1
  else if 310 < point then infinity negative
  else if point < -330 then ofRatio negative 0 1
  else ofRatio negative (ofDigits ds * tenTo exponent.toNat) (tenTo (-exponent).toNat)

/-- A number in the form of digits, with or without point and exponent. -/
def readDecimal? (negative : Bool) (cs : List Char) : Option Float :=
  let (ds, rest) := digitRun cs
  let (fraction, rest) :=
    match rest with
    | '.' :: rest => digitRun rest
    | rest => ([], rest)
  if (ds ++ fraction).isEmpty then none
  else (exponent? rest).map fun e => ofDecimal negative (ds ++ fraction) (e - fraction.length)

/-- A number of any form. -/
def readFloat? (s : String) : Option Float :=
  let (negative, cs) := signed (trimmed s.toList)
  let word := String.ofList (cs.map Char.toLower)
  if word = "nan" then some notANumber
  else if word = "inf" ∨ word = "infinity" then some (infinity negative)
  else readDecimal? negative cs

end StackPrimer.Number

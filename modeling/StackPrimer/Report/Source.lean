import StackPrimer.Text.Lines

/-!
# Pictures of source text

A message about a place in a source text shows the line that holds it and, underneath, carets below
the place with a caption behind them. Tabs stay tabs, so that the carets stand where they should.

Results:
* `carets_pos`: there is always a caret.
-/

namespace StackPrimer

/-- A text and the name of the file that it comes from, if any. -/
structure Source where
  text : String
  filename : Option String
  deriving DecidableEq, Repr

namespace Source

/-- The line that holds a position, and the column of the position in it. -/
def locate (s : Source) (position : Nat) : List Char × Nat :=
  Text.locate (Text.sourceLines s.text.toList) position

/-- The number of a line in six places, with a sign or a blank in front, and a bar. -/
def margin (number : Int) : List Char :=
  let signed := (if number < 0 then '-' else ' ') :: (toString number.natAbs).toList
  List.replicate (6 - signed.length) ' ' ++ signed ++ [' ', '|']

/-- How many carets stand under `width` characters from `column` on: at least one, and otherwise none
past the end of the line. -/
def carets (line : List Char) (column width : Nat) : Nat := max 1 (min width (line.length - column))

/-- There is always a caret. -/
theorem carets_pos (line : List Char) (column width : Nat) : 0 < carets line column width := by
  unfold carets
  omega

/-- The line behind a margin, and the caption under it. -/
def picture (line : List Char) (column width : Nat) (margin : List Char) (caption : String) :
    String :=
  let blanks := (margin ++ line.take column).map fun c => if c = '\t' then '\t' else ' '
  String.ofList
    (margin ++ Text.dropBlankEnd line ++ '\n' :: blanks ++
      List.replicate (carets line column width) '^' ++ ' ' :: caption.toList)

end Source

end StackPrimer

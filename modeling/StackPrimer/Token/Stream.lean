import StackPrimer.Token.Piece

/-!
# The tokens of a text

The pieces of a text that are not gaps, each with its position and the number of its line, and after
them one empty token at the end. Lines are counted by line feeds alone.
-/

namespace StackPrimer

/-- The number of line feeds. -/
def lineFeeds (cs : List Char) : Nat := cs.count '\n'

/-- The positions of the line feeds, the first character being at `position`. -/
def lineFeedsFrom (position : Nat) : List Char → List Nat
  | [] => []
  | c :: cs =>
    if c = '\n' then position :: lineFeedsFrom (position + 1) cs else lineFeedsFrom (position + 1) cs

namespace Token

/-- The tokens of the rest of a text, which begins at `position` on `line`. -/
def streamFrom (position line : Nat) : List Char → List Token
  | [] => [⟨.finish, "", line, position, position⟩]
  | c :: cs =>
    let piece := Piece.first c cs
    let taken := c :: cs.take (piece.length - 1)
    let following := streamFrom (position + piece.length) (line + lineFeeds taken)
      (cs.drop (piece.length - 1))
    match piece.kind with
    | none => following
    | some kind =>
      ⟨kind, String.ofList taken, line, position, position + piece.length⟩ :: following
termination_by cs => cs.length
decreasing_by all_goals (simp only [List.length_cons, List.length_drop]; omega)

/-- The tokens of a text. -/
def stream (text : String) : List Token := streamFrom 0 1 text.toList

end Token

end StackPrimer

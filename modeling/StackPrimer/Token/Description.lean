import StackPrimer.Text.LetterCase
import StackPrimer.Token.Basic

/-!
# What was expected

A message about a token that does not fit says what was expected in its place: a kind of token or a
part of a program.
-/

namespace StackPrimer

/-- The kind in words, or in single quotes, where a name in capitals is written in small letters. -/
def Kind.description (k : Kind) : String :=
  match k with
  | name => "a name"
  | number => "a number"
  | indent => "an indented block"
  | finish => "the end of the program"
  | _ =>
    let cs := k.spelling.toList
    String.ofList ('\'' :: (if Text.isCapital cs then Text.lower cs else cs) ++ ['\''])

/-- What the grammar asks for at some point. -/
inductive Expectation
  | kind (k : Kind)
  | statement
  | statementOrFinish
  | assignmentOrCall
  | comparison
  | operand
  deriving DecidableEq, Repr

/-- What was expected, in words. -/
def Expectation.text : Expectation → String
  | kind k => k.description
  | statement => "a statement"
  | statementOrFinish => "a statement or the end of the program"
  | assignmentOrCall => "'=' or '('"
  | comparison => "a comparison operator"
  | operand => "a name, a number, or '('"

end StackPrimer

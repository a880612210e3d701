import StackPrimer.Text.Blank

/-!
# Input

Input is read a line at a time, when a word is needed and none is pending; the words of the line
are then taken one by one.
-/

namespace StackPrimer

/-- The words of the last line read that are still to be taken, and the text not read yet. -/
structure Input where
  pending : List (List Char) := []
  unread : List Char := []
  deriving DecidableEq, Repr

namespace Input

/-- The words of the first line that has any, and the text after that line. The first line is begun
by `begun` (last character first). -/
def fetch : (begun : List Char) → List Char → Option (List Char × Input)
  | begun, [] =>
    match Text.words begun.reverse with
    | [] => none
    | word :: pending => some (word, ⟨pending, []⟩)
  | begun, c :: cs =>
    if c = '\n' then
      match Text.words begun.reverse with
      | [] => fetch [] cs
      | word :: pending => some (word, ⟨pending, cs⟩)
    else fetch (c :: begun) cs

/-- The next word, if there is one, and the input after it. -/
def next (input : Input) : Option (List Char) × Input :=
  match input.pending with
  | word :: pending => (some word, { input with pending })
  | [] =>
    match fetch [] input.unread with
    | some (word, rest) => (some word, rest)
    | none => (none, {})

/-- The input that a text holds. -/
def ofText (text : String) : Input := ⟨[], text.toList⟩

end Input

end StackPrimer

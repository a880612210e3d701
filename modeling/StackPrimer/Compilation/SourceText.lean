import StackPrimer.Report.Journal
import StackPrimer.Compilation.Program

/-!
# From text to program

A text is cut into tokens and compiled; the first problem stops the compilation and is filed.
-/

namespace StackPrimer

/-- The program that a text stands for, if it does for any; the journal tells. -/
def compile (text : String) (filename : Option String) (j : Journal) : Option Program × Journal :=
  match Compilation.compileTokens (Token.stream text) with
  | .ok (p, globals) =>
    let name := match filename with
      | some name => if name = "" then "the program" else name
      | none => "the program"
    (some p, j.say 1 ("Translated " ++ name ++ " into " ++ toString p.size ++
      " instructions with " ++ toString globals ++ " global cells."))
  | .error e =>
    match Finding.ofFailure? ⟨text, filename⟩ e with
    | some f => (none, j.file f)
    | none => (none, j)

end StackPrimer

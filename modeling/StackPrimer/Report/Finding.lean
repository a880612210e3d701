import StackPrimer.Code.Listing
import StackPrimer.Report.Source
import StackPrimer.Compilation.Action

/-!
# Findings

A finding tells what went wrong: in an introduction, in pictures of the source text, and in
closing lines. There is one constructor function for everything that can go wrong.
-/

namespace StackPrimer

/-- A remark on the characters of a source from position `start` up to `stop`; it goes with a line
number. -/
structure Annotation where
  source : Source
  start : Nat
  stop : Nat
  line : Int
  caption : String
  deriving DecidableEq, Repr

namespace Annotation

/-- A remark on a token. -/
def onToken (source : Source) (t : Token) (caption : String) : Annotation :=
  ⟨source, t.start, t.stop, t.line, caption⟩

/-- The remark with its line of the source. -/
def picture (a : Annotation) : String :=
  let (line, column) := a.source.locate a.start
  Source.picture line column (max (a.stop - a.start) 1) (Source.margin a.line) a.caption

end Annotation

/-- What went wrong. -/
structure Finding where
  intro : String
  annotations : List Annotation
  footer : List String
  deriving DecidableEq, Repr

namespace Finding

/-- The pictures of the remarks, with the name of a file in front of those that follow remarks on
another file. -/
def pictures : (filename : Option String) → List Annotation → List String
  | _, [] => []
  | filename, a :: rest =>
    let heading :=
      if a.source.filename = filename then []
      else
        match a.source.filename with
        | none => []
        | some name => if name = "" then [] else [name]
    heading ++ a.picture :: pictures a.source.filename rest

/-- The finding as it is shown. -/
def text (f : Finding) : String :=
  "\n".intercalate (f.intro :: "" :: pictures none f.annotations ++ f.footer)

/-! ## What can go wrong in a source text -/

/-- The grammar asks for something else. -/
def unexpected (source : Source) (t : Token) (expected : String) : Finding :=
  let line := toString t.line
  let search := "(I was looking for " ++ expected ++ ".)"
  match t.kind with
  | .unknown =>
    ⟨"I don't recognize this character at line " ++ line ++ ".",
      [.onToken source t "here"], [search]⟩
  | .finish => ⟨"The program ended early, at line " ++ line ++ ".", [], [search]⟩
  | _ => ⟨"Syntax error at line " ++ line ++ ".", [.onToken source t ("expected " ++ expected)], []⟩

/-- What to do before a name can be used in a role. -/
def hint : Compilation.Role → String
  | .variable => "Assign a value to a variable before using it."
  | .function => "Declare a function with 'def' before calling it."

/-- A name denotes nothing. -/
def undeclared (source : Source) (role : Compilation.Role) (t : Token) : Finding :=
  ⟨"There is no " ++ role.text ++ " called '" ++ t.lexeme ++ "' at line " ++ toString t.line ++ ".",
    [.onToken source t "declared where?"], [hint role]⟩

/-- A function is declared once more. -/
def redefined (source : Source) (t : Token) : Finding :=
  ⟨"Function '" ++ t.lexeme ++ "' is defined more than once (again at line " ++ toString t.line ++
    ").", [.onToken source t "second definition"], []⟩

/-- The finding for a failure that a source text can cause; no text causes any other. -/
def ofFailure? (source : Source) : Compilation.Failure → Option Finding
  | .unexpected t expected => some (unexpected source t expected.text)
  | .undeclared role t => some (undeclared source role t)
  | .redefined t => some (redefined source t)
  | _ => none

/-! ## What can go wrong with files -/

/-- There is no file. -/
def noSuchFile (path : String) : Finding := ⟨"I see no file called " ++ path, [], []⟩

/-- A file cannot be read or written. -/
def brokenFile (path message : String) : Finding :=
  ⟨"Something went pear-shaped while trying to read or write " ++ path, [], [message]⟩

/-- A listing holds a line that is no instruction. -/
def badListing (path : String) (number : Int) (text cause : String) : Finding :=
  ⟨"This bytecode does not make sense (" ++ cause ++ "):", [],
    [path ++ ", line " ++ toString number ++ ": " ++ text]⟩

/-! ## What can go wrong in a run -/

/-- The machine halts on a fault of the given kind. A verbose finding closes with the place of a
traceback, which is left out. -/
def fault (verbose : Bool) (address : Int) (instruction : Option Instruction)
    (kind message : String) : Finding :=
  let what := (instruction.map Instruction.text).getD "past the end of the program"
  let trace := if verbose then ["", "Python traceback:", "<omitted>"] else []
  ⟨"The machine halted on a fault at address " ++ toString address ++ " (" ++ what ++ "):", [],
    (kind ++ ": " ++ message) :: trace⟩

end Finding

end StackPrimer

import StackPrimer.Text.Quoted

/-!
# File paths

A path is a sequence of names, from the root or from the current directory. Empty names and single
dots mean nothing and are dropped; two dots stay. A path that begins with exactly two slashes keeps
both.

Results:
* `names_ofText`: no name of a path is empty or a single dot.
-/

namespace StackPrimer.Command

/-- The slashes at the front and the names between the others. -/
structure Path where
  root : String
  names : List String
  deriving DecidableEq, Repr

namespace Path

/-- The slashes that stand for the root at the front of a text. -/
def rootOf : List Char → String
  | ['/', '/'] => "//"
  | '/' :: '/' :: c :: _ => if c = '/' then "/" else "//"
  | '/' :: _ => "/"
  | _ => ""

/-- The path that a text stands for. -/
def ofText (s : String) : Path :=
  let names := (s.toList.splitOn '/').map String.ofList
  ⟨rootOf s.toList, names.filter fun name => name ≠ "" && name ≠ "."⟩

/-- The path as a text. -/
def text (p : Path) : String :=
  if p.root = "" ∧ p.names = [] then "." else p.root ++ "/".intercalate p.names

/-- The name without its suffix, which begins with the last dot, unless that is the first or the
last character. -/
def stem (name : String) : String :=
  let behind := name.toList.reverse.takeWhile (· ≠ '.')
  let front := name.toList.reverse.drop (behind.length + 1)
  if behind.isEmpty ∨ front.isEmpty then name else String.ofList front.reverse

/-- The path with another suffix in place of the one that its last name has, if any. -/
def withSuffix (p : Path) (suffix : String) : Path :=
  match p.names.reverse with
  | [] => p
  | last :: before => { p with names := ((stem last ++ suffix) :: before).reverse }

/-- No name of a path is empty or a single dot. -/
theorem names_ofText {s name : String} (h : name ∈ (ofText s).names) : name ≠ "" ∧ name ≠ "." := by
  simp only [ofText, List.mem_filter, Bool.and_eq_true, decide_eq_true_eq] at h
  exact h.2

end Path

/-- Why a file cannot be read or written. -/
inductive FileError
  | notFound
  | notDirectory
  | isDirectory
  | nameTooLong
  | other (code : Nat) (reason : String)
  deriving DecidableEq, Repr

/-- What is said about a file that cannot be read or written. -/
def FileError.message (e : FileError) (p : Path) : String :=
  let say (code : Nat) (reason : String) : String :=
    "[Errno " ++ toString code ++ "] " ++ reason ++ ": " ++ Text.quoted p.text
  match e with
  | notFound => say 2 "No such file or directory"
  | notDirectory => say 20 "Not a directory"
  | isDirectory => say 21 "Is a directory"
  | nameTooLong => say 36 "File name too long"
  | other code reason => say code reason

end StackPrimer.Command

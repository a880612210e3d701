import StackPrimer.Command.HelpText
import StackPrimer.Command.Options
import StackPrimer.Command.Path
import StackPrimer.Compilation.SourceText
import StackPrimer.Machine.Run
import StackPrimer.Text.Utf8

/-!
# What the command does

The command compiles a source file, writes the listing of the program into a file, and runs the
program that it reads back from there. It can also stop after writing, print a listing with addresses
and write nothing, or run a listing that is there already. Files are reached through an interface,
so that the work is the same on a disk and on a store of files kept as a value.

Results:
* `verdict_status`: the exit status tells whether anything was filed.
-/

namespace StackPrimer.Command

/-- How files are read and written. -/
structure Files (m : Type → Type) where
  read : Path → m (Except FileError (List UInt8))
  write : Path → String → m (Except FileError Unit)

/-- What is left of the work: the exit status, what was printed, and the journal. -/
structure Verdict where
  status : Nat
  printed : String
  journal : Journal
  deriving DecidableEq

/-- The end of the work: all findings are said, and any finding is a failure. -/
def verdict (printed : String) (j : Journal) : Verdict :=
  ⟨if j.isClean then 0 else 1, printed, j.complain⟩

/-- The exit status tells whether anything was filed. -/
theorem verdict_status (printed : String) (j : Journal) :
    (verdict printed j).status = 0 ↔ j.findings = [] := by
  cases h : j.findings <;> simp [verdict, Journal.isClean, h]

section

variable {m : Type → Type} [Monad m]

/-- The text of a file, with its line breaks written as line feeds, or what is wrong with it. -/
def readText (files : Files m) (p : Path) : m (Except Finding String) := do
  match ← files.read p with
  | .error .notFound => return .error (.noSuchFile p.text)
  | .error e => return .error (.brokenFile p.text (e.message p))
  | .ok bytes =>
    match Text.decode bytes with
    | .error e => return .error (.brokenFile p.text e.message)
    | .ok cs => return .ok (String.ofList (Text.unifyBreaks cs))

/-- Where the listing of a compiled program goes: to the file that is asked for or, without one,
next to the source. -/
def objectPath (o : Options) : Path :=
  match o.output with
  | some s => if s = "" then (Path.ofText o.program).withSuffix ".obj" else Path.ofText s
  | none => (Path.ofText o.program).withSuffix ".obj"

/-- Writes the listing of a program; answers the path if the program is to be run from there. -/
def writeListing (files : Files m) (p : Path) (program : Program) (j : Journal) :
    m (Option Path × Journal) := do
  match ← files.write p program.render with
  | .error e => return (none, j.file (.brokenFile p.text (e.message p)))
  | .ok () => return (some p, j.say 1 ("Wrote " ++ p.text))

/-- Compiles a source file; answers the path of the listing if it was written, and what is
printed. -/
def compileFile (files : Files m) (o : Options) (j : Journal) :
    m (Option Path × String × Journal) := do
  let source := Path.ofText o.program
  match ← readText files source with
  | .error f => return (none, "", j.file f)
  | .ok text =>
    match compile text (some source.text) j with
    | (none, j) => return (none, "", j)
    | (some program, j) =>
      if o.listing then return (none, program.addressed ++ "\n", j)
      let (path, j) ← writeListing files (objectPath o) program j
      return (path, "", j)

/-- Whether the program ever reads input. -/
def readsInput (program : Program) : Bool := program.any fun i => i.mnemonic = .listed .read

/-- Runs the program that a file lists, for at most `bound` instructions. -/
def runFile (files : Files m) (input : m String) (bound : Nat) (p : Path) (j : Journal) :
    m Verdict := do
  match ← readText files p with
  | .error f => return verdict "" (j.file f)
  | .ok text =>
    match Program.read? text with
    | .error e =>
      return verdict "" (j.file (.badListing p.text e.number e.text e.cause.text))
    | .ok program =>
      let text ← if readsInput program then input else pure ""
      let (_, machine, j) := Machine.run bound (.load program text) j
      return verdict machine.output j

/-- Does what the options ask for. -/
def work (files : Files m) (input : m String) (bound : Nat) (o : Options) : m Verdict := do
  let j : Journal := { verbosity := o.verbosity }
  if o.bytecode then runFile files input bound (Path.ofText o.program) j
  else
    match ← compileFile files o j with
    | (none, printed, j) => return verdict printed j
    | (some path, printed, j) =>
      if o.check then return verdict printed j else runFile files input bound path j

/-- What the command leaves behind: the exit status, unless there were no arguments, and what was
printed and said. -/
structure Answer where
  status : Option Nat
  printed : String
  said : String
  deriving DecidableEq

/-- The whole command. -/
def command (files : Files m) (input : m String) (bound : Nat) (arguments : List String) :
    m Answer := do
  if arguments.isEmpty then return ⟨none, introduction, ""⟩
  match Request.ofArguments arguments with
  | .error e => return ⟨some 2, "", complaint e.message⟩
  | .ok .help => return ⟨some 0, help, ""⟩
  | .ok (.options o) =>
    let v ← work files input bound o
    return ⟨some v.status, v.printed, v.journal.console⟩

end

end StackPrimer.Command

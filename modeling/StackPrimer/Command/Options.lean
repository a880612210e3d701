import StackPrimer.Text.DecimalDigit
import StackPrimer.Text.Quoted

/-!
# Command-line options

Options and the name of the program come in any order; what stands behind a double dash is no
option. A long option may be cut short as long as only one begins so, and may have its argument
behind an equals sign. Short options may be written together, and the argument of the last of them
may follow at once. A double dash that is attached to an option as its argument is an empty
argument. A minus sign with a number is no option, nor is a text with a space in it.

All arguments are told apart before any is acted upon; then they are acted upon from left to right
up to the first error or request for help. That the program is missing is said before that there
are arguments which nobody asked for.

Results:
* `Flag.ofShort?_short`, `Flag.matching_long`: an option is found under its own names.
-/

namespace StackPrimer.Command

/-- The options. -/
inductive Flag
  | help
  | output
  | check
  | listing
  | bytecode
  | verbose
  deriving DecidableEq, Repr

namespace Flag

/-- Every option. -/
def all : List Flag := [help, output, check, listing, bytecode, verbose]

/-- The letter of the option. -/
def short : Flag → Char
  | help => 'h'
  | output => 'o'
  | check => 'c'
  | listing => 't'
  | bytecode => 'b'
  | verbose => 'v'

/-- The name of the option. -/
def long : Flag → String
  | help => "--help"
  | output => "--output"
  | check => "--check"
  | listing => "--translate"
  | bytecode => "--bytecode"
  | verbose => "--verbose"

/-- Whether the option takes an argument. -/
def takesArgument (f : Flag) : Bool := f = output

/-- Both names of the option. -/
def shown (f : Flag) : String := String.ofList ['-', f.short] ++ "/" ++ f.long

/-- The option of a letter. -/
def ofShort? (c : Char) : Option Flag := all.find? (·.short = c)

/-- The options whose names begin so. -/
def matching (start : List Char) : List Flag := all.filter fun f => start.isPrefixOf f.long.toList

theorem ofShort?_short (f : Flag) : ofShort? f.short = some f := by
  cases f <;> decide

theorem matching_long (f : Flag) : matching f.long.toList = [f] := by
  cases f <;> decide

end Flag

/-- What is wrong with a command line. -/
inductive UsageError
  | ambiguous (argument : String) (flags : List Flag)
  | argumentExpected (flag : Flag)
  | argumentIgnored (flag : Flag) (argument : String)
  | programMissing
  | unrecognized (arguments : List String)
  deriving DecidableEq, Repr

/-- What is said about it. -/
def UsageError.message : UsageError → String
  | ambiguous argument flags =>
    "ambiguous option: " ++ argument ++ " could match " ++ ", ".intercalate (flags.map Flag.long)
  | argumentExpected flag => "argument " ++ flag.shown ++ ": expected one argument"
  | argumentIgnored flag argument =>
    "argument " ++ flag.shown ++ ": ignored explicit argument " ++ Text.quoted argument
  | programMissing => "the following arguments are required: program"
  | unrecognized arguments => "unrecognized arguments: " ++ " ".intercalate arguments

/-! ## Telling arguments apart -/

/-- An argument of the command line. -/
inductive Argument
  | plain (text : String)
  /-- A double dash, behind which all arguments are plain. -/
  | dashes
  /-- An option, given by its name or by its letter, with text that follows at once. -/
  | option (flag : Flag) (isLong : Bool) (attached : Option (List Char))
  /-- Something that looks like an option and is none. -/
  | unknown (text : String)
  deriving DecidableEq, Repr

namespace Argument

/-- The text without the line feed at its end, if there is one. -/
def dropLineFeed (cs : List Char) : List Char :=
  if cs.getLast? = some '\n' then cs.dropLast else cs

/-- Whether the text, without the minus sign in front, is a number: digits, with a point before the
last of them or none. A line feed at the end makes no difference. -/
def isNumber (cs : List Char) : Bool :=
  let cs := dropLineFeed cs
  let isDigit (c : Char) : Bool := (Text.digitValue? c).isSome
  match cs.dropWhile isDigit with
  | [] => !cs.isEmpty
  | '.' :: fraction => !fraction.isEmpty && fraction.all isDigit
  | _ => false

/-- The text before the first equals sign, and the text behind it if there is one. -/
def splitEquals (cs : List Char) : List Char × Option (List Char) :=
  match cs.dropWhile (· ≠ '=') with
  | [] => (cs, none)
  | _ :: behind => (cs.takeWhile (· ≠ '='), some behind)

/-- What a text that no option fits is. -/
def other (s : String) (behindMinus : List Char) : Argument :=
  if isNumber behindMinus ∨ s.toList.contains ' ' then plain s else unknown s

/-- An argument before any double dash. -/
def ofText (s : String) : Except UsageError Argument :=
  match s.toList with
  | '-' :: '-' :: name =>
    let (start, attached) := splitEquals ('-' :: '-' :: name)
    match Flag.matching start with
    | [flag] => .ok (option flag true attached)
    | [] => .ok (other s ('-' :: name))
    | flags => .error (.ambiguous s flags)
  | '-' :: c :: rest =>
    match Flag.ofShort? c, rest with
    | some flag, [] => .ok (option flag false none)
    | some flag, '=' :: rest => .ok (option flag false (some rest))
    | some flag, rest => .ok (option flag false (some rest))
    | none, _ => .ok (other s (c :: rest))
  | _ => .ok (plain s)

/-- All arguments. -/
def ofTexts : List String → Except UsageError (List Argument)
  | [] => .ok []
  | s :: rest =>
    if s = "--" then .ok (dashes :: rest.map plain)
    else
      match ofText s with
      | .error e => .error e
      | .ok a =>
        match ofTexts rest with
        | .error e => .error e
        | .ok as => .ok (a :: as)

end Argument

/-! ## Acting upon arguments -/

/-- What the command line asks for. -/
structure Options where
  program : String
  output : Option String := none
  check : Bool := false
  listing : Bool := false
  bytecode : Bool := false
  verbosity : Nat := 0
  deriving DecidableEq, Repr

/-- What is known from the arguments so far: the options, of which the program may still be missing,
and the arguments that nobody asked for. -/
structure Gathered where
  program : Option String := none
  options : Options := { program := "" }
  extras : List String := []
  deriving DecidableEq, Repr

namespace Gathered

/-- Notes an option, and its argument if it takes one. -/
def note (g : Gathered) (flag : Flag) (argument : String) : Gathered :=
  match flag with
  | .help => g
  | .output => { g with options := { g.options with output := some argument } }
  | .check => { g with options := { g.options with check := true } }
  | .listing => { g with options := { g.options with listing := true } }
  | .bytecode => { g with options := { g.options with bytecode := true } }
  | .verbose => { g with options := { g.options with verbosity := g.options.verbosity + 1 } }

/-- Notes an argument that nobody asked for. -/
def extra (g : Gathered) (s : String) : Gathered := { g with extras := g.extras ++ [s] }

end Gathered

/-- The options that are written together: those that take no argument, and perhaps a last one that
does, with the argument if that follows at once. -/
structure Cluster where
  flags : List Flag
  last : Option (Flag × Option String)
  deriving DecidableEq, Repr

/-- The argument that is attached to an option. -/
def attachedArgument (cs : List Char) : String := if cs = ['-', '-'] then "" else String.ofList cs

/-- The options written together behind a first one. -/
def Cluster.ofShort (flag : Flag) : List Char → Except UsageError Cluster
  | [] => if flag.takesArgument then .ok ⟨[], some (flag, none)⟩ else .ok ⟨[flag], none⟩
  | c :: cs =>
    if flag.takesArgument then .ok ⟨[], some (flag, some (attachedArgument (c :: cs)))⟩
    else
      match Flag.ofShort? c with
      | none => .error (.argumentIgnored flag (String.ofList (c :: cs)))
      | some next =>
        match ofShort next cs with
        | .error e => .error e
        | .ok cluster => .ok { cluster with flags := flag :: cluster.flags }

/-- The options in one argument. -/
def Cluster.ofOption (flag : Flag) (isLong : Bool) (attached : Option (List Char)) :
    Except UsageError Cluster :=
  match attached with
  | none => ofShort flag []
  | some cs =>
    if flag.takesArgument then .ok ⟨[], some (flag, some (attachedArgument cs))⟩
    else if isLong || cs.isEmpty then .error (.argumentIgnored flag (String.ofList cs))
    else ofShort flag cs

/-- What a command line amounts to. -/
inductive Request
  | help
  | options (o : Options)
  deriving DecidableEq, Repr

/-- What has been gathered in the end. -/
def Gathered.request (g : Gathered) : Except UsageError Request :=
  match g.program, g.extras with
  | none, _ => .error .programMissing
  | some program, [] => .ok (.options { g.options with program })
  | some _, extras => .error (.unrecognized extras)

/-- Acts upon the arguments that are left. -/
def gather (g : Gathered) : List Argument → Except UsageError Request
  | [] => g.request
  | .plain s :: rest =>
    match g.program, rest with
    | some _, rest => gather (g.extra s) rest
    | none, .dashes :: rest => gather { g with program := some s } rest
    | none, rest => gather { g with program := some s } rest
  | .dashes :: rest =>
    match g.program, rest with
    | none, .plain s :: rest => gather { g with program := some s } rest
    | _, rest => gather (g.extra "--") rest
  | .unknown s :: rest => gather (g.extra s) rest
  | .option flag isLong attached :: rest =>
    match Cluster.ofOption flag isLong attached with
    | .error e => .error e
    | .ok cluster =>
      let noted := cluster.flags.foldl (fun g f => g.note f "") g
      let asksHelp := cluster.flags.contains .help
      match cluster.last, rest with
      | none, rest => if asksHelp then .ok .help else gather noted rest
      | some (last, some argument), rest =>
        if asksHelp then .ok .help else gather (noted.note last argument) rest
      | some (last, none), .plain s :: rest =>
        if asksHelp then .ok .help else gather (noted.note last s) rest
      | some (last, none), _ => .error (.argumentExpected last)

/-- What the arguments of the command line ask for. -/
def Request.ofArguments (arguments : List String) : Except UsageError Request :=
  match Argument.ofTexts arguments with
  | .error e => .error e
  | .ok as => gather {} as

end StackPrimer.Command

import StackPrimer.Command.Job

/-!
# A store of files

A file system kept as a value: directories and files with their contents, by the names that lead to
them from the root. It answers as a file system does when files are read and written.

Results:
* `lookup_put`: a node that is put somewhere is found there, and nothing else changes.
-/

namespace StackPrimer.Command

/-- What stands at some place in a store. -/
inductive Node
  | file (bytes : List UInt8)
  | directory
  deriving DecidableEq, Repr

/-- The nodes of a store by their places, and the current directory. A place is given by the names
on the way to it, the last one in front. The root is a directory. -/
structure Store where
  nodes : List (List String × Node) := []
  current : List String := []
  deriving DecidableEq, Repr

namespace Store

/-- What stands at a place. -/
def lookup (s : Store) (place : List String) : Option Node :=
  match place with
  | [] => some .directory
  | place => (s.nodes.find? fun e => e.1 = place).map (·.2)

/-- The store with a node at a place. -/
def put (s : Store) (place : List String) (node : Node) : Store :=
  { s with nodes := (place, node) :: s.nodes.filter fun e => e.1 ≠ place }

/-- A node that is put somewhere is found there, and nothing else changes. -/
theorem lookup_put (s : Store) {place : List String} (h : place ≠ []) (node : Node)
    (other : List String) :
    (s.put place node).lookup other = if other = place then some node else s.lookup other := by
  cases other with
  | nil => simp [lookup, h.symm]
  | cons name names =>
    by_cases ho : name :: names = place
    · subst ho
      simp [lookup, put]
    · have hne : ¬place = name :: names := fun hp => ho hp.symm
      simp only [lookup, put, List.find?_cons, decide_eq_true_eq, hne, ho, if_false, decide_false,
        List.find?_filter]
      congr 2
      funext e
      by_cases he : e.1 = name :: names
      · simp [he, ho]
      · simp [he]

/-- Whether a name is longer than file systems allow. -/
def isTooLong (name : String) : Bool := 255 < name.utf8ByteSize

/-- The place that names lead to from another place; all but the last of them lead through
directories. -/
def walk (s : Store) : (place : List String) → List String → Except FileError (List String)
  | place, [] => .ok place
  | place, name :: names =>
    match s.lookup place with
    | none => .error .notFound
    | some (.file _) => .error .notDirectory
    | some .directory =>
      if name = ".." then walk s place.tail names
      else if isTooLong name then .error .nameTooLong
      else walk s (name :: place) names

/-- The number of bytes from which on a path is too long. -/
def pathLimit : Nat := 4096

/-- The place that a path leads to. -/
def place (s : Store) (p : Path) : Except FileError (List String) :=
  if pathLimit ≤ p.text.utf8ByteSize then .error .nameTooLong
  else s.walk (if p.root = "" then s.current else []) p.names

/-- The bytes of a file. -/
def read (s : Store) (p : Path) : Except FileError (List UInt8) :=
  match s.place p with
  | .error e => .error e
  | .ok place =>
    match s.lookup place with
    | none => .error .notFound
    | some .directory => .error .isDirectory
    | some (.file bytes) => .ok bytes

/-- The store after bytes have been written into a file, which is made if there is none. -/
def write (s : Store) (p : Path) (bytes : List UInt8) : Except FileError Store :=
  match s.place p with
  | .error e => .error e
  | .ok place =>
    match s.lookup place with
    | some .directory => .error .isDirectory
    | _ => .ok (s.put place (.file bytes))

/-- The files of a store. -/
def files : Files (StateM Store) where
  read p := do return (← get).read p
  write p text := do
    match (← get).write p text.toUTF8.toList with
    | .error e => return .error e
    | .ok s =>
      set s
      return .ok ()

/-- The command on a store of files. -/
def command (s : Store) (input : String) (bound : Nat) (arguments : List String) :
    Answer × Store :=
  (Command.command files (pure input) bound arguments).run s

end Store

end StackPrimer.Command

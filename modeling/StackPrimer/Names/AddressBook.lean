import StackPrimer.Names.Entry
import StackPrimer.Names.Layer

/-!
# The address book

The address book hands out the addresses of variables and the entry points of functions. There are
two tiers of variables. Globals are counted through the whole of a program; the locals of a
function are counted from zero and forgotten at its end. Functions do not nest. A local shadows a
global of the same name. Functions have names of their own.

Results:
* `enter_eq_error_iff`, `exit_eq_error_iff`: when a function may begin and end.
-/

namespace StackPrimer

/-- Why the address book refuses a change. -/
inductive BookError
  /-- The name denotes a function already. -/
  | alreadyExists (key : String)
  /-- A function begins inside a function. -/
  | nested
  /-- A function ends that has not begun. -/
  | notInside
  deriving DecidableEq, Repr

/-- What is said about the refusal. -/
def BookError.message : BookError → String
  | alreadyExists key => Text.quoted key
  | nested => "Functions do not nest."
  | notInside => ""

/-- The names known at some point of a program. -/
structure AddressBook where
  /-- The scope in which new variables come to live. -/
  scope : Scope := .global
  globals : Layer Variable := {}
  /-- The variables of the current function; those of the last one stay until the next begins. -/
  locals : Layer Variable := {}
  functions : Layer Function := {}
  /-- The address of the next new global. -/
  nextGlobal : Nat := 0
  /-- The address of the next new local. -/
  nextLocal : Nat := 0

namespace AddressBook

/-- The layer of each scope. -/
def layers (book : AddressBook) : Shelf Scope Variable
  | .global => book.globals
  | .function => book.locals

/-- The variables that can be seen: inside a function its locals atop the globals. -/
def visible (book : AddressBook) : Overlay Scope :=
  match book.scope with
  | .global => .layer .global
  | .function => .atop (.layer .function) (.layer .global)

/-- The address of the next new variable of the current scope. -/
def next (book : AddressBook) : Nat :=
  match book.scope with
  | .global => book.nextGlobal
  | .function => book.nextLocal

/-- The book after one more variable of the current scope. -/
def allocate (book : AddressBook) (m : Mention) : AddressBook :=
  let v : Variable := ⟨m, book.next, book.scope⟩
  match book.scope with
  | .global =>
    { book with globals := book.globals.append m.text v, nextGlobal := book.nextGlobal + 1 }
  | .function =>
    { book with locals := book.locals.append m.text v, nextLocal := book.nextLocal + 1 }

/-- The address of the name in the current scope, which is the next free one if the name is new
there. -/
def addVariable (book : AddressBook) (m : Mention) : Int × AddressBook :=
  match (book.layers book.scope).find? m.text with
  | some v => (v.address, book)
  | none => (book.next, book.allocate m)

/-- The variable that can be seen under the name. -/
def find? (book : AddressBook) (name : String) : Option Variable :=
  book.visible.find? book.layers name

/-- Whether the current scope has a variable of the name. -/
def declares (book : AddressBook) (name : String) : Bool :=
  (book.layers book.scope).contains name

/-- The book with one more function, if the name does not denote one yet. -/
def addFunction (book : AddressBook) (m : Mention) (entry : Int) : Except BookError AddressBook :=
  match book.functions.mount m.text ⟨m, entry⟩ with
  | .ok functions => .ok { book with functions }
  | .error e => .error (.alreadyExists e.key)

/-- The entry address of the function of the name. -/
def entry? (book : AddressBook) (name : String) : Option Int :=
  (book.functions.find? name).map (·.entry)

/-- The book at the beginning of a function. -/
def enter (book : AddressBook) : Except BookError AddressBook :=
  match book.scope with
  | .global => .ok { book with scope := .function, locals := {}, nextLocal := 0 }
  | .function => .error .nested

/-- The book at the end of a function. -/
def exit (book : AddressBook) : Except BookError AddressBook :=
  match book.scope with
  | .global => .error .notInside
  | .function => .ok { book with scope := .global }

theorem enter_eq_error_iff {book : AddressBook} {e : BookError} :
    book.enter = .error e ↔ book.scope = .function ∧ e = .nested := by
  cases h : book.scope <;> simp [enter, h, eq_comm]

theorem exit_eq_error_iff {book : AddressBook} {e : BookError} :
    book.exit = .error e ↔ book.scope = .global ∧ e = .notInside := by
  cases h : book.scope <;> simp [exit, h, eq_comm]

end AddressBook

end StackPrimer

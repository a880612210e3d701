import StackPrimer.Token.Basic

/-!
# Names and what they denote

A name is mentioned in the text of a program, usually by a token. It denotes a variable, which is a
memory cell, or a function, which is an entry point into the code; or something of which no more
is known.
-/

namespace StackPrimer

/-- Where a variable lives: in memory as a whole, or in the frame of the function being called. -/
inductive Scope
  | global
  | function
  deriving DecidableEq, Repr

/-- The word for the scope. -/
def Scope.text : Scope → String
  | global => "global"
  | function => "local"

/-- The scope that the word stands for. -/
def Scope.ofText? (s : String) : Option Scope :=
  if s = "global" then some .global else if s = "local" then some .function else none

/-- A name, with the token that mentions it if there is one. -/
structure Mention where
  text : String
  token : Option Token
  deriving DecidableEq, Repr

namespace Mention

/-- The name that a token mentions. -/
def ofToken (t : Token) : Mention := ⟨t.lexeme, some t⟩

/-- The mention as a message shows it. -/
def shown (m : Mention) : String := "<Name " ++ Text.quoted m.text ++ ">"

end Mention

/-- A memory cell: counted from the start of memory if global, from that of the frame if not. -/
structure Variable where
  mention : Mention
  address : Int
  scope : Scope
  deriving DecidableEq, Repr

/-- A function, whose code begins at the entry address. -/
structure Function where
  mention : Mention
  entry : Int
  deriving DecidableEq, Repr

/-- What a name denotes. -/
inductive Entry
  | plain (mention : Mention)
  | variable (v : Variable)
  | function (f : Function)
  deriving DecidableEq, Repr

/-- The variable as a message shows it. -/
def Variable.shown (v : Variable) : String :=
  "\x7b" ++ v.mention.text ++ ":" ++ v.scope.text ++ "@" ++ toString v.address ++ "\x7d"

namespace Entry

/-- The mention by which the entry was introduced. -/
def mention : Entry → Mention
  | plain m => m
  | .variable v => v.mention
  | function f => f.mention

/-- The address of a variable or the entry point of a function. -/
def address? : Entry → Option Int
  | plain _ => none
  | .variable v => some v.address
  | function f => some f.entry

/-- The entry as a message shows it. -/
def shown : Entry → String
  | plain m => "\x7b" ++ m.text ++ ":Symbol\x7d"
  | .variable v => v.shown
  | function f => "\x7b" ++ f.mention.text ++ ":Function\x7d"

end Entry

end StackPrimer

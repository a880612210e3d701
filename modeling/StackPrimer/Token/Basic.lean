import StackPrimer.Text.Quoted

/-!
# Tokens

A token is a stretch of source text with a kind, the line it starts on and the positions where it
starts and stops. Every stream of tokens that comes from a text ends with the one token of the kind
`finish`, which is empty.

Results:
* `Keyword.ofWord?_word`, `Sign.ofText?_text`: a spelling is read back.
-/

namespace StackPrimer

/-- The reserved words. -/
inductive Keyword
  | defWord
  | ifWord
  | elseWord
  | whileWord
  | printWord
  | inputWord
  deriving DecidableEq, Repr

namespace Keyword

/-- Every reserved word. -/
def all : List Keyword := [defWord, ifWord, elseWord, whileWord, printWord, inputWord]

/-- The reserved word as it is written. -/
def word : Keyword → String
  | defWord => "def"
  | ifWord => "if"
  | elseWord => "else"
  | whileWord => "while"
  | printWord => "print"
  | inputWord => "input"

/-- The reserved word in capitals, which names the kind of its tokens. -/
def spelling : Keyword → String
  | defWord => "DEF"
  | ifWord => "IF"
  | elseWord => "ELSE"
  | whileWord => "WHILE"
  | printWord => "PRINT"
  | inputWord => "INPUT"

/-- The reserved word that is written so. -/
def ofWord? (s : String) : Option Keyword := all.find? (·.word = s)

theorem ofWord?_word (k : Keyword) : ofWord? k.word = some k := by
  cases k <;> decide

end Keyword

/-- The operators and delimiters. -/
inductive Sign
  | plus
  | minus
  | times
  | divide
  | opening
  | closing
  | colon
  | comma
  | assign
  | less
  | greater
  | atMost
  | atLeast
  | equal
  | notEqual
  deriving DecidableEq, Repr

namespace Sign

/-- Every operator and delimiter. -/
def all : List Sign :=
  [plus, minus, times, divide, opening, closing, colon, comma, assign, less, greater, atMost, atLeast,
    equal, notEqual]

/-- The operator or delimiter as it is written. -/
def text : Sign → String
  | plus => "+"
  | minus => "-"
  | times => "*"
  | divide => "/"
  | opening => "("
  | closing => ")"
  | colon => ":"
  | comma => ","
  | assign => "="
  | less => "<"
  | greater => ">"
  | atMost => "<="
  | atLeast => ">="
  | equal => "=="
  | notEqual => "!="

/-- The operator or delimiter that is written so. -/
def ofText? (s : String) : Option Sign := all.find? (·.text = s)

theorem ofText?_text (s : Sign) : ofText? s.text = some s := by
  cases s <;> decide

end Sign

/-- What a token is. A stream that does not come from a text may also hold tokens of a kind that
the language does not have, under any name. -/
inductive Kind
  | name
  | number
  | indent
  | unknown
  | finish
  | word (keyword : Keyword)
  | sign (sign : Sign)
  | foreign (spelling : String)
  deriving DecidableEq, Repr

namespace Kind

/-- The name of the kind. -/
def spelling : Kind → String
  | name => "name"
  | number => "number"
  | indent => "indent"
  | unknown => "unknown"
  | finish => "<END>"
  | word k => k.spelling
  | sign s => s.text
  | foreign spelling => spelling

/-- The kinds that the language has. -/
def all : List Kind :=
  [name, number, indent, unknown, finish] ++ Keyword.all.map word ++ Sign.all.map sign

/-- The kind of that name. -/
def ofSpelling (s : String) : Kind := (all.find? (·.spelling = s)).getD (foreign s)

/-- Whether a statement can begin with a token of this kind. -/
def startsStatement : Kind → Bool
  | name => true
  | word .printWord => true
  | word .ifWord => true
  | word .whileWord => true
  | _ => false

end Kind

/-- A stretch of text with its kind; it begins on `line`, at position `start`, and ends before
position `stop`. -/
structure Token where
  kind : Kind
  lexeme : String
  line : Int
  start : Nat
  stop : Nat
  deriving DecidableEq, Repr

/-- How a message names the token: by its lexeme in quotes, if it has one that can be seen. -/
def Token.shown (t : Token) : String :=
  match t.kind with
  | .finish => "the end of the program"
  | .indent => "an indentation"
  | _ => Text.quoted t.lexeme

end StackPrimer

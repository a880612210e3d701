import StackPrimer.Token.Basic

/-!
# Pieces of text

A text is cut into pieces from left to right. Each piece is the longest start of the remaining text
that is a token or a gap, and holds at least one character.

* A tab, or a run of two spaces or more, is an indentation; a single space or line break is a gap.
* Three quotes open a comment. It ends with the next run of three quotes or more, of which it takes
  five at most; if there is no such run, the first quote is a token of its own.
* A character that begins nothing else is an unknown token.

Results:
* `first_length_pos`: a piece holds at least one character.
-/

namespace StackPrimer

/-- The first piece of a text: a token of some kind or, without one, a gap. -/
structure Piece where
  kind : Option Kind
  length : Nat
  deriving DecidableEq, Repr

namespace Piece

/-- An ASCII digit. -/
def isDigit (c : Char) : Bool := '0' ≤ c && c ≤ '9'

/-- A character with which a word can begin. -/
def isWordStart (c : Char) : Bool := ('A' ≤ c && c ≤ 'Z') || ('a' ≤ c && c ≤ 'z') || c == '_'

/-- A character with which a word can go on. -/
def isWordPart (c : Char) : Bool := isWordStart c || isDigit c

/-- How many characters at the front of the text satisfy `p`. -/
def runLength (p : Char → Bool) (cs : List Char) : Nat := (cs.takeWhile p).length

/-- Whether three quotes stand at the front. -/
def quotesInFront : List Char → Bool
  | '"' :: '"' :: '"' :: _ => true
  | _ => false

/-- Up to where a comment goes on whose opening quotes are already behind: through the first run of
three quotes or more, five of them at most. -/
def commentEnd? : List Char → Option Nat
  | [] => none
  | c :: cs =>
    if quotesInFront (c :: cs) then some (min 5 (runLength (· == '"') (c :: cs)))
    else (commentEnd? cs).map (· + 1)

/-- The length of the number whose first digit stands before `cs`: digits, then perhaps a point and
more digits. -/
def numberLength (cs : List Char) : Nat :=
  let whole := runLength isDigit cs
  match cs.drop whole with
  | '.' :: fraction => 1 + whole + 1 + runLength isDigit fraction
  | _ => 1 + whole

/-- A sign of one character, or of two if an equals sign follows. -/
def signOrDouble (cs : List Char) (single double : Option Sign) : Piece :=
  match cs with
  | '=' :: _ =>
    match double with
    | some s => ⟨some (.sign s), 2⟩
    | none => ⟨some ((single.map Kind.sign).getD .unknown), 1⟩
  | _ => ⟨some ((single.map Kind.sign).getD .unknown), 1⟩

/-- The piece that a space begins which stands before `cs`. -/
def spaces (cs : List Char) : Piece :=
  match runLength (· == ' ') cs with
  | 0 => ⟨none, 1⟩
  | n + 1 => ⟨some .indent, n + 2⟩

/-- The piece that a quote begins which stands before `cs`: a comment or that quote. -/
def quotes (cs : List Char) : Piece :=
  if quotesInFront ('"' :: cs) then
    match commentEnd? (cs.drop 2) with
    | some n => ⟨none, 3 + n⟩
    | none => ⟨some .unknown, 1⟩
  else ⟨some .unknown, 1⟩

/-- The kind of a word. -/
def wordKind (word : String) : Kind :=
  match Keyword.ofWord? word with
  | some k => .word k
  | none => .name

/-- The first piece of the text that begins with `c` and goes on with `cs`. -/
def first (c : Char) (cs : List Char) : Piece :=
  if isDigit c then ⟨some .number, numberLength cs⟩
  else if isWordStart c then
    let n := runLength isWordPart cs
    ⟨some (wordKind (String.ofList (c :: cs.take n))), 1 + n⟩
  else match c with
  | '\r' => ⟨none, 1⟩
  | '\n' => ⟨none, 1⟩
  | '\t' => ⟨some .indent, 1⟩
  | ' ' => spaces cs
  | '"' => quotes cs
  | '=' => signOrDouble cs (some .assign) (some .equal)
  | '<' => signOrDouble cs (some .less) (some .atMost)
  | '>' => signOrDouble cs (some .greater) (some .atLeast)
  | '!' => signOrDouble cs none (some .notEqual)
  | '+' => ⟨some (.sign .plus), 1⟩
  | '-' => ⟨some (.sign .minus), 1⟩
  | '*' => ⟨some (.sign .times), 1⟩
  | '/' => ⟨some (.sign .divide), 1⟩
  | '(' => ⟨some (.sign .opening), 1⟩
  | ')' => ⟨some (.sign .closing), 1⟩
  | ':' => ⟨some (.sign .colon), 1⟩
  | ',' => ⟨some (.sign .comma), 1⟩
  | _ => ⟨some .unknown, 1⟩

theorem numberLength_pos (cs : List Char) : 0 < numberLength cs := by
  simp only [numberLength]
  split <;> omega

theorem signOrDouble_length_pos (cs : List Char) (single double : Option Sign) :
    0 < (signOrDouble cs single double).length := by
  unfold signOrDouble
  split
  · split <;> simp
  · simp

theorem spaces_length_pos (cs : List Char) : 0 < (spaces cs).length := by
  unfold spaces
  split <;> simp

theorem quotes_length_pos (cs : List Char) : 0 < (quotes cs).length := by
  unfold quotes
  split
  · split
    · exact Nat.add_pos_left (by decide) _
    · exact Nat.one_pos
  · exact Nat.one_pos

/-- A piece holds at least one character. -/
theorem first_length_pos (c : Char) (cs : List Char) : 0 < (first c cs).length := by
  unfold first
  split
  · exact numberLength_pos cs
  · split
    · exact Nat.add_pos_left Nat.one_pos _
    · split <;>
        simp [signOrDouble_length_pos, spaces_length_pos, quotes_length_pos]

end Piece

end StackPrimer

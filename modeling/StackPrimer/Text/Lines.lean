import StackPrimer.Text.Blank

/-!
# Lines of text

Two ways to cut a text into lines. A listing of instructions ends its lines with any of the line and
page separators, which are no part of the lines, and a last line without a separator counts if it
is not empty. A source text ends its lines with a line feed, a carriage return or both, keeps these
with the line, and always has one more line after the last of them.

Results:
* `flatten_sourceLines`: the lines of a source text make up the text.
-/

namespace StackPrimer.Text

/-! ## Lines of a listing -/

/-- The characters that end a line of a listing: line and page breaks, the separators of files,
groups and records, and those of lines and paragraphs. -/
def isLineEnd (c : Char) : Bool :=
  let n := c.toNat
  (0x0A ≤ n && n ≤ 0x0D) || (0x1C ≤ n && n ≤ 0x1E) || n == 0x85 || n == 0x2028 || n == 0x2029

/-- The lines of a listing, the first of them begun by `begun` (last character first). -/
def listingLinesFrom : (begun : List Char) → List Char → List (List Char)
  | [], [] => []
  | c :: begun, [] => [(c :: begun).reverse]
  | begun, '\r' :: '\n' :: cs => begun.reverse :: listingLinesFrom [] cs
  | begun, c :: cs =>
    if isLineEnd c then begun.reverse :: listingLinesFrom [] cs
    else listingLinesFrom (c :: begun) cs

/-- The lines of a listing. -/
def listingLines (cs : List Char) : List (List Char) := listingLinesFrom [] cs

/-! ## Lines of a source text -/

/-- The lines of a source text, the first of them begun by `begun` (last character first). -/
def sourceLinesFrom : (begun : List Char) → List Char → List (List Char)
  | begun, [] => [begun.reverse]
  | begun, '\r' :: '\n' :: cs => ('\n' :: '\r' :: begun).reverse :: sourceLinesFrom [] cs
  | begun, '\r' :: cs => ('\r' :: begun).reverse :: sourceLinesFrom [] cs
  | begun, '\n' :: cs => ('\n' :: begun).reverse :: sourceLinesFrom [] cs
  | begun, c :: cs => sourceLinesFrom (c :: begun) cs

/-- The lines of a source text, each with its line break. -/
def sourceLines (cs : List Char) : List (List Char) := sourceLinesFrom [] cs

theorem flatten_sourceLinesFrom (begun cs : List Char) :
    (sourceLinesFrom begun cs).flatten = begun.reverse ++ cs := by
  fun_induction sourceLinesFrom begun cs with
  | case1 => simp
  | case2 begun cs ih => simp [ih]
  | case3 begun cs _ ih => simp [ih]
  | case4 begun cs ih => simp [ih]
  | case5 begun c cs _ _ _ ih => simp [ih]

/-- The lines of a source text make up the text. -/
theorem flatten_sourceLines (cs : List Char) : (sourceLines cs).flatten = cs := by
  simp [sourceLines, flatten_sourceLinesFrom]

/-- The line that holds the character at `position` and the place of the character in it. A position
past the end counts as one in the last line. -/
def locate : (lines : List (List Char)) → (position : Nat) → List Char × Nat
  | [], position => ([], position)
  | [line], position => (line, position)
  | line :: lines, position =>
    if position < line.length then (line, position) else locate lines (position - line.length)

/-! ## Line breaks of a file -/

/-- The text with every line break written as one line feed. -/
def unifyBreaks : List Char → List Char
  | [] => []
  | '\r' :: '\n' :: cs => '\n' :: unifyBreaks cs
  | '\r' :: cs => '\n' :: unifyBreaks cs
  | c :: cs => c :: unifyBreaks cs

end StackPrimer.Text

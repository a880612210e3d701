/-!
# Blanks and words

The blank characters are those that Unicode calls white space, together with the four information
separators U+001C to U+001F. A text is a sequence of words with blanks between them; the words
are all that reading a line of code or a line of input depends on.

Results:
* `words_blank_cons`: a blank in front changes no word.
* `words_append_blank`: the words on either side of a blank are the words of the two sides.
-/

namespace StackPrimer.Text

/-- White space of any kind, the information separators included. -/
def isBlank (c : Char) : Bool :=
  let n := c.toNat
  (0x09 ≤ n && n ≤ 0x0D) || (0x1C ≤ n && n ≤ 0x20) || n == 0x85 || n == 0xA0 || n == 0x1680 ||
    (0x2000 ≤ n && n ≤ 0x200A) || n == 0x2028 || n == 0x2029 || n == 0x202F || n == 0x205F ||
    n == 0x3000

/-- The text without the blanks at its end. -/
def dropBlankEnd (cs : List Char) : List Char :=
  (cs.reverse.dropWhile isBlank).reverse

/-- The longest runs of characters that are not blank, from left to right. -/
def words (cs : List Char) : List (List Char) :=
  (cs.splitOnP isBlank).filter (!·.isEmpty)

@[simp] theorem words_nil : words [] = [] := by simp [words, List.splitOnP_nil]

/-- A blank in front changes no word. -/
theorem words_blank_cons {c : Char} (h : isBlank c = true) (cs : List Char) :
    words (c :: cs) = words cs := by
  simp [words, List.splitOnP_cons_eq_if_modifyHead, h]

/-- The words on either side of a blank are the words of the two sides. -/
theorem words_append_blank {c : Char} (h : isBlank c = true) (cs ds : List Char) :
    words (cs ++ c :: ds) = words cs ++ words ds := by
  simp [words, List.splitOnP_append_cons _ _ h]

end StackPrimer.Text

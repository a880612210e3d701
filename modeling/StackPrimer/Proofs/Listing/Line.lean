import StackPrimer.Code.Listing

/-!
# Lines and words of a listing

A word is a run of characters that are not blank, and each of them is one again when it is read. What ends
a line is a blank, so no word holds the end of a line.

Results:
* `words_eq_singleton`, `words_pair`: words come back from a line, alone or with one blank between two.
* `isWord_of_mem_words`: what is read as a word is one.
* `listingLines_flatMap`: lines come back from a text in which a line feed ends each of them.
-/

namespace StackPrimer.Text

/-! ## Words -/

/-- At least one character, and no blank. -/
def IsWord (cs : List Char) : Prop := cs ≠ [] ∧ ∀ c ∈ cs, isBlank c = false

theorem words_eq_singleton {w : List Char} (h : IsWord w) : words w = [w] := by
  have hne : w.isEmpty = false := by simpa using h.1
  rw [words, List.splitOnP_eq_singleton h.2]
  simp [hne]

theorem words_pair {v w : List Char} (hv : IsWord v) (hw : IsWord w) :
    words (v ++ ' ' :: w) = [v, w] := by
  rw [words_append_blank (by decide), words_eq_singleton hv, words_eq_singleton hw]
  rfl

/-- What is cut at some characters holds none of them. -/
theorem eq_false_of_mem_splitOnP {p : Char → Bool} {cs w : List Char} (h : w ∈ cs.splitOnP p) :
    ∀ c ∈ w, p c = false := by
  induction cs generalizing w with
  | nil =>
    obtain rfl : w = [] := by simpa using h
    simp
  | cons c cs ih =>
    rw [List.splitOnP_cons_eq_if_modifyHead] at h
    split at h
    · rcases List.mem_cons.mp h with rfl | h
      · simp
      · exact ih h
    · rename_i hc
      obtain ⟨first, rest, hsplit⟩ := List.exists_cons_of_ne_nil (List.splitOnP_ne_nil p cs)
      rw [hsplit, List.modifyHead_cons] at h
      rcases List.mem_cons.mp h with rfl | h
      · exact List.forall_mem_cons.mpr ⟨by simpa using hc, ih (by simp [hsplit])⟩
      · exact ih (by simp [hsplit, h])

/-- What is read as a word is one. -/
theorem isWord_of_mem_words {cs w : List Char} (h : w ∈ words cs) : IsWord w := by
  obtain ⟨hsplit, hne⟩ := List.mem_filter.mp h
  exact ⟨by simpa using hne, eq_false_of_mem_splitOnP hsplit⟩

/-! ## Lines -/

/-- What ends a line is blank. -/
theorem isBlank_of_isLineEnd {c : Char} (h : isLineEnd c = true) : isBlank c = true := by
  simp only [isLineEnd, isBlank, Bool.or_eq_true, Bool.and_eq_true, decide_eq_true_eq,
    beq_iff_eq] at h ⊢
  omega

/-- A line goes on up to the line feed that ends it. -/
theorem listingLinesFrom_append {line : List Char} (h : ∀ c ∈ line, isLineEnd c = false)
    (begun rest : List Char) :
    listingLinesFrom begun (line ++ '\n' :: rest) =
      (begun.reverse ++ line) :: listingLinesFrom [] rest := by
  induction line generalizing begun with
  | nil =>
    rw [List.nil_append, List.append_nil, listingLinesFrom.eq_def]
    simp [isLineEnd]
  | cons c line ih =>
    obtain ⟨hc, hline⟩ := List.forall_mem_cons.mp h
    have hreturn : c ≠ '\r' := by
      rintro rfl
      exact absurd hc (by decide)
    rw [List.cons_append, listingLinesFrom.eq_4]
    · rw [hc, if_neg (by decide), ih hline]
      simp
    · intro cs hcs
      exact absurd hcs hreturn

/-- Lines come back from a text in which a line feed ends each of them. -/
theorem listingLines_flatMap {lines : List (List Char)}
    (h : ∀ line ∈ lines, ∀ c ∈ line, isLineEnd c = false) :
    listingLines (lines.flatMap (· ++ ['\n'])) = lines := by
  induction lines with
  | nil => rfl
  | cons line lines ih =>
    obtain ⟨hline, hlines⟩ := List.forall_mem_cons.mp h
    rw [List.flatMap_cons, List.append_assoc, listingLines, List.singleton_append,
      listingLinesFrom_append hline, List.reverse_nil, List.nil_append]
    exact congrArg (line :: ·) (ih hlines)

end StackPrimer.Text

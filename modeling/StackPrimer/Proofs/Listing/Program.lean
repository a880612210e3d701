import StackPrimer.Proofs.Listing.Line
import StackPrimer.Proofs.Number.Literal

/-!
# Programs as text

A program can be written if its mnemonics are words and its whole numbers are not too long to be read. Then
its listing has a line of one or two words for each instruction, and is read as the program. What has
been read from any text can be written again.

Results:
* `Program.writable_of_read?`: what is read can be written.
* `Program.read?_render`: what is written is read as it was.
-/

namespace StackPrimer

/-- The operand is read as it is written, if it is a whole number. -/
def Operand.Writable : Operand → Prop
  | int n => Number.readInt? (toString n) = some n
  | float _ => True

/-- The instruction can be written in a listing: its mnemonic is a word, and its operand, if it is a
whole number, is read as it is written. -/
structure Instruction.Writable (i : Instruction) : Prop where
  word : Text.IsWord i.mnemonic.word.toList
  operand : ∀ x, i.operand = some x → x.Writable

/-! ## Reading -/

theorem Operand.writable_of_read? {s : String} {x : Operand} (h : Operand.read? s = some x) :
    x.Writable := by
  unfold Operand.read? at h
  split at h
  · rename_i n hn
    cases h
    rw [Writable, Number.readInt?_toString, if_pos (Number.natAbs_lt_of_readInt? hn)]
  · obtain ⟨y, -, rfl⟩ := Option.map_eq_some_iff.mp h
    exact trivial

/-- The instruction of a line can be written. -/
theorem Instruction.writable_of_read? {number : Nat} {line : List Char} {i : Instruction}
    (h : Instruction.read? number line = .ok (some i)) : i.Writable := by
  have hwords : ∀ word ∈ Text.words line, Text.IsWord (Mnemonic.ofWord (String.ofList word)).word.toList := by
    intro word hword
    rw [Mnemonic.word_ofWord, String.toList_ofList]
    exact Text.isWord_of_mem_words hword
  unfold Instruction.read? at h
  split at h
  · cases h
  · rename_i word heq
    cases h
    exact ⟨hwords word (by simp [heq]), by simp⟩
  · rename_i word operand heq
    split at h
    · rename_i x hx
      cases h
      refine ⟨hwords word (by simp [heq]), ?_⟩
      intro y hy
      obtain rfl : x = y := Option.some.inj hy
      exact Operand.writable_of_read? hx
    · cases h
  · cases h

namespace Program

theorem writable_of_readLines {number : Nat} {lines : List (List Char)} {is : List Instruction}
    (h : readLines number lines = .ok is) : ∀ i ∈ is, i.Writable := by
  induction lines generalizing number is with
  | nil =>
    cases h
    simp
  | cons line lines ih =>
    rw [readLines] at h
    split at h
    · cases h
    · exact ih h
    · rename_i i hi
      split at h
      · cases h
      · rename_i rest hrest
        cases h
        exact List.forall_mem_cons.mpr ⟨Instruction.writable_of_read? hi, ih hrest⟩

/-- What is read can be written. -/
theorem writable_of_read? {text : String} {p : Program} (h : read? text = .ok p) :
    ∀ i ∈ p, i.Writable := by
  unfold read? at h
  cases hlines : readLines 1 (Text.listingLines text.toList) with
  | error e =>
    rw [hlines] at h
    cases h
  | ok is =>
    rw [hlines] at h
    cases h
    intro i hi
    exact writable_of_readLines hlines i (by simpa using hi)

end Program

/-! ## Writing -/

theorem isBlank_of_isPlain {c : Char} (h : Number.IsPlain c) : Text.isBlank c = false := by
  obtain ⟨hlow, hhigh⟩ := h
  unfold Text.isBlank
  simp
  omega

namespace Operand

/-- Every operand is written as one word. -/
theorem isWord_text (x : Operand) : Text.IsWord x.text.toList := by
  cases x with
  | int n =>
    refine ⟨?_, fun c hc => isBlank_of_isPlain (Number.isPlain_of_mem_toString c hc)⟩
    rw [text, Number.toList_toString, Number.withSign]
    split
    · simp
    · exact Nat.toDigits_ne_nil
  | float x =>
    refine ⟨?_, fun c hc => isBlank_of_isPlain (Number.isPlain_of_mem_literal x c hc)⟩
    intro hnil
    have hempty : Number.literal x = "" := String.toList_eq_nil_iff.mp hnil
    have hread := Number.readFloat?_literal x
    have hnone : Number.readFloat? "" = none := by decide +kernel
    rw [hempty, hnone] at hread
    cases hread

/-- An operand is read as it is written, and as a number of the same kind. -/
theorem read?_text {x : Operand} (h : x.Writable) : read? x.text = some x := by
  cases x with
  | int n =>
    have hread : Number.readInt? (toString n) = some n := h
    simp only [read?, text, hread]
  | float x => simp only [read?, text, Number.readInt?_literal, Number.readFloat?_literal, Option.map_some]

end Operand

namespace Instruction

variable {i : Instruction}

/-- The words of an instruction. -/
theorem words_text (h : i.Writable) :
    Text.words i.text.toList = i.mnemonic.word.toList :: i.operand.toList.map (·.text.toList) := by
  unfold text
  split
  · rename_i hnone
    rw [hnone, Text.words_eq_singleton h.word]
    rfl
  · rename_i x hsome
    rw [hsome, String.toList_append, String.toList_append, List.append_assoc]
    exact Text.words_pair h.word x.isWord_text

theorem isLineEnd_of_mem_text (h : i.Writable) : ∀ c ∈ i.text.toList, Text.isLineEnd c = false := by
  have hword : ∀ {cs : List Char}, Text.IsWord cs → ∀ c ∈ cs, Text.isLineEnd c = false := by
    intro cs hcs c hc
    have hblank := hcs.2 c hc
    by_contra hend
    rw [Text.isBlank_of_isLineEnd (by simpa using hend)] at hblank
    cases hblank
  unfold text
  split
  · exact hword h.word
  · rename_i x _
    rw [String.toList_append, String.toList_append, List.append_assoc]
    refine List.forall_mem_append.mpr ⟨hword h.word, ?_⟩
    exact List.forall_mem_cons.mpr ⟨by decide, hword x.isWord_text⟩

/-- An instruction is read as it is written. -/
theorem read?_text (h : i.Writable) (number : Nat) : read? number i.text.toList = .ok (some i) := by
  obtain ⟨mnemonic, operand⟩ := i
  have hwords := words_text h
  unfold read?
  cases operand with
  | none =>
    simp only [Option.toList_none, List.map_nil] at hwords
    simp only [hwords, String.ofList_toList, Mnemonic.ofWord_word]
  | some x =>
    simp only [Option.toList_some, List.map_cons, List.map_nil] at hwords
    simp only [hwords, String.ofList_toList, Mnemonic.ofWord_word, Operand.read?_text (h.operand x rfl)]

end Instruction

namespace Program

theorem toList_render (p : Program) :
    p.render.toList = (p.toList.map (·.text.toList)).flatMap (· ++ ['\n']) := by
  unfold render
  rw [String.toList_join, List.flatMap_map, List.flatMap_map]
  congr 1
  funext i
  exact String.toList_append

theorem readLines_text {is : List Instruction} (h : ∀ i ∈ is, i.Writable) (number : Nat) :
    readLines number (is.map (·.text.toList)) = .ok is := by
  induction is generalizing number with
  | nil => rfl
  | cons i is ih =>
    obtain ⟨hi, his⟩ := List.forall_mem_cons.mp h
    rw [List.map_cons, readLines, Instruction.read?_text hi]
    simp only [ih his]

/-- A program that can be written is read as it is written. -/
theorem read?_render_of_writable {p : Program} (h : ∀ i ∈ p, i.Writable) : read? p.render = .ok p := by
  have h : ∀ i ∈ p.toList, i.Writable := fun i hi => h i (Array.mem_toList_iff.mp hi)
  have hlines : Text.listingLines p.render.toList = p.toList.map (·.text.toList) := by
    rw [toList_render]
    apply Text.listingLines_flatMap
    intro line hline
    obtain ⟨i, hi, rfl⟩ := List.mem_map.mp hline
    exact Instruction.isLineEnd_of_mem_text (h i hi)
  rw [read?, hlines, readLines_text h]
  rfl

/-- Programs are read as they are written. This holds of every program whose mnemonics are words and whose
whole numbers are read as they are written, with any double-precision numbers; and of every program that
has been read from a text, for that is always such a program. -/
theorem read?_render (p : Program) :
    ((∀ i ∈ p, i.Writable) → read? p.render = .ok p) ∧
      ∀ text, read? text = .ok p → (∀ i ∈ p, i.Writable) ∧ read? p.render = .ok p :=
  ⟨read?_render_of_writable,
    fun _ h => ⟨writable_of_read? h, read?_render_of_writable (writable_of_read? h)⟩⟩

/-- A program with an operation that there is not, a zero with a sign, a value that is no number, and a
whole number. -/
def variedProgram : Program :=
  #[⟨.ofWord "soma", none⟩, .of .constant (some (.float (Number.ofRatio true 0 1))),
    .of .constant (some (.float Number.notANumber)), .of .jump (some (.int (-7)))]

/-- The program comes from a text with other line ends, blanks and numerals than its listing has. -/
theorem read?_render_varied :
    (∀ i ∈ variedProgram, i.Writable) ∧ read? variedProgram.render = .ok variedProgram ∧
      read? "\x0bsoma\u2028CRCT\t-0e5 \r\n\n CRCT +NaN\x1dDSVI -0_07" = .ok variedProgram ∧
      variedProgram.render = "soma\nCRCT -0.0\nCRCT nan\nDSVI -7\n" := by
  have hread : read? "\x0bsoma\u2028CRCT\t-0e5 \r\n\n CRCT +NaN\x1dDSVI -0_07" = .ok variedProgram := by
    decide +kernel
  obtain ⟨hwritable, hrender⟩ := (read?_render variedProgram).2 _ hread
  exact ⟨hwritable, (read?_render variedProgram).1 hwritable, hread, by decide +kernel⟩

end Program

end StackPrimer

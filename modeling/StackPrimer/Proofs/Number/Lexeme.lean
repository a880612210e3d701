import Mathlib.Data.List.TakeWhile
import StackPrimer.Proofs.Number.Digit
import StackPrimer.Token.Stream

/-!
# Numbers as they are written

The lexeme of a number is digits, then perhaps a point and more digits. Numbers can be read in many
other forms, but in this one always.

Results:
* `readFloat?_isSome_of_numeral`: what has this form is read as a number.
* `numeral_of_mem_stream`: the number tokens of a text have this form.
-/

namespace StackPrimer

open Piece (isDigit)

/-- Digits, then perhaps a point and more digits. -/
def Numeral (cs : List Char) : Prop :=
  ∃ whole fraction, whole ≠ [] ∧ (∀ c ∈ whole, isDigit c = true) ∧
    (∀ c ∈ fraction, isDigit c = true) ∧ (cs = whole ∨ cs = whole ++ '.' :: fraction)

/-! ## Reading -/

namespace Number

theorem readDecimal?_isSome (negative : Bool) {cs : List Char} (h : Numeral cs) :
    (readDecimal? negative cs).isSome := by
  obtain ⟨whole, fraction, hne, hwhole, hfraction, hcs⟩ := h
  rcases hcs with rfl | rfl
  · have hrun := digitRun_append [] hwhole (by simp)
    rw [List.append_nil] at hrun
    simp [readDecimal?, hrun, hne, exponent?]
  · have hrun := digitRun_append ('.' :: fraction) hwhole (by simp)
    have hrun' := digitRun_append [] hfraction (by simp)
    rw [List.append_nil] at hrun'
    simp [readDecimal?, hrun, hrun', hne, exponent?]

/-- What is written as digits, perhaps with a point and more digits, is a number. -/
theorem readFloat?_isSome_of_numeral {cs : List Char} (h : Numeral cs) :
    (readFloat? (String.ofList cs)).isSome := by
  have hread := readDecimal?_isSome false h
  obtain ⟨whole, fraction, hne, hwhole, hfraction, hcs⟩ := h
  have hplain : ∀ c ∈ cs, IsPlain c := by
    rcases hcs with rfl | rfl
    · exact fun c hc => isPlain_of_isDigit (hwhole c hc)
    · intro c hc
      rcases List.mem_append.mp hc with hc | hc
      · exact isPlain_of_isDigit (hwhole c hc)
      · rcases List.mem_cons.mp hc with rfl | hc
        · decide
        · exact isPlain_of_isDigit (hfraction c hc)
  -- a digit stands in front, so that there is no sign
  have hsigned : signed cs = (false, cs) := by
    obtain ⟨c, whole, rfl⟩ := List.exists_cons_of_ne_nil hne
    have hc := hwhole c (List.mem_cons_self ..)
    rcases hcs with rfl | rfl <;> exact signed_of_isDigit hc _
  unfold readFloat?
  simp only [String.toList_ofList, trimmed_of_isPlain hplain, hsigned]
  split
  · rfl
  · split
    · rfl
    · exact hread

end Number

/-! ## Cutting out of a text -/

namespace Piece

/-- As many characters as satisfy the condition are those at the front that do. -/
theorem take_runLength (p : Char → Bool) (cs : List Char) :
    cs.take (runLength p cs) = cs.takeWhile p :=
  (List.prefix_iff_eq_take.mp (List.takeWhile_prefix p)).symm

/-- The piece that a digit begins is a number in the form of numbers. -/
theorem numeral_of_isDigit {c : Char} (h : isDigit c = true) (cs : List Char) :
    Numeral (c :: cs.take (numberLength cs - 1)) := by
  have hwhole : ∀ d ∈ c :: cs.takeWhile isDigit, isDigit d = true := by
    simpa [h] using fun _ => List.mem_takeWhile_imp
  simp only [numberLength]
  split
  · rename_i fraction hdrop
    refine ⟨_, fraction.takeWhile isDigit, by simp, hwhole, fun _ => List.mem_takeWhile_imp,
      .inr ?_⟩
    have htake : cs.take (runLength isDigit cs + (1 + runLength isDigit fraction)) =
        cs.takeWhile isDigit ++ '.' :: fraction.takeWhile isDigit := by
      rw [List.take_add, take_runLength, hdrop, Nat.add_comm 1, List.take_succ_cons, take_runLength]
    have hlength : 1 + runLength isDigit cs + 1 + runLength isDigit fraction - 1 =
        runLength isDigit cs + (1 + runLength isDigit fraction) := by omega
    rw [hlength, htake, List.cons_append]
  · refine ⟨_, [], by simp, hwhole, by simp, .inl ?_⟩
    rw [Nat.add_sub_cancel_left, take_runLength]

theorem signOrDouble_kind (cs : List Char) (single double : Option Sign) :
    (signOrDouble cs single double).kind ≠ some .number := by
  unfold signOrDouble
  split
  · split
    · simp
    · cases single <;> simp
  · cases single <;> simp

/-- Only a digit begins a number. -/
theorem isDigit_of_first_kind {c : Char} {cs : List Char} (h : (first c cs).kind = some .number) :
    isDigit c = true := by
  by_contra hc
  have hspaces : (spaces cs).kind ≠ some .number := by
    unfold spaces
    split <;> simp
  have hquotes : (quotes cs).kind ≠ some .number := by
    unfold quotes
    split
    · split <;> simp
    · simp
  unfold first at h
  rw [if_neg hc] at h
  split at h
  · simp only [wordKind, Option.some.injEq] at h
    split at h <;> simp at h
  · split at h
    all_goals first
      | exact hspaces h
      | exact hquotes h
      | exact signOrDouble_kind _ _ _ h
      | simp at h

/-- A piece that is a number has the form of numbers. -/
theorem numeral_of_first_kind {c : Char} {cs : List Char} (h : (first c cs).kind = some .number) :
    Numeral (c :: cs.take ((first c cs).length - 1)) := by
  have hc := isDigit_of_first_kind h
  unfold first
  rw [if_pos hc]
  exact numeral_of_isDigit hc cs

end Piece

/-- The number tokens of the rest of a text are in the form of numbers. -/
theorem numeral_of_mem_streamFrom {position line : Nat} {cs : List Char} {t : Token}
    (ht : t ∈ Token.streamFrom position line cs) (hk : t.kind = .number) :
    Numeral t.lexeme.toList := by
  induction position, line, cs using Token.streamFrom.induct with
  | case1 position line =>
    rw [Token.streamFrom, List.mem_singleton] at ht
    simp [ht] at hk
  | case2 position line c cs piece taken hkind ih =>
    rw [Token.streamFrom, hkind] at ht
    exact ih ht
  | case3 position line c cs piece taken kind hkind ih =>
    rw [Token.streamFrom, hkind] at ht
    rcases List.mem_cons.mp ht with rfl | ht
    · obtain rfl : kind = .number := hk
      simpa [taken] using Piece.numeral_of_first_kind hkind
    · exact ih ht

/-- The number tokens of a text are in the form of numbers. -/
theorem numeral_of_mem_stream {text : String} {t : Token} (ht : t ∈ Token.stream text)
    (hk : t.kind = .number) : Numeral t.lexeme.toList :=
  numeral_of_mem_streamFrom ht hk

end StackPrimer

import StackPrimer.Proofs.Scanning.Fragment

/-!
# Line breaks

Of all that the rules match only comments go on across a line break. Any other match that holds one is
that line break, and no match but a comment is made longer or shorter by what stands in the next line.

Results:
* `Rule.of_isBreak_mem`: what a match with a line break can be.
* `longest_of_isBreak`: a line break is cut off by itself.
* `longest_of_kind?`: a token stays one in front of a line break.
-/

namespace StackPrimer

/-- A character that ends a line. -/
def isBreak (c : Char) : Bool := c == '\n' || c == '\r'

/-- A line break stands in comments, and otherwise by itself. -/
theorem Rule.of_isBreak_mem {r : Rule} {cs : List Char} {c : Char} (hc : isBreak c = true)
    (hmem : c ∈ cs) (h : cs ∈ r.language) : r = .comment ∨ r = .blank ∧ cs = [c] := by
  simp only [isBreak, Bool.or_eq_true, beq_iff_eq] at hc
  cases r with
  | comment => exact .inl rfl
  | blank =>
    refine .inr ⟨rfl, ?_⟩
    rcases Rule.mem_blank.mp h with h | h | h <;> rw [h, List.mem_singleton] at hmem <;> rw [h, hmem]
  | indent =>
    rcases Rule.mem_indent.mp h with h | ⟨n, h⟩
    · rw [h, List.mem_singleton] at hmem
      rcases hc with rfl | rfl <;> cases hmem
    · rw [h] at hmem
      obtain rfl := List.eq_of_mem_replicate hmem
      simp at hc
  | number =>
    obtain ⟨whole, fraction, -, hwhole, hfraction, h⟩ := Rule.mem_number.mp h
    have hnumeral : Piece.isDigit c = true ∨ c = '.' := by
      rcases h with h | h
      · exact .inl (hwhole c (h ▸ hmem))
      · rw [h, List.mem_append, List.mem_cons] at hmem
        exact hmem.elim (fun h => .inl (hwhole c h)) fun h => h.symm.imp (hfraction c) id
    rcases hc with rfl | rfl <;> simp [Piece.isDigit] at hnumeral
  | word =>
    obtain ⟨d, ds, hd, hds, h⟩ := Rule.mem_word.mp h
    have hpart : Piece.isWordPart c = true := by
      rw [h] at hmem
      rcases List.mem_cons.mp hmem with rfl | hmem
      · simp [Piece.isWordPart, hd]
      · exact hds c hmem
    rcases hc with rfl | rfl <;> exact absurd hpart (by decide)
  | sign =>
    obtain ⟨s, h⟩ := Rule.mem_sign.mp h
    rw [h] at hmem
    rcases hc with rfl | rfl <;> exact absurd hmem (by cases s <;> decide)
  | unknown =>
    obtain ⟨d, hd, h⟩ := Rule.mem_unknown.mp h
    rw [h, List.mem_singleton] at hmem
    subst hmem
    rcases hc with rfl | rfl <;> exact absurd hd (by decide)

/-- Only a comment goes on behind a line break. -/
theorem eq_comment_of_isBreak {r : Rule} {front behind : List Char} {c : Char}
    (hc : isBreak c = true) (hbehind : behind ≠ []) (h : front ++ c :: behind ∈ r.language) :
    r = .comment := by
  refine (Rule.of_isBreak_mem hc (by simp) h).resolve_right fun ⟨_, hone⟩ => ?_
  have hlength := congrArg List.length hone
  have hpos := List.length_pos_of_ne_nil hbehind
  simp only [List.length_append, List.length_cons, List.length_nil] at hlength
  omega

/-- It begins with a quote in front of the line break. -/
theorem quote_mem_of_isBreak {r : Rule} {front behind : List Char} {c : Char}
    (hc : isBreak c = true) (hbehind : behind ≠ []) (h : front ++ c :: behind ∈ r.language) :
    '"' ∈ front := by
  obtain rfl := eq_comment_of_isBreak hc hbehind h
  obtain ⟨body, -, n, -, heq⟩ := Rule.mem_comment.mp h
  cases front with
  | nil =>
    obtain ⟨rfl, -⟩ := List.cons.inj heq
    cases hc
  | cons d front =>
    obtain ⟨rfl, -⟩ := List.cons.inj heq
    exact List.mem_cons_self ..

variable {r : Rule} {cs rest : List Char} {c : Char} {k : Kind}

/-- A line break is a gap by itself, whatever stands behind it. -/
theorem longest_of_isBreak (hc : isBreak c = true) (rest : List Char) :
    Longest .blank [c] (c :: rest) where
  mem := by
    simp only [isBreak, Bool.or_eq_true, beq_iff_eq] at hc
    exact Rule.mem_blank.mpr (by simp [hc.symm])
  front := ⟨rest, rfl⟩
  longest r' other hmem hfront := by
    obtain ⟨d, ds, rfl, hrule⟩ := Rule.exists_beginningWith hmem
    obtain ⟨rfl, -⟩ := List.cons_prefix_cons.mp hfront
    obtain rfl | ⟨-, hone⟩ := Rule.of_isBreak_mem hc (List.mem_cons_self ..) hmem
    · simp only [isBreak, Bool.or_eq_true, beq_iff_eq] at hc
      rcases hc with rfl | rfl <;> cases hrule
    · rw [hone]

/-- What is a token holds no line feed. -/
theorem Rule.notMem_of_kind? (h : cs ∈ r.language) (hk : r.kind? cs = some k) : '\n' ∉ cs := by
  intro hmem
  obtain rfl | ⟨rfl, -⟩ := Rule.of_isBreak_mem rfl hmem h <;> cases hk

/-- What is a token stays the longest match if a line break or nothing stands behind it. -/
theorem longest_of_kind? (h : cs ∈ r.language) (hk : r.kind? cs = some k)
    (hrest : ∀ c ∈ rest.head?, isBreak c = true) : Longest r cs (cs ++ rest) where
  mem := h
  front := List.prefix_append ..
  longest r' other hmem hfront := by
    by_contra hlong
    obtain ⟨more, rfl⟩ : cs <+: other :=
      List.prefix_of_prefix_length_le (List.prefix_append ..) hfront (by omega)
    have hmore : more <+: rest := (List.prefix_append_right_inj cs).mp hfront
    obtain ⟨c, more, rfl⟩ : ∃ c others, more = c :: others :=
      List.exists_cons_of_ne_nil fun hnil => by simp [hnil] at hlong
    have hc : isBreak c = true := by
      obtain ⟨others, rfl⟩ := hmore
      exact hrest c rfl
    obtain rfl | ⟨-, hone⟩ := Rule.of_isBreak_mem hc (by simp) hmem
    · -- the comment would begin with a quote that is a token, and go on with the line break
      obtain ⟨body, -, n, -, heq⟩ := Rule.mem_comment.mp hmem
      obtain ⟨d, ds, rfl⟩ := List.exists_cons_of_ne_nil (Rule.ne_nil_of_mem h)
      obtain ⟨rfl, htail⟩ := List.cons.inj heq
      have hrule := Rule.eq_of_quote_mem h
      cases ds with
      | nil =>
        obtain ⟨rfl, -⟩ := List.cons.inj htail
        cases hc
      | cons e ds =>
        obtain rfl : r = .comment := hrule
        cases hk
    · have hlength := congrArg List.length hone
      have hpos := List.length_pos_of_ne_nil (Rule.ne_nil_of_mem h)
      simp only [List.length_append, List.length_cons, List.length_nil] at hlength
      omega

end StackPrimer

import StackPrimer.Proofs.Scanning.Rule

/-!
# The first piece of a text is its longest match

Pieces are cut by looking at the first character and then as far ahead as that character calls for.
That this finds what the rules describe has two halves: the piece is a match of a rule, and no rule
has a longer one.

Results:
* `Piece.longest_first`: the first piece of a text is the longest match of any rule.
* `Longest.of_first`: whatever is the longest match of a text is its first piece.
-/

namespace StackPrimer

namespace Piece

open Rule (IsGroup commentBody isStray)

/-! ## Comments -/

theorem quotesInFront_iff {cs : List Char} :
    quotesInFront cs = true ↔ List.replicate 3 '"' <+: cs := by
  constructor
  · intro h
    unfold quotesInFront at h
    split at h
    · exact ⟨_, rfl⟩
    · cases h
  · rintro ⟨rest, rfl⟩
    rfl

/-- A comment goes on through every group of its body. -/
theorem commentEnd?_group {g : List Char} (hg : IsGroup g) (cs : List Char) :
    commentEnd? (g ++ cs) = (commentEnd? cs).map (· + g.length) := by
  obtain ⟨n, c, hn, hc, rfl⟩ := hg
  obtain rfl | rfl | rfl : n = 0 ∨ n = 1 ∨ n = 2 := by omega
  all_goals
    simp [List.replicate_succ, commentEnd?, quotesInFront, hc, Function.comp_def]

theorem commentEnd?_body {body : List Char} (hbody : body ∈ commentBody) (cs : List Char) :
    commentEnd? (body ++ cs) = (commentEnd? cs).map (· + body.length) := by
  obtain ⟨groups, rfl, hgroups⟩ := Rule.mem_commentBody.mp hbody
  clear hbody
  induction groups with
  | nil => simp
  | cons g groups ih =>
    obtain ⟨hg, hgroups⟩ := List.forall_mem_cons.mp hgroups
    rw [List.flatten_cons, List.append_assoc, commentEnd?_group hg, ih hgroups, Option.map_map]
    simp [Function.comp_def, Nat.add_comm, Nat.add_left_comm]

/-- A comment takes what it can of the quotes that end it. -/
theorem commentEnd?_quotes {n : Nat} {cs : List Char} (h : List.replicate (n + 3) '"' <+: cs) :
    ∃ m, commentEnd? cs = some m ∧ min 5 (n + 3) ≤ m := by
  obtain ⟨rest, rfl⟩ := h
  refine ⟨min 5 (runLength (· == '"') (List.replicate (n + 3) '"' ++ rest)), ?_, ?_⟩
  · have hfront : quotesInFront (List.replicate (n + 3) '"' ++ rest) = true := rfl
    simp only [List.replicate_succ, List.cons_append] at hfront ⊢
    rw [commentEnd?, if_pos hfront]
  · have hrun : n + 3 ≤ runLength (· == '"') (List.replicate (n + 3) '"' ++ rest) := by
      rw [runLength, List.takeWhile_append_of_pos fun c hc => by simp [List.eq_of_mem_replicate hc]]
      simp
    omega

/-- Where a comment ends, its body and its last quotes lie behind. -/
theorem exists_body_of_commentEnd? {cs : List Char} {m : Nat} (h : commentEnd? cs = some m) :
    ∃ body ∈ commentBody, ∃ n ≤ 2, body ++ List.replicate (n + 3) '"' <+: cs ∧
      (body ++ List.replicate (n + 3) '"').length = m := by
  induction cs generalizing m with
  | nil => cases h
  | cons c cs ih =>
    rw [commentEnd?] at h
    split at h
    case isTrue hfront =>
      -- the body is over, and the comment takes three to five quotes
      cases h
      set run := runLength (· == '"') (c :: cs) with hrun
      have hquotes : List.replicate run '"' <+: c :: cs := by
        have hall : (c :: cs).takeWhile (· == '"') = List.replicate run '"' :=
          List.eq_replicate_of_mem fun d hd => by simpa using List.mem_takeWhile_imp hd
        exact hall ▸ List.takeWhile_prefix _
      have hthree : 3 ≤ run := by
        obtain ⟨rest, hrest⟩ := quotesInFront_iff.mp hfront
        rw [hrun, ← hrest, runLength, List.takeWhile_append_of_pos fun d hd => by
          simp [List.eq_of_mem_replicate hd]]
        simp
      refine ⟨[], Rule.nil_mem_commentBody, min 5 run - 3, by omega, ?_, by simp; omega⟩
      refine List.IsPrefix.trans ?_ hquotes
      rw [List.nil_append, List.prefix_replicate_iff]
      exact ⟨by rw [List.length_replicate]; omega, by rw [List.length_replicate]⟩
    case isFalse hfront =>
      obtain ⟨m, hend, rfl⟩ := Option.map_eq_some_iff.mp h
      obtain ⟨body, hbody, n, hn, hprefix, hlength⟩ := ih hend
      refine ⟨c :: body, ?_, n, hn, List.cons_prefix_cons.mpr ⟨rfl, hprefix⟩, by simp [← hlength]⟩
      by_cases hc : c = '"'
      · -- a quote belongs to the group behind it, which has room for it
        subst hc
        rcases Rule.commentBody_cases hbody with rfl | ⟨g, ds, ⟨k, d, hk, hd, rfl⟩, hds, rfl⟩
        · refine absurd (quotesInFront_iff.mpr ?_) hfront
          refine List.cons_prefix_cons.mpr ⟨rfl, List.IsPrefix.trans ?_ hprefix⟩
          simp [List.replicate_succ]
        · have hroom : k + 1 ≤ 2 := by
            by_contra hlarge
            obtain rfl : k = 2 := by omega
            refine hfront (quotesInFront_iff.mpr (List.cons_prefix_cons.mpr ⟨rfl, ?_⟩))
            exact List.IsPrefix.trans (by simp [List.replicate_succ]) hprefix
          simpa [List.replicate_succ] using
            Rule.group_append_mem_commentBody ⟨k + 1, d, hroom, hd, rfl⟩ hds
      · exact Rule.group_append_mem_commentBody ⟨0, c, by omega, hc, rfl⟩ hbody

/-! ## A piece is a match -/

/-- The first piece of `text` is a match of a rule. -/
def IsMatch (piece : Piece) (text : List Char) : Prop :=
  ∃ r : Rule, ∃ lexeme ∈ r.language, lexeme <+: text ∧ lexeme.length = piece.length ∧
    r.kind? lexeme = piece.kind

theorem numberLength_le (cs : List Char) : numberLength cs ≤ cs.length + 1 := by
  have hrun (ds : List Char) : runLength isDigit ds ≤ ds.length :=
    (List.takeWhile_prefix _).length_le
  simp only [numberLength]
  split
  · rename_i fraction hdrop
    have hlength := congrArg List.length hdrop
    have := hrun fraction
    simp only [List.length_drop, List.length_cons] at hlength
    omega
  · have := hrun cs
    omega

theorem isMatch_number {c : Char} (hc : isDigit c = true) (cs : List Char) :
    IsMatch ⟨some .number, numberLength cs⟩ (c :: cs) := by
  refine ⟨.number, _, Rule.mem_number.mpr (numeral_of_isDigit hc cs),
    List.cons_prefix_cons.mpr ⟨rfl, List.take_prefix ..⟩, ?_, rfl⟩
  have := numberLength_le cs
  have := numberLength_pos cs
  simp only [List.length_cons, List.length_take]
  omega

theorem isMatch_word {c : Char} (hc : isWordStart c = true) (cs : List Char) :
    IsMatch ⟨some (wordKind (String.ofList (c :: cs.take (runLength isWordPart cs)))),
      1 + runLength isWordPart cs⟩ (c :: cs) := by
  rw [take_runLength]
  exact ⟨.word, _, Rule.mem_word.mpr ⟨c, _, hc, fun _ => List.mem_takeWhile_imp, rfl⟩,
    List.cons_prefix_cons.mpr ⟨rfl, List.takeWhile_prefix _⟩, by simp [runLength, Nat.add_comm], rfl⟩

theorem isMatch_spaces (cs : List Char) : IsMatch (spaces cs) (' ' :: cs) := by
  unfold spaces
  split
  · exact ⟨.blank, [' '], Rule.mem_blank.mpr (.inl rfl), ⟨cs, rfl⟩, rfl, rfl⟩
  · rename_i n hrun
    have hall : cs.takeWhile (· == ' ') = List.replicate (n + 1) ' ' := by
      rw [← Nat.succ_eq_add_one, ← hrun]
      exact List.eq_replicate_of_mem fun d hd => by simpa using List.mem_takeWhile_imp hd
    refine ⟨.indent, ' ' :: List.replicate (n + 1) ' ', Rule.mem_indent.mpr (.inr ⟨n, rfl⟩), ?_,
      by simp, rfl⟩
    exact List.cons_prefix_cons.mpr ⟨rfl, hall ▸ List.takeWhile_prefix _⟩

theorem isMatch_stray {c : Char} (hc : isStray c = true) (cs : List Char) :
    IsMatch ⟨some .unknown, 1⟩ (c :: cs) :=
  ⟨.unknown, [c], Rule.mem_unknown.mpr ⟨c, hc, rfl⟩, ⟨cs, rfl⟩, rfl, rfl⟩

theorem isMatch_quotes (cs : List Char) : IsMatch (quotes cs) ('"' :: cs) := by
  unfold quotes
  split
  case isTrue hfront =>
    split
    · rename_i m hend
      obtain ⟨body, hbody, n, hn, hprefix, hlength⟩ := exists_body_of_commentEnd? hend
      obtain ⟨rest, hrest⟩ := quotesInFront_iff.mp hfront
      obtain rfl : '"' :: '"' :: rest = cs := List.cons_injective hrest
      refine ⟨.comment, _, Rule.mem_comment.mpr ⟨body, hbody, n, hn, rfl⟩, ?_, ?_, rfl⟩
      · simpa [List.replicate_succ] using hprefix
      · rw [List.length_append, hlength, List.length_replicate]
    · exact isMatch_stray (by decide) cs
  case isFalse => exact isMatch_stray (by decide) cs

/-- A match of a sign is its text. -/
theorem isMatch_sign (s : Sign) {text : List Char} (h : s.text.toList <+: text) :
    IsMatch ⟨some (.sign s), s.text.toList.length⟩ text := by
  refine ⟨.sign, _, Rule.mem_sign.mpr ⟨s, rfl⟩, h, rfl, ?_⟩
  rw [Rule.kind?, String.ofList_toList, Sign.ofText?_text, Option.map_some]

theorem isMatch_signOrDouble {single double : Sign} {c : Char} (hsingle : single.text.toList = [c])
    (hdouble : double.text.toList = [c, '=']) (cs : List Char) :
    IsMatch (signOrDouble cs (some single) (some double)) (c :: cs) := by
  unfold signOrDouble
  split
  · rename_i rest
    have hfront : double.text.toList <+: c :: '=' :: rest := by simp [hdouble]
    simpa [hdouble] using isMatch_sign double hfront
  · have hfront : single.text.toList <+: c :: cs := by simp [hsingle]
    simpa [hsingle] using isMatch_sign single hfront

theorem isMatch_unequal (cs : List Char) :
    IsMatch (signOrDouble cs none (some .notEqual)) ('!' :: cs) := by
  unfold signOrDouble
  split
  · exact isMatch_sign .notEqual ⟨_, rfl⟩
  · exact isMatch_stray (by decide) cs

theorem isMatch_first (c : Char) (cs : List Char) : IsMatch (first c cs) (c :: cs) := by
  unfold first
  split
  case isTrue hc => exact isMatch_number hc cs
  case isFalse hdigit =>
    split
    case isTrue hc => exact isMatch_word hc cs
    case isFalse hstart =>
      split
      · exact ⟨.blank, _, Rule.mem_blank.mpr (.inr (.inl rfl)), ⟨cs, rfl⟩, rfl, rfl⟩
      · exact ⟨.blank, _, Rule.mem_blank.mpr (.inr (.inr rfl)), ⟨cs, rfl⟩, rfl, rfl⟩
      · exact ⟨.indent, _, Rule.mem_indent.mpr (.inl rfl), ⟨cs, rfl⟩, rfl, rfl⟩
      · exact isMatch_spaces cs
      · exact isMatch_quotes cs
      · exact isMatch_signOrDouble rfl rfl cs
      · exact isMatch_signOrDouble rfl rfl cs
      · exact isMatch_signOrDouble rfl rfl cs
      · exact isMatch_unequal cs
      · exact isMatch_sign .plus ⟨cs, rfl⟩
      · exact isMatch_sign .minus ⟨cs, rfl⟩
      · exact isMatch_sign .times ⟨cs, rfl⟩
      · exact isMatch_sign .divide ⟨cs, rfl⟩
      · exact isMatch_sign .opening ⟨cs, rfl⟩
      · exact isMatch_sign .closing ⟨cs, rfl⟩
      · exact isMatch_sign .colon ⟨cs, rfl⟩
      · exact isMatch_sign .comma ⟨cs, rfl⟩
      · refine isMatch_stray ?_ cs
        simp_all [isStray, isWordPart]

/-! ## No rule has a longer match -/

/-- A run is as long as any start of the text that consists of what it is a run of. -/
theorem length_le_runLength {p : Char → Bool} {lexeme cs : List Char} (h : ∀ c ∈ lexeme, p c = true)
    (hfront : lexeme <+: cs) : lexeme.length ≤ runLength p cs := by
  obtain ⟨rest, rfl⟩ := hfront
  rw [runLength, List.takeWhile_append_of_pos h, List.length_append]
  exact Nat.le_add_right ..

theorem length_le_numberLength {lexeme cs : List Char} {c : Char} (h : Numeral (c :: lexeme))
    (hfront : lexeme <+: cs) : (c :: lexeme).length ≤ numberLength cs := by
  obtain ⟨_ | ⟨d, whole⟩, fraction, hne, hwhole, hfraction, h⟩ := h
  · exact absurd rfl hne
  obtain ⟨-, hdigits⟩ := List.forall_mem_cons.mp hwhole
  obtain ⟨rest, rfl⟩ := hfront
  rcases h with h | h
  · obtain ⟨rfl, rfl⟩ := List.cons.inj h
    have := length_le_runLength hdigits (List.prefix_append lexeme rest)
    simp only [numberLength, List.length_cons]
    split <;> omega
  · obtain ⟨-, rfl⟩ := List.cons.inj h
    have hrun : runLength isDigit (whole ++ '.' :: (fraction ++ rest)) = whole.length := by
      rw [runLength, List.takeWhile_append_of_pos hdigits]
      simp [isDigit]
    have := length_le_runLength hfraction (List.prefix_append fraction rest)
    have htext : whole.append ('.' :: fraction) ++ rest = whole ++ '.' :: (fraction ++ rest) := by
      simp
    rw [htext]
    simp only [numberLength, hrun, List.drop_left, List.length_cons, List.append_eq,
      List.length_append]
    omega

theorem length_le_quotes {lexeme cs : List Char} (h : lexeme ∈ Rule.language .comment)
    (hfront : lexeme <+: '"' :: cs) : lexeme.length ≤ (quotes cs).length := by
  obtain ⟨body, hbody, n, hn, rfl⟩ := Rule.mem_comment.mp h
  obtain ⟨rest, hrest⟩ := hfront
  obtain rfl : '"' :: '"' :: (body ++ List.replicate (n + 3) '"' ++ rest) = cs :=
    List.cons_injective hrest
  obtain ⟨m, hm, hle⟩ := commentEnd?_quotes (List.prefix_append (List.replicate (n + 3) '"') rest)
  have hend := commentEnd?_body hbody (List.replicate (n + 3) '"' ++ rest)
  rw [← List.append_assoc, hm, Option.map_some] at hend
  have hfront : quotesInFront
      ('"' :: '"' :: '"' :: (body ++ List.replicate (n + 3) '"' ++ rest)) = true := rfl
  simp only [quotes, hfront, if_true, List.drop_succ_cons, List.drop_zero, hend,
    List.length_append, List.length_replicate]
  omega

/-- Whatever a rule matches at the front of a text is no longer than the first piece. -/
theorem length_le_first {r : Rule} {lexeme : List Char} {c : Char} {cs : List Char}
    (h : lexeme ∈ r.language) (hfront : lexeme <+: c :: cs) :
    lexeme.length ≤ (first c cs).length := by
  obtain ⟨d, ds, rfl, hrule⟩ := Rule.exists_beginningWith h
  obtain ⟨rfl, hds⟩ := List.cons_prefix_cons.mp hfront
  cases r with
  | blank =>
    have hone : (d :: ds).length = 1 := by
      rcases Rule.mem_blank.mp h with h | h | h <;> simp [h]
    exact hone ▸ first_length_pos d cs
  | comment =>
    obtain ⟨body, hbody, n, hn, hlexeme⟩ := Rule.mem_comment.mp h
    obtain ⟨rfl, -⟩ := List.cons.inj hlexeme
    exact length_le_quotes h hfront
  | indent =>
    rcases Rule.mem_indent.mp h with hlexeme | ⟨n, hlexeme⟩
    · rw [hlexeme]
      exact first_length_pos d cs
    · obtain ⟨rfl, rfl⟩ := List.cons.inj hlexeme
      have := length_le_runLength (p := (· == ' '))
        (fun e he => by simp [List.eq_of_mem_replicate he]) hds
      simp only [List.length_replicate] at this
      have hfirst : first ' ' cs = spaces cs := rfl
      rw [hfirst]
      unfold spaces
      split <;> simp <;> omega
  | number =>
    have hd : isDigit d = true := by
      obtain ⟨_ | ⟨e, whole⟩, fraction, hne, hwhole, -, hlexeme⟩ := Rule.mem_number.mp h
      · exact absurd rfl hne
      · rcases hlexeme with hlexeme | hlexeme <;> obtain ⟨rfl, -⟩ := List.cons.inj hlexeme <;>
          exact hwhole d (List.mem_cons_self ..)
    simp only [first, hd, if_true]
    exact length_le_numberLength (Rule.mem_number.mp h) hds
  | word =>
    obtain ⟨e, es, hstart, hall, hlexeme⟩ := Rule.mem_word.mp h
    obtain ⟨rfl, rfl⟩ := List.cons.inj hlexeme
    have := length_le_runLength hall hds
    simp only [first, Rule.isDigit_of_isWordStart hstart, hstart, if_true, List.length_cons,
      Bool.false_eq_true, if_false]
    omega
  | sign =>
    obtain ⟨s, hlexeme⟩ := Rule.mem_sign.mp h
    cases s
    case atMost | atLeast | equal | notEqual =>
      obtain ⟨rfl, rfl⟩ := List.cons.inj hlexeme
      obtain ⟨rest, rfl⟩ := hds
      exact Nat.le_refl 2
    all_goals
      rw [hlexeme]
      exact first_length_pos d cs
  | unknown =>
    obtain ⟨e, -, hlexeme⟩ := Rule.mem_unknown.mp h
    rw [hlexeme]
    exact first_length_pos d cs

/-- The first piece of a text is the longest match of any rule. -/
theorem longest_first (c : Char) (cs : List Char) :
    ∃ r : Rule, Longest r (c :: cs.take ((first c cs).length - 1)) (c :: cs) ∧
      r.kind? (c :: cs.take ((first c cs).length - 1)) = (first c cs).kind := by
  obtain ⟨r, lexeme, hmem, hfront, hlength, hkind⟩ := isMatch_first c cs
  have hlexeme : lexeme = c :: cs.take ((first c cs).length - 1) := by
    have hpos := first_length_pos c cs
    rw [List.prefix_iff_eq_take.mp hfront, hlength, ← Nat.succ_pred_eq_of_pos hpos,
      List.take_succ_cons]
    rfl
  rw [← hlexeme]
  refine ⟨r, ⟨hmem, hfront, fun r' other hother hprefix => ?_⟩, hkind⟩
  rw [hlength]
  exact length_le_first hother hprefix

end Piece

/-- Whatever is the longest match of a text is its first piece. -/
theorem Longest.of_first {r : Rule} {lexeme : List Char} {c : Char} {cs : List Char}
    (h : Longest r lexeme (c :: cs)) :
    lexeme = c :: cs.take ((Piece.first c cs).length - 1) ∧
      lexeme.length = (Piece.first c cs).length ∧ r.kind? lexeme = (Piece.first c cs).kind := by
  obtain ⟨r', h', hkind⟩ := Piece.longest_first c cs
  obtain ⟨rfl, hlexeme⟩ := h.unique h'
  refine ⟨hlexeme, ?_, hlexeme ▸ hkind⟩
  obtain ⟨_, other, hmem, hfront, hlength, -⟩ := Piece.isMatch_first c cs
  exact Nat.le_antisymm (Piece.length_le_first h.mem h.front)
    (hlength ▸ h.longest _ other hmem hfront)

end StackPrimer

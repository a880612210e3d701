import StackPrimer.Proofs.Scanning.LineBreak

/-!
# Lines of spaces and tabs

A line that holds nothing but spaces and tabs, outside of comments, is cut by itself: what stands
before it is cut the same with and without it, and so is what stands behind it. All that it adds are
indentations, all of them on that line.

Results:
* `BlankLine.of_no_quotes`: where no quote stands in front, every line of spaces and tabs is one.
* `BlankLine.cut_alike`: the text and the text without the line are cut alike.
* `BlankLine.exists_parted`: so their tokens are alike, but for the indentations of the line.
-/

namespace StackPrimer

open Fragment (characters dressed)
open Rule (IsGroup commentBody)

/-- A character of which a blank line consists. -/
def isBlank (c : Char) : Bool := c == ' ' || c == '\t'

/-- Between `before` and `after` stands a line of spaces and tabs, outside of comments. -/
structure BlankLine (before blanks after : List Char) : Prop where
  starts : ∀ c ∈ before.getLast?, isBreak c = true
  blank : ∀ c ∈ blanks, isBlank c = true
  ends : ∀ c ∈ after.head?, isBreak c = true
  /-- No comment goes on past the start of the line. -/
  outside : ∃ fs gs, Cuts (before ++ (blanks ++ after)) (fs ++ gs) ∧ characters fs = before

/-- No comment goes on past the start of a line if no quote stands in front of it. -/
theorem exists_cuts_of_no_quotes {before rest : List Char}
    (hbreak : ∀ c ∈ before.getLast?, isBreak c = true) (hquotes : '"' ∉ before) :
    ∃ fs gs, Cuts (before ++ rest) (fs ++ gs) ∧ characters fs = before := by
  obtain ⟨hs, hcuts⟩ := exists_cuts (before ++ rest)
  generalize hcs : before ++ rest = cs at hcuts ⊢
  induction hcuts generalizing before with
  | nil =>
    obtain ⟨rfl, -⟩ := List.append_eq_nil_iff.mp hcs
    exact ⟨[], [], .nil, rfl⟩
  | @cons r lexeme behind fragments longest cuts ih =>
    rcases List.append_eq_append_iff.mp hcs with ⟨more, rfl, -⟩ | ⟨more, rfl, rfl⟩
    · by_cases hmore : more = []
      · exact ⟨[⟨r, before ++ more⟩], fragments, .cons longest cuts, by simp [hmore]⟩
      rcases List.eq_nil_or_concat' before with rfl | ⟨start, c, rfl⟩
      · exact ⟨[], _, .cons longest cuts, rfl⟩
      · -- only a comment goes on past the line break, and it would begin with a quote
        have hmem := longest.mem
        rw [List.append_assoc] at hmem
        have hquote : '"' ∈ start := quote_mem_of_isBreak (hbreak c (by simp)) hmore hmem
        exact absurd (List.mem_append_left _ hquote) hquotes
    · have hbreak' : ∀ c ∈ more.getLast?, isBreak c = true :=
        fun c hc => hbreak c (by simp [Option.mem_def.mp hc])
      have hquotes' : '"' ∉ more := fun hmem => hquotes (List.mem_append_right _ hmem)
      obtain ⟨fs, gs, hfs, hchars⟩ := ih hbreak' hquotes' rfl
      exact ⟨⟨r, lexeme⟩ :: fs, gs, .cons longest hfs, by rw [Fragment.characters_cons, hchars]⟩

/-- Then a line of spaces and tabs is a blank line. -/
theorem BlankLine.of_no_quotes {before blanks after : List Char}
    (hstarts : ∀ c ∈ before.getLast?, isBreak c = true) (hblank : ∀ c ∈ blanks, isBlank c = true)
    (hends : ∀ c ∈ after.head?, isBreak c = true) (hquotes : '"' ∉ before) :
    BlankLine before blanks after :=
  ⟨hstarts, hblank, hends, exists_cuts_of_no_quotes hstarts hquotes⟩

/-! ## Comments across a line break -/

/-- Where a member stands that the first of two lists does not hold. -/
theorem exists_of_append_eq_append_cons {α : Type} {xs ys front behind : List α} {a : α}
    (h : xs ++ ys = front ++ a :: behind) (ha : a ∉ xs) :
    ∃ middle, front = xs ++ middle ∧ ys = middle ++ a :: behind := by
  rcases List.append_eq_append_iff.mp h with ⟨rest, rfl, hrest⟩ | ⟨rest, rfl, hrest⟩
  · exact ⟨rest, rfl, hrest⟩
  · cases rest with
    | nil => exact ⟨[], by simp, by simpa using hrest.symm⟩
    | cons b middle =>
      obtain ⟨rfl, -⟩ := List.cons.inj hrest
      exact absurd (by simp) ha

theorem append_mem_commentBody {cs ds : List Char} (hcs : cs ∈ commentBody)
    (hds : ds ∈ commentBody) : cs ++ ds ∈ commentBody := by
  obtain ⟨groups, rfl, hgroups⟩ := Rule.mem_commentBody.mp hcs
  obtain ⟨others, rfl, hothers⟩ := Rule.mem_commentBody.mp hds
  refine Rule.mem_commentBody.mpr ⟨groups ++ others, by simp, fun g hg => ?_⟩
  exact (List.mem_append.mp hg).elim (hgroups g) (hothers g)

/-- A body can be divided behind whatever is not a quote. -/
theorem mem_commentBody_of_append {front behind : List Char} {c : Char} (hc : c ≠ '"')
    (h : front ++ c :: behind ∈ commentBody) :
    front ++ [c] ∈ commentBody ∧ behind ∈ commentBody := by
  obtain ⟨groups, heq, hgroups⟩ := Rule.mem_commentBody.mp h
  clear h
  induction groups generalizing front with
  | nil => simp at heq
  | cons g groups ih =>
    obtain ⟨⟨n, d, hn, hd, rfl⟩, hothers⟩ := List.forall_mem_cons.mp hgroups
    rw [List.flatten_cons, List.append_assoc] at heq
    obtain ⟨middle, rfl, hmiddle⟩ := exists_of_append_eq_append_cons heq.symm fun hmem =>
      hc (List.eq_of_mem_replicate hmem)
    cases middle with
    | nil =>
      -- the character ends the first group
      obtain ⟨rfl, rfl⟩ := List.cons.inj hmiddle
      exact ⟨by simpa using
        Rule.group_append_mem_commentBody ⟨n, d, hn, hd, rfl⟩ Rule.nil_mem_commentBody,
        Rule.mem_commentBody.mpr ⟨groups, rfl, hothers⟩⟩
    | cons e middle =>
      obtain ⟨rfl, hflatten⟩ := List.cons.inj hmiddle
      obtain ⟨hfront, hbehind⟩ := ih hflatten.symm hothers
      have hgroup : IsGroup (List.replicate n '"' ++ [d]) := ⟨n, d, hn, hd, rfl⟩
      exact ⟨by simpa using Rule.group_append_mem_commentBody hgroup hfront, hbehind⟩

/-- What holds no quotes is a body. -/
theorem mem_commentBody_of_forall_ne {cs : List Char} (h : ∀ c ∈ cs, c ≠ '"') :
    cs ∈ commentBody := by
  refine Rule.mem_commentBody.mpr ⟨cs.map ([·]), by simp [← List.flatMap_def], fun g hg => ?_⟩
  obtain ⟨c, hc, rfl⟩ := List.mem_map.mp hg
  exact ⟨0, c, by omega, h c hc, rfl⟩

/-- A comment stays one if anything but quotes is written behind something other than a quote. -/
theorem insert_mem_comment {front behind cs : List Char} {c : Char} (hc : c ≠ '"')
    (hcs : ∀ d ∈ cs, d ≠ '"') (h : front ++ c :: behind ∈ Rule.language .comment) :
    front ++ c :: (cs ++ behind) ∈ Rule.language .comment := by
  obtain ⟨body, hbody, n, hn, heq⟩ := Rule.mem_comment.mp h
  have hquotes (m : Nat) : c ∉ List.replicate m '"' := fun hmem => hc (List.eq_of_mem_replicate hmem)
  obtain ⟨start, rfl, hstart⟩ := exists_of_append_eq_append_cons heq.symm (hquotes 3)
  obtain ⟨rest, rfl, rfl⟩ : ∃ rest, body = start ++ c :: rest ∧
      behind = rest ++ List.replicate (n + 3) '"' := by
    rcases List.append_eq_append_iff.mp hstart with ⟨rest, -, hrest⟩ | ⟨rest, rfl, hrest⟩
    · exact absurd (hrest ▸ by simp) (hquotes (n + 3))
    · cases rest with
      | nil =>
        rw [List.nil_append] at hrest
        exact absurd (hrest ▸ List.mem_cons_self ..) (hquotes (n + 3))
      | cons d rest =>
        obtain ⟨rfl, rfl⟩ := List.cons.inj hrest
        exact ⟨rest, rfl, rfl⟩
  obtain ⟨hstart, hrest⟩ := mem_commentBody_of_append hc hbody
  have hbody' : start ++ c :: (cs ++ rest) ∈ commentBody := by
    simpa using append_mem_commentBody hstart
      (append_mem_commentBody (mem_commentBody_of_forall_ne hcs) hrest)
  exact Rule.mem_comment.mpr ⟨_, hbody', n, hn, by simp⟩

/-! ## Cutting with and without the line -/

/-- What is the longest match in front of a blank line stays so without the line. -/
theorem Longest.without_blanks {r : Rule} {lexeme rest blanks after : List Char}
    (hbreak : ∀ c ∈ (lexeme ++ rest).getLast?, isBreak c = true)
    (hblank : ∀ c ∈ blanks, isBlank c = true)
    (h : Longest r lexeme (lexeme ++ (rest ++ (blanks ++ after)))) :
    Longest r lexeme (lexeme ++ (rest ++ after)) where
  mem := h.mem
  front := List.prefix_append ..
  longest r' other hmem hfront := by
    rw [← List.append_assoc] at hfront
    by_cases hother : other <+: lexeme ++ rest
    · exact h.longest r' other hmem (by simpa using hother.trans (List.prefix_append ..))
    · -- a match that goes on past the line break is a comment, which would hold the blanks too
      exfalso
      obtain ⟨more, rfl⟩ : lexeme ++ rest <+: other :=
        (List.prefix_or_prefix_of_prefix hfront (List.prefix_append ..)).resolve_left hother
      have hmore : more ≠ [] := by
        rintro rfl
        exact hother (by simp)
      obtain ⟨start, c, hstart⟩ : ∃ start c, lexeme ++ rest = start ++ [c] := by
        refine ⟨_, _, (List.dropLast_append_getLast (l := lexeme ++ rest) ?_).symm⟩
        exact fun h' => Rule.ne_nil_of_mem h.mem (List.append_eq_nil_iff.mp h').1
      have hc : isBreak c = true := hbreak c (by simp [hstart])
      have hmem' : start ++ c :: more ∈ r'.language := by
        simpa [hstart] using hmem
      obtain rfl := eq_comment_of_isBreak hc hmore hmem'
      have hquote : c ≠ '"' := by
        rintro rfl
        cases hc
      have hblank' : ∀ d ∈ blanks, d ≠ '"' := by
        rintro d hd rfl
        cases hblank _ hd
      have hlong := insert_mem_comment hquote hblank' hmem'
      have hprefix : start ++ c :: (blanks ++ more) <+: lexeme ++ (rest ++ (blanks ++ after)) := by
        have hmore : more <+: after := by simpa using hfront
        obtain ⟨others, rfl⟩ := hmore
        refine ⟨others, ?_⟩
        rw [← List.append_assoc lexeme, hstart]
        simp
      have hle := h.longest .comment _ hlong hprefix
      have hlength := congrArg List.length hstart
      have hpos := List.length_pos_of_ne_nil hmore
      simp only [List.length_append, List.length_cons, List.length_nil] at hle hlength
      omega

/-- What stands in front of a blank line is cut the same without it. -/
theorem Cuts.without_blanks {before blanks after : List Char} {fs gs others : List Fragment}
    (hbreak : ∀ c ∈ before.getLast?, isBreak c = true) (hblank : ∀ c ∈ blanks, isBlank c = true)
    (h : Cuts (before ++ (blanks ++ after)) (fs ++ gs)) (hfs : characters fs = before)
    (hafter : Cuts after others) :
    Cuts (blanks ++ after) gs ∧ Cuts (before ++ after) (fs ++ others) := by
  induction fs generalizing before with
  | nil =>
    obtain rfl : [] = before := hfs
    exact ⟨h, hafter⟩
  | cons f fs ih =>
    rw [Fragment.characters_cons] at hfs
    subst hfs
    obtain ⟨rest, hrest, hlongest, hcuts⟩ := h.of_cons
    rw [List.append_assoc] at hrest
    obtain rfl := List.append_cancel_left hrest
    have hbreak' : ∀ c ∈ (characters fs).getLast?, isBreak c = true := by
      intro c hc
      refine hbreak c ?_
      simp only [List.getLast?_append, Option.mem_def] at hc ⊢
      rw [hc, Option.some_or]
    obtain ⟨hblanks, hothers⟩ := ih hbreak' hcuts rfl
    rw [List.append_assoc]
    exact ⟨hblanks, .cons (hlongest.without_blanks hbreak hblank) hothers⟩

/-- A match that begins with a space or tab consists of spaces and tabs. -/
theorem isBlank_of_mem {r : Rule} {lexeme : List Char} {c : Char} (hc : isBlank c = true)
    (hfront : lexeme.head? = some c) (h : lexeme ∈ r.language) :
    (r = .blank ∨ r = .indent) ∧ ∀ d ∈ lexeme, isBlank d = true := by
  obtain ⟨_, ds, rfl, hrule⟩ := Rule.exists_beginningWith h
  obtain rfl := Option.some.inj hfront
  simp only [isBlank, Bool.or_eq_true, beq_iff_eq] at hc
  have hr : r = .blank ∨ r = .indent := by
    rw [← hrule]
    rcases hc with rfl | rfl <;> cases ds.isEmpty <;> simp [Rule.beginningWith, Piece.isDigit,
      Piece.isWordStart]
  refine ⟨hr, ?_⟩
  rcases hr with rfl | rfl
  · rcases Rule.mem_blank.mp h with h | h | h <;> rw [h] <;> simp_all [isBlank]
  · rcases Rule.mem_indent.mp h with h | ⟨n, h⟩
    · simp [h, isBlank]
    · intro d hd
      rw [h] at hd
      simp [List.eq_of_mem_replicate hd, isBlank]

/-- A blank line is cut by itself, into indentations and spaces. -/
theorem Cuts.of_blanks {blanks after : List Char} {gs : List Fragment}
    (hblank : ∀ c ∈ blanks, isBlank c = true) (hbreak : ∀ c ∈ after.head?, isBreak c = true)
    (h : Cuts (blanks ++ after) gs) :
    ∃ bs others, gs = bs ++ others ∧ characters bs = blanks ∧ Cuts after others ∧
      ∀ f ∈ bs, f.rule = .blank ∨ f.rule = .indent := by
  generalize hcs : blanks ++ after = cs at h
  induction h generalizing blanks with
  | nil =>
    obtain ⟨rfl, rfl⟩ := List.append_eq_nil_iff.mp hcs
    exact ⟨[], [], rfl, rfl, .nil, by simp⟩
  | @cons r lexeme rest fragments longest cuts ih =>
    cases blanks with
    | nil =>
      obtain rfl : after = lexeme ++ rest := hcs
      exact ⟨[], _, rfl, rfl, .cons longest cuts, by simp⟩
    | cons c blanks =>
      have hhead : lexeme.head? = some c := by
        obtain ⟨d, ds, rfl⟩ := List.exists_cons_of_ne_nil (Rule.ne_nil_of_mem longest.mem)
        rw [List.cons_append, List.cons_append] at hcs
        rw [List.head?_cons, (List.cons.inj hcs).1]
      obtain ⟨hrule, hlexeme⟩ :=
        isBlank_of_mem (hblank c (List.mem_cons_self ..)) hhead longest.mem
      -- the match ends where the line does, if not before
      obtain ⟨more, hmore, rfl⟩ : ∃ more, c :: blanks = lexeme ++ more ∧ rest = more ++ after := by
        rcases List.append_eq_append_iff.mp hcs with ⟨more, rfl, hafter⟩ | ⟨more, hmore, hrest⟩
        · cases more with
          | nil => exact ⟨[], by simp, hafter.symm⟩
          | cons d more =>
            have hd := hlexeme d (by simp)
            have hd' := hbreak d (by simp [hafter])
            simp only [isBreak, isBlank, Bool.or_eq_true, beq_iff_eq] at hd hd'
            rcases hd with rfl | rfl <;> simp at hd'
        · exact ⟨more, hmore, hrest⟩
      obtain ⟨bs, others, rfl, hbs, hothers, hrules⟩ :=
        ih (fun d hd => hblank d (hmore ▸ List.mem_append_right _ hd)) rfl
      exact ⟨⟨r, lexeme⟩ :: bs, others, rfl, by simp [hbs, hmore], hothers,
        List.forall_mem_cons.mpr ⟨hrule, hrules⟩⟩

/-- A text with a blank line and the text without it are cut alike in front of the line and behind
it. -/
theorem BlankLine.cut_alike {before blanks after : List Char} (h : BlankLine before blanks after) :
    ∃ fs bs gs, characters fs = before ∧ characters bs = blanks ∧
      (∀ f ∈ bs, f.rule = .blank ∨ f.rule = .indent) ∧
      Cuts (before ++ (blanks ++ after)) (fs ++ (bs ++ gs)) ∧ Cuts (before ++ after) (fs ++ gs) := by
  obtain ⟨fs, gs, hcuts, hfs⟩ := h.outside
  obtain ⟨others, hothers⟩ := exists_cuts after
  obtain ⟨hgs, hwithout⟩ := hcuts.without_blanks h.starts h.blank hfs hothers
  obtain ⟨bs, others', rfl, hbs, hothers', hrules⟩ := hgs.of_blanks h.blank h.ends
  obtain rfl := hothers.unique hothers'
  exact ⟨fs, bs, others, hfs, hbs, hrules, hcuts, hwithout⟩

/-! ## Tokens with and without the line -/

/-- Indentations and single spaces are dressed as indentations on the line where they begin. -/
theorem indent_of_mem_dressed {position line : Nat} {fs : List Fragment}
    (hrules : ∀ f ∈ fs, f.rule = .blank ∨ f.rule = .indent)
    (hblank : ∀ c ∈ characters fs, isBlank c = true) {t : Token} (ht : t ∈ dressed position line fs) :
    t.kind = .indent ∧ t.line = line := by
  induction fs generalizing position line with
  | nil => cases ht
  | cons f fs ih =>
    obtain ⟨hf, hrules⟩ := List.forall_mem_cons.mp hrules
    rw [Fragment.characters_cons, List.forall_mem_append] at hblank
    rcases List.mem_append.mp ht with ht | ht
    · obtain ⟨k, hk, rfl⟩ := Option.map_eq_some_iff.mp (Option.mem_toList.mp ht)
      rcases hf with hf | hf <;> rw [hf] at hk <;> cases hk
      exact ⟨rfl, rfl⟩
    · have hfeeds : lineFeeds f.text = 0 := by
        refine List.count_eq_zero.mpr fun hmem => ?_
        have := hblank.1 _ hmem
        simp [isBlank] at this
      simpa [hfeeds] using ih hrules hblank.2 ht

/-- The tokens in front of a blank line, those on it and those behind it, which are alike with the
line and without it. -/
structure Parted (before blanks after : List Char) (front marks behind others : List Token) :
    Prop where
  whole : Token.streamFrom 0 1 (before ++ (blanks ++ after)) = front ++ (marks ++ behind)
  without : Token.streamFrom 0 1 (before ++ after) = front ++ others
  alike : List.Forall₂ Token.Alike behind others
  mark : ∀ t ∈ marks, t.kind = .indent ∧ t.line = (1 + lineFeeds before : Nat)
  finish : ∃ t ∈ behind, t.kind = .finish
  frontPlace : ∀ t ∈ front, t.start < before.length
  markPlace : ∀ t ∈ marks, before.length ≤ t.start ∧ t.start < before.length + blanks.length
  behindPlace : ∀ t ∈ behind, before.length + blanks.length ≤ t.start
  othersPlace : ∀ u ∈ others, before.length ≤ u.start

/-- The tokens of a text that begin at the first place or behind it, and in front of the second one. -/
def Token.between (text : String) (i j : Nat) : List Token :=
  (Token.stream text).filter fun t => i ≤ t.start ∧ t.start < j

/-- The tokens of a text that begin at this place or behind it. -/
def Token.since (text : String) (i : Nat) : List Token :=
  (Token.stream text).filter fun t => i ≤ t.start

namespace Parted

variable {before blanks after : List Char} {front marks behind others : List Token}

theorem stream_whole (h : Parted before blanks after front marks behind others) :
    Token.stream (String.ofList (before ++ (blanks ++ after))) = front ++ (marks ++ behind) := by
  rw [Token.stream, String.toList_ofList, h.whole]

theorem stream_without (h : Parted before blanks after front marks behind others) :
    Token.stream (String.ofList (before ++ after)) = front ++ others := by
  rw [Token.stream, String.toList_ofList, h.without]

/-- Where the tokens begin says which of them they are. -/
theorem eq_between (h : Parted before blanks after front marks behind others) :
    front = Token.between (String.ofList (before ++ (blanks ++ after))) 0 before.length ∧
    marks = Token.between (String.ofList (before ++ (blanks ++ after))) before.length
      (before.length + blanks.length) ∧
    behind = Token.since (String.ofList (before ++ (blanks ++ after)))
      (before.length + blanks.length) ∧
    others = Token.since (String.ofList (before ++ after)) before.length := by
  have hself {p : Token → Bool} (ts : List Token) (hts : ∀ t ∈ ts, p t = true) :
      ts.filter p = ts := List.filter_eq_self.mpr hts
  have hnil {p : Token → Bool} (ts : List Token) (hts : ∀ t ∈ ts, ¬p t = true) :
      ts.filter p = [] := List.filter_eq_nil_iff.mpr hts
  have hfront := h.frontPlace
  have hmarks := h.markPlace
  have hbehind := h.behindPlace
  simp only [Token.between, Token.since, h.stream_whole, h.stream_without, List.filter_append]
  refine ⟨?_, ?_, ?_, ?_⟩
  · rw [hself front, hnil marks, hnil behind]
    · simp
    all_goals grind
  · rw [hnil front, hself marks, hnil behind]
    · simp
    all_goals grind
  · rw [hnil front, hnil marks, hself behind]
    · simp
    all_goals grind
  · rw [hnil front, hself others]
    · simp
    · simpa using h.othersPlace
    · grind

end Parted

/-- A blank line adds its indentations to the tokens, and otherwise changes nothing but places. -/
theorem BlankLine.exists_parted {before blanks after : List Char} (h : BlankLine before blanks after) :
    ∃ front marks behind others, Parted before blanks after front marks behind others := by
  obtain ⟨fs, bs, gs, hfs, hbs, hrules, hcuts, hwithout⟩ := h.cut_alike
  have hne := hcuts.text_ne_nil
  rw [List.forall_mem_append, List.forall_mem_append] at hne
  obtain ⟨hnefs, hnebs, hnegs⟩ := hne
  have hfeeds : lineFeeds blanks = 0 := by
    refine List.count_eq_zero.mpr fun hmem => ?_
    have := h.blank _ hmem
    simp [isBlank] at this
  have hgs : characters gs = after := by
    have := hwithout.characters_eq
    rw [Fragment.characters_append, hfs] at this
    exact List.append_cancel_left this
  set line := 1 + lineFeeds before with hline
  refine ⟨dressed 0 1 fs, dressed before.length line bs,
    dressed (before.length + blanks.length) line gs ++ [⟨.finish, "", (line + lineFeeds after : Nat),
      before.length + blanks.length + after.length, before.length + blanks.length + after.length⟩],
    dressed before.length line gs ++ [⟨.finish, "", (line + lineFeeds after : Nat),
      before.length + after.length, before.length + after.length⟩], ?_⟩
  exact {
    whole := by
      rw [hcuts.streamFrom_eq, Fragment.dressed_append, Fragment.dressed_append, hfs, hbs, hfeeds]
      simp only [lineFeeds_append, hfeeds, List.length_append, List.append_assoc, hline,
        Nat.zero_add, Nat.add_zero, Nat.add_assoc]
    without := by
      rw [hwithout.streamFrom_eq, Fragment.dressed_append, hfs]
      simp only [lineFeeds_append, List.length_append, List.append_assoc, hline, Nat.zero_add,
        Nat.add_assoc]
    alike := List.rel_append (Fragment.forall₂_dressed ..) (.cons ⟨rfl, rfl, rfl⟩ .nil)
    mark := fun t ht => indent_of_mem_dressed hrules (hbs ▸ h.blank) ht
    finish := ⟨_, List.mem_append_right _ (List.mem_singleton_self _), rfl⟩
    frontPlace := fun t ht => by
      have := (Fragment.bounds_of_mem_dressed hnefs ht).2
      rwa [Nat.zero_add, hfs] at this
    markPlace := fun t ht => hbs ▸ Fragment.bounds_of_mem_dressed hnebs ht
    behindPlace := fun t ht => by
      rcases List.mem_append.mp ht with ht | ht
      · exact (Fragment.bounds_of_mem_dressed hnegs ht).1
      · rw [List.mem_singleton.mp ht]
        exact Nat.le_add_right ..
    othersPlace := fun u hu => by
      rcases List.mem_append.mp hu with hu | hu
      · exact (Fragment.bounds_of_mem_dressed hnegs hu).1
      · rw [List.mem_singleton.mp hu]
        exact Nat.le_add_right .. }

end StackPrimer

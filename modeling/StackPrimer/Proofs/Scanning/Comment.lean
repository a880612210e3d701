import StackPrimer.Proofs.Scanning.Fragment

/-!
# Where a comment ends

Three quotes open a comment, but how many of the quotes around it belong to it is decided by the longest
match. What counts are the runs of quotes in the text:

* six quotes or more are a comment by themselves, of which eight at most are taken;
* three to five quotes open a comment that goes on through the next run of three quotes or more, of
  which five at most are taken;
* where there is no such run, the first quote is a token of its own.

Results:
* `FirstRun.commentEnd?`, `commentEnd?_eq_none`: how far the characters behind the opening quotes belong
  to the comment.
* `exists_firstRun`: if there are three quotes in a row, there is a first run of three or more.
* `comment_end`: what a scan does where it comes to three quotes or more.
-/

namespace StackPrimer

open Fragment (characters dressed)

/-! ## Places that a scan comes to -/

/-- Cutting comes to a place between the two parts of the text. -/
def Reached (before rest : List Char) : Prop :=
  ∃ fs gs, Cuts (before ++ rest) (fs ++ gs) ∧ characters fs = before

/-- What stands behind the first fragments is cut into the others. -/
theorem Cuts.behind {cs : List Char} {fs gs : List Fragment} (h : Cuts cs (fs ++ gs)) :
    ∃ rest, cs = characters fs ++ rest ∧ Cuts rest gs := by
  induction fs generalizing cs with
  | nil => exact ⟨cs, rfl, h⟩
  | cons f fs ih =>
    obtain ⟨rest, rfl, -, hcuts⟩ := h.of_cons
    obtain ⟨others, rfl, hothers⟩ := ih hcuts
    exact ⟨others, by rw [Fragment.characters_cons, List.append_assoc], hothers⟩

namespace Reached

variable {before rest lexeme : List Char}

theorem start (rest : List Char) : Reached [] rest := by
  obtain ⟨gs, hcuts⟩ := exists_cuts rest
  exact ⟨[], gs, hcuts, rfl⟩

theorem exists_cuts (h : Reached before rest) :
    ∃ fs gs, Cuts (before ++ rest) (fs ++ gs) ∧ characters fs = before ∧ Cuts rest gs := by
  obtain ⟨fs, gs, hcuts, hfs⟩ := h
  obtain ⟨others, hothers, hgs⟩ := hcuts.behind
  rw [hfs] at hothers
  obtain rfl := List.append_cancel_left hothers
  exact ⟨fs, gs, hcuts, hfs, hgs⟩

/-- The next place is behind the longest match. -/
theorem next {r : Rule} (h : Reached before (lexeme ++ rest))
    (hlongest : Longest r lexeme (lexeme ++ rest)) : Reached (before ++ lexeme) rest := by
  obtain ⟨fs, gs, hcuts, hfs, hgs⟩ := h.exists_cuts
  obtain ⟨others, rfl, -⟩ := hgs.of_longest hlongest
  refine ⟨fs ++ [⟨r, lexeme⟩], others, ?_, by simp [hfs]⟩
  simpa using hcuts

/-- The tokens of the text are those in front of the place and those of the rest. -/
theorem stream (h : Reached before rest) :
    ∃ front, (∀ t ∈ front, t.start < before.length) ∧
      Token.stream (String.ofList (before ++ rest)) =
        front ++ Token.streamFrom before.length (1 + lineFeeds before) rest := by
  obtain ⟨fs, gs, hcuts, rfl, hgs⟩ := h.exists_cuts
  have hne := hcuts.text_ne_nil
  rw [List.forall_mem_append] at hne
  refine ⟨dressed 0 1 fs, fun t ht => ?_, ?_⟩
  · simpa using (Fragment.bounds_of_mem_dressed hne.1 ht).2
  · rw [Token.stream, String.toList_ofList, hcuts.streamFrom_eq, hgs.streamFrom_eq,
      Fragment.dressed_append]
    simp only [lineFeeds_append, List.length_append, List.append_assoc, Nat.zero_add, Nat.add_assoc]

end Reached

/-! ## Runs of quotes -/

/-- Three quotes in a row stand somewhere. -/
def HasTriple (cs : List Char) : Prop := List.replicate 3 '"' <:+: cs

/-- The first run of three quotes or more in the text. -/
structure FirstRun (text between : List Char) (quotes : Nat) (after : List Char) : Prop where
  split : text = between ++ (List.replicate quotes '"' ++ after)
  three_le : 3 ≤ quotes
  begins : between.getLast? ≠ some '"'
  ends : after.head? ≠ some '"'
  first : ¬HasTriple between

namespace Piece

variable {cs rest : List Char}

theorem runLength_replicate (n : Nat) (h : rest.head? ≠ some '"') :
    runLength (· == '"') (List.replicate n '"' ++ rest) = n := by
  rw [runLength, List.takeWhile_append_of_pos fun c hc => by simp [List.eq_of_mem_replicate hc]]
  cases rest with
  | nil => simp
  | cons c rest =>
    have hc : c ≠ '"' := by simpa using h
    simp [hc]

theorem quotesInFront_few {n : Nat} (hn : n ≤ 2) (h : rest.head? ≠ some '"') :
    quotesInFront (List.replicate n '"' ++ rest) = false := by
  rw [Bool.eq_false_iff, ne_eq, quotesInFront_iff]
  rintro ⟨others, hothers⟩
  have hthree : 3 ≤ runLength (· == '"') (List.replicate n '"' ++ rest) := by
    rw [← hothers]
    exact length_le_runLength (by simp) (List.prefix_append (List.replicate 3 '"') others)
  rw [runLength_replicate n h] at hthree
  omega

/-- A comment goes on through whatever has no three quotes in front. -/
theorem commentEnd?_append {between : List Char}
    (h : ∀ ds, ds <:+ between → ds ≠ [] → quotesInFront (ds ++ cs) = false) :
    commentEnd? (between ++ cs) = (commentEnd? cs).map (· + between.length) := by
  induction between with
  | nil => simp
  | cons c between ih =>
    have hc := h (c :: between) List.suffix_rfl (List.cons_ne_nil c between)
    have hrest := ih fun ds hds => h ds (hds.trans (List.suffix_cons c between))
    rw [List.cons_append] at hc ⊢
    rw [commentEnd?, if_neg (by simp [hc]), hrest, Option.map_map]
    simp [Function.comp_def, Nat.add_assoc]

theorem commentEnd?_few {n : Nat} (hn : n ≤ 2) (h : rest.head? ≠ some '"') :
    commentEnd? (List.replicate n '"' ++ rest) = (commentEnd? rest).map (· + n) := by
  have hall : ∀ ds, ds <:+ List.replicate n '"' → ds ≠ [] → quotesInFront (ds ++ rest) = false := by
    intro ds hds _
    obtain ⟨hlength, hds⟩ := List.suffix_replicate_iff.mp hds
    rw [hds]
    exact quotesInFront_few (by omega) h
  simpa using commentEnd?_append hall

theorem commentEnd?_run {n : Nat} (hn : 3 ≤ n) (h : rest.head? ≠ some '"') :
    commentEnd? (List.replicate n '"' ++ rest) = some (min 5 n) := by
  obtain ⟨n, rfl⟩ := Nat.exists_eq_add_of_le' hn
  have hrun := runLength_replicate (n + 3) h
  simp only [List.replicate_succ, List.cons_append] at hrun ⊢
  have hfront : quotesInFront ('"' :: '"' :: '"' :: (List.replicate n '"' ++ rest)) = true := rfl
  rw [commentEnd?, if_pos hfront, hrun]

/-- Without three quotes in a row a comment does not end. -/
theorem commentEnd?_eq_none (h : ¬HasTriple cs) : commentEnd? cs = none := by
  induction cs with
  | nil => rfl
  | cons c cs ih =>
    have hfront : quotesInFront (c :: cs) = false := by
      rw [Bool.eq_false_iff, ne_eq, quotesInFront_iff]
      exact fun hstart => h hstart.isInfix
    rw [commentEnd?, if_neg (by simp [hfront]),
      ih fun htriple => h (htriple.trans (List.suffix_cons c cs).isInfix)]
    rfl

end Piece

namespace FirstRun

variable {text between after : List Char} {n : Nat}

/-- A comment that has been opened goes on through the first run, but takes five quotes at most. -/
theorem commentEnd? (h : FirstRun text between n after) :
    Piece.commentEnd? text = some (min 5 n + between.length) := by
  have hall : ∀ ds, ds <:+ between → ds ≠ [] →
      Piece.quotesInFront (ds ++ (List.replicate n '"' ++ after)) = false := by
    intro ds hds hne
    have hlast : ds.getLast? ≠ some '"' := by
      obtain ⟨front, rfl⟩ := hds
      have hbegins := h.begins
      rwa [List.getLast?_append_of_ne_nil _ hne] at hbegins
    rw [Bool.eq_false_iff, ne_eq, Piece.quotesInFront_iff]
    intro hstart
    -- three quotes would lie within `ds`, or `ds` would end with one of them
    rcases List.prefix_or_prefix_of_prefix hstart (List.prefix_append ds _) with hwithin | hbeyond
    · exact h.first (hwithin.isInfix.trans hds.isInfix)
    · obtain ⟨-, hreplicate⟩ := List.prefix_replicate_iff.mp hbeyond
      rw [hreplicate, List.getLast?_replicate, if_neg (by simpa using hne)] at hlast
      exact hlast rfl
  rw [h.split, Piece.commentEnd?_append hall, Piece.commentEnd?_run h.three_le h.ends]
  rfl

end FirstRun

/-- If there are three quotes in a row, there is a first run of three or more. -/
theorem exists_firstRun {text : List Char} (h : HasTriple text) :
    ∃ between n after, FirstRun text between n after := by
  induction text with
  | nil => simp [HasTriple] at h
  | cons c cs ih =>
    by_cases hfront : List.replicate 3 '"' <+: c :: cs
    · refine ⟨[], Piece.runLength (· == '"') (c :: cs), (c :: cs).dropWhile (· == '"'), ?_, ?_,
        by simp, ?_, by simp [HasTriple]⟩
      · have hall : (c :: cs).takeWhile (· == '"') =
            List.replicate (Piece.runLength (· == '"') (c :: cs)) '"' :=
          List.eq_replicate_of_mem fun d hd => by simpa using List.mem_takeWhile_imp hd
        rw [List.nil_append, ← hall, List.takeWhile_append_dropWhile]
      · exact Piece.length_le_runLength (by simp) hfront
      · intro hhead
        have := List.head?_dropWhile_not (· == '"') (c :: cs)
        rw [hhead] at this
        simp at this
    · have htriple : HasTriple cs := (List.infix_cons_iff.mp h).resolve_left hfront
      obtain ⟨between, n, after, hrun⟩ := ih htriple
      refine ⟨c :: between, n, after, by rw [hrun.split]; rfl, hrun.three_le, ?_, hrun.ends, ?_⟩
      · cases between with
        | nil =>
          -- the character in front of the run is not a quote, or the run would begin there
          rintro hlast
          obtain rfl : c = '"' := by simpa using hlast
          refine hfront ?_
          rw [hrun.split, List.nil_append]
          obtain ⟨n, rfl⟩ := Nat.exists_eq_add_of_le' hrun.three_le
          exact ⟨'"' :: List.replicate n '"' ++ after, by simp [List.replicate_succ]⟩
        | cons d between => simpa using hrun.begins
      · intro hbetween
        rcases List.infix_cons_iff.mp hbetween with hstart | hinfix
        · refine hfront (hstart.trans ?_)
          rw [hrun.split]
          exact List.cons_prefix_cons.mpr ⟨rfl, List.prefix_append ..⟩
        · exact hrun.first hinfix

/-! ## What the scan does in front of quotes -/

/-- The scan comes to a place, takes the longest match there and goes on behind it. The tokens that it
has found in front of the place stay, and the match adds those produced. -/
structure Passes (r : Rule) (before lexeme rest : List Char) (produced : List Token) : Prop where
  longest : Longest r lexeme (lexeme ++ rest)
  reached : Reached (before ++ lexeme) rest
  stream : ∃ front, (∀ t ∈ front, t.start < before.length) ∧
    Token.stream (String.ofList (before ++ (lexeme ++ rest))) = front ++ (produced ++
      Token.streamFrom (before.length + lexeme.length) (1 + lineFeeds before + lineFeeds lexeme) rest)

/-- A match as long as the first piece is the longest. -/
theorem Longest.of_length {c : Char} {cs lexeme rest : List Char} (hsplit : c :: cs = lexeme ++ rest)
    (hlength : (Piece.first c cs).length = lexeme.length) :
    ∃ r, Longest r lexeme (lexeme ++ rest) := by
  have hlexeme : c :: cs.take ((Piece.first c cs).length - 1) = lexeme := by
    rw [← List.take_succ_cons, Nat.sub_one_add_one (Piece.first_length_pos c cs).ne', hlength, hsplit,
      List.take_left]
  obtain ⟨r, hlongest, -⟩ := Piece.longest_first c cs
  rw [hlexeme, hsplit] at hlongest
  exact ⟨r, hlongest⟩

namespace Reached

variable {before lexeme rest : List Char}

theorem passes {r : Rule} (h : Reached before (lexeme ++ rest))
    (hlongest : Longest r lexeme (lexeme ++ rest)) :
    Passes r before lexeme rest
      (Fragment.token? before.length (1 + lineFeeds before) ⟨r, lexeme⟩).toList where
  longest := hlongest
  reached := h.next hlongest
  stream := by
    obtain ⟨front, hfront, hstream⟩ := h.stream
    exact ⟨front, hfront, by rw [hstream, Cuts.streamFrom_of_longest hlongest]⟩

end Reached

/-- What three quotes or more begin: a comment, if the quotes behind the first three are the front of
what ends one, and otherwise an unknown character. -/
theorem Piece.first_quotes (k : Nat) (rest : List Char) :
    first '"' (List.replicate (k + 2) '"' ++ rest) =
      match commentEnd? (List.replicate k '"' ++ rest) with
      | some n => ⟨none, 3 + n⟩
      | none => ⟨some .unknown, 1⟩ :=
  rfl

section
variable {before rest comment after : List Char} {k n : Nat}

/-- Three quotes and whatever is said to belong to the comment that they open are skipped. -/
theorem Reached.skips (h : Reached before (List.replicate (k + 3) '"' ++ rest))
    (hsplit : List.replicate (k + 3) '"' ++ rest = comment ++ after)
    (hend : Piece.commentEnd? (List.replicate k '"' ++ rest) = some n)
    (hlength : comment.length = 3 + n) : Passes .comment before comment after [] := by
  obtain ⟨c, ds, rfl⟩ : ∃ c ds, comment = c :: ds :=
    List.exists_cons_of_length_pos (by omega)
  have hfirst : (Piece.first '"' (List.replicate (k + 2) '"' ++ rest)).length = (c :: ds).length := by
    rw [Piece.first_quotes, hend, hlength]
  obtain ⟨r, hlongest⟩ := Longest.of_length hsplit hfirst
  obtain ⟨rfl, -⟩ := List.cons.inj hsplit
  have hds : ds ≠ [] := by
    rintro rfl
    rw [List.length_singleton] at hlength
    omega
  obtain rfl : r = .comment := by
    simpa [hds] using Rule.eq_of_quote_mem hlongest.mem
  exact (hsplit ▸ h).passes hlongest

/-- If the comment has no end, the first quote is a token. -/
theorem Reached.takes_one (h : Reached before (List.replicate (k + 3) '"' ++ rest))
    (hend : Piece.commentEnd? (List.replicate k '"' ++ rest) = none) :
    Passes .unknown before ['"'] (List.replicate (k + 2) '"' ++ rest)
      [⟨.unknown, "\"", (1 + lineFeeds before : Nat), before.length, before.length + 1⟩] := by
  have hsplit : List.replicate (k + 3) '"' ++ rest =
      ['"'] ++ (List.replicate (k + 2) '"' ++ rest) := rfl
  have hfirst : (Piece.first '"' (List.replicate (k + 2) '"' ++ rest)).length = ['"'].length := by
    rw [Piece.first_quotes, hend]
    rfl
  obtain ⟨r, hlongest⟩ := Longest.of_length hsplit hfirst
  obtain rfl : r = .unknown := Rule.eq_of_quote_mem hlongest.mem
  exact (hsplit ▸ h).passes hlongest

end

/-- Where the scan comes to `n` quotes, three or more, and no quote behind them.

From six quotes on, up to eight are a comment. Fewer open one that takes up to five quotes of the first
run of three or more behind them, whatever stands in front of that run; there is one if three quotes
stand in a row anywhere behind. Without them only the first quote is taken, as an unknown token. -/
theorem comment_end {before rest : List Char} {n : Nat} (hn : 3 ≤ n) (hrest : rest.head? ≠ some '"')
    (h : Reached before (List.replicate n '"' ++ rest)) :
    (6 ≤ n → Passes .comment before (List.replicate (min n 8) '"')
      (List.replicate (n - 8) '"' ++ rest) []) ∧
    (n ≤ 5 →
      (∀ between m after, FirstRun rest between m after →
        Passes .comment before (List.replicate n '"' ++ (between ++ List.replicate (min m 5) '"'))
          (List.replicate (m - 5) '"' ++ after) []) ∧
      (HasTriple rest → ∃ between m after, FirstRun rest between m after) ∧
      (¬HasTriple rest → Passes .unknown before ['"'] (List.replicate (n - 1) '"' ++ rest)
        [⟨.unknown, "\"", (1 + lineFeeds before : Nat), before.length, before.length + 1⟩])) := by
  obtain ⟨k, rfl⟩ := Nat.exists_eq_add_of_le' hn
  refine ⟨fun hmany => ?_, fun hfew =>
    ⟨fun between m after hrun => ?_, exists_firstRun, fun hnone => ?_⟩⟩
  · have hend := Piece.commentEnd?_run (n := k) (by omega) hrest
    refine h.skips ?_ hend (by simp; omega)
    rw [← List.append_assoc, List.replicate_append_replicate]
    congr 2
    omega
  · have hend := Piece.commentEnd?_few (n := k) (by omega) hrest
    rw [hrun.commentEnd?, Option.map_some] at hend
    refine h.skips ?_ hend (by simp; omega)
    have hquotes : List.replicate m '"' =
        List.replicate (min m 5) '"' ++ List.replicate (m - 5) '"' := by
      rw [List.replicate_append_replicate]
      congr 1
      omega
    rw [hrun.split, hquotes]
    simp only [List.append_assoc]
  · have hend := Piece.commentEnd?_few (n := k) (by omega) hrest
    rw [Piece.commentEnd?_eq_none hnone] at hend
    exact h.takes_one hend

/-- A comment that four quotes open takes a run of six up to its fifth quote. -/
theorem comment_end_four_six :
    Passes .comment [] "\"\"\"\"a\"\"\nb\"\"\"\"\"".toList "\"c".toList [] := by
  have hrun : FirstRun "a\"\"\nb\"\"\"\"\"\"c".toList "a\"\"\nb".toList 6 ['c'] :=
    ⟨rfl, by decide, by decide, by decide, by unfold HasTriple; decide⟩
  exact ((comment_end (n := 4) (by decide) (by decide) (Reached.start _)).2 (by decide)).1 _ _ _ hrun

end StackPrimer

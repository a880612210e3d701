import StackPrimer.Proofs.Scanning.BlankLine

/-!
# Carriage returns in front of line feeds

A carriage return in front of every line feed changes no token but in its place. A match that holds a
line feed is a comment or that line feed alone: the one stays a comment, the other becomes two gaps.

Results:
* `withReturns_mem_comment`: comments with the returns are those without them.
* `Longest.withReturns`: the longest match with the returns is the one without them.
* `stream_withReturns`: the tokens of a text with returns are those without them, moved on.
-/

namespace StackPrimer

open Fragment (dressed)
open Rule (IsGroup commentBody)

/-- The text with a carriage return in front of every line feed. -/
def withReturns (cs : List Char) : List Char :=
  cs.flatMap fun c => if c = '\n' then ['\r', '\n'] else [c]

variable {cs ds es : List Char} {c : Char}

@[simp] theorem withReturns_nil : withReturns [] = [] := rfl

@[simp] theorem withReturns_feed (cs : List Char) :
    withReturns ('\n' :: cs) = '\r' :: '\n' :: withReturns cs := rfl

theorem withReturns_cons (hc : c ≠ '\n') (cs : List Char) :
    withReturns (c :: cs) = c :: withReturns cs := by
  simp [withReturns, hc]

@[simp] theorem withReturns_append (cs ds : List Char) :
    withReturns (cs ++ ds) = withReturns cs ++ withReturns ds :=
  List.flatMap_append

theorem withReturns_eq_self (h : '\n' ∉ cs) : withReturns cs = cs := by
  induction cs with
  | nil => rfl
  | cons c cs ih =>
    rw [List.mem_cons, not_or] at h
    rw [withReturns_cons (Ne.symm h.1), ih h.2]

theorem mem_withReturns (h : '\n' ∈ cs) : '\r' ∈ withReturns cs ∧ '\n' ∈ withReturns cs :=
  ⟨List.mem_flatMap.mpr ⟨_, h, by simp⟩, List.mem_flatMap.mpr ⟨_, h, by simp⟩⟩

theorem eq_of_withReturns_eq (h : withReturns cs = ds) (hds : '\r' ∉ ds) : cs = ds := by
  rw [← h, withReturns_eq_self]
  exact fun hmem => hds (h ▸ (mem_withReturns hmem).1)

theorem length_withReturns (cs : List Char) : (withReturns cs).length = cs.length + lineFeeds cs := by
  induction cs with
  | nil => rfl
  | cons c cs ih =>
    by_cases hc : c = '\n'
    · subst hc
      simp [ih, lineFeeds]
      omega
    · simp [withReturns_cons hc, ih, lineFeeds, hc]
      omega

@[simp] theorem lineFeeds_withReturns (cs : List Char) : lineFeeds (withReturns cs) = lineFeeds cs := by
  induction cs with
  | nil => rfl
  | cons c cs ih =>
    by_cases hc : c = '\n'
    · subst hc
      simpa [lineFeeds] using ih
    · simpa [withReturns_cons hc, lineFeeds, hc] using ih

/-! ## Parts of a text with returns -/

/-- What stands in front in a text with returns is a part of the text, or ends between a return and its
line feed. -/
theorem exists_of_prefix_withReturns (h : ds <+: withReturns cs) :
    ∃ front, front <+: cs ∧ ds = withReturns front ∨
      front ++ ['\n'] <+: cs ∧ ds = withReturns front ++ ['\r'] := by
  induction cs generalizing ds with
  | nil => exact ⟨[], .inl ⟨List.nil_prefix, by simpa using h⟩⟩
  | cons c cs ih =>
    cases ds with
    | nil => exact ⟨[], .inl ⟨List.nil_prefix, rfl⟩⟩
    | cons d ds =>
      by_cases hc : c = '\n'
      · subst hc
        rw [withReturns_feed, List.cons_prefix_cons] at h
        obtain ⟨rfl, h⟩ := h
        cases ds with
        | nil => exact ⟨[], .inr ⟨by simp, rfl⟩⟩
        | cons e ds =>
          obtain ⟨rfl, hds⟩ := List.cons_prefix_cons.mp h
          obtain ⟨front, hfront⟩ := ih hds
          refine ⟨'\n' :: front, hfront.imp ?_ ?_⟩
          · rintro ⟨hpart, rfl⟩
            exact ⟨by simpa using hpart, rfl⟩
          · rintro ⟨hpart, rfl⟩
            exact ⟨by simpa using hpart, rfl⟩
      · rw [withReturns_cons hc, List.cons_prefix_cons] at h
        obtain ⟨rfl, hds⟩ := h
        obtain ⟨front, hfront⟩ := ih hds
        refine ⟨d :: front, hfront.imp ?_ ?_⟩
        · rintro ⟨hpart, rfl⟩
          exact ⟨by simpa using hpart, (withReturns_cons hc front).symm⟩
        · rintro ⟨hpart, rfl⟩
          exact ⟨by simpa using hpart, by rw [withReturns_cons hc]; rfl⟩

/-- A text with returns is divided where the text can be, if not between a return and its line feed. -/
theorem exists_of_withReturns_eq_append (h : withReturns cs = ds ++ es)
    (hbetween : ds.getLast? ≠ some '\r' ∨ es.head? ≠ some '\n') :
    ∃ front behind, cs = front ++ behind ∧ withReturns front = ds ∧ withReturns behind = es := by
  obtain ⟨front, ⟨⟨behind, rfl⟩, rfl⟩ | ⟨⟨behind, rfl⟩, rfl⟩⟩ :=
    exists_of_prefix_withReturns ⟨es, h.symm⟩
  · rw [withReturns_append] at h
    exact ⟨front, behind, rfl, rfl, List.append_cancel_left h⟩
  · exfalso
    simp only [withReturns_append, withReturns_feed, List.append_assoc,
      List.append_cancel_left_eq, List.cons_append, List.nil_append, List.cons.injEq, true_and] at h
    subst h
    simp at hbetween

/-! ## Comments -/

theorem withReturns_replicate (n : Nat) :
    withReturns (List.replicate n '"') = List.replicate n '"' :=
  withReturns_eq_self fun h => by simpa using List.eq_of_mem_replicate h

theorem group_mem_commentBody {g : List Char} (h : IsGroup g) : g ∈ commentBody := by
  simpa using Rule.group_append_mem_commentBody h Rule.nil_mem_commentBody

theorem withReturns_mem_commentBody (h : cs ∈ commentBody) : withReturns cs ∈ commentBody := by
  obtain ⟨groups, rfl, hgroups⟩ := Rule.mem_commentBody.mp h
  clear h
  induction groups with
  | nil => exact Rule.nil_mem_commentBody
  | cons g groups ih =>
    obtain ⟨⟨n, c, hn, hc, rfl⟩, hothers⟩ := List.forall_mem_cons.mp hgroups
    rw [List.flatten_cons, withReturns_append, withReturns_append, withReturns_replicate]
    refine append_mem_commentBody ?_ (ih hothers)
    by_cases hfeed : c = '\n'
    · -- the return ends the group, and the line feed is one by itself
      subst hfeed
      have hreturn : IsGroup (List.replicate n '"' ++ ['\r']) := ⟨n, '\r', hn, by decide, rfl⟩
      have hfeed : IsGroup ['\n'] := ⟨0, '\n', by omega, hc, rfl⟩
      simpa using append_mem_commentBody (group_mem_commentBody hreturn) (group_mem_commentBody hfeed)
    · rw [withReturns_cons hfeed]
      exact group_mem_commentBody ⟨n, c, hn, hc, rfl⟩

theorem mem_commentBody_of_withReturns (h : withReturns cs ∈ commentBody) : cs ∈ commentBody := by
  induction hlength : cs.length using Nat.strong_induction_on generalizing cs with
  | h length ih =>
    rcases Rule.commentBody_cases h with hnil | ⟨_, ds, ⟨n, d, hn, hd, rfl⟩, hds, heq⟩
    · rw [eq_of_withReturns_eq hnil (by simp)]
      exact Rule.nil_mem_commentBody
    · rw [List.append_assoc] at heq
      obtain ⟨quotes, behind, rfl, hquotes, hbehind⟩ := exists_of_withReturns_eq_append heq
        (.inl fun hlast => by simpa using List.eq_of_mem_replicate (List.mem_of_getLast? hlast))
      obtain rfl : quotes = List.replicate n '"' :=
        eq_of_withReturns_eq hquotes fun hmem => by simpa using List.eq_of_mem_replicate hmem
      obtain ⟨c, others, rfl⟩ : ∃ c others, behind = c :: others :=
        List.exists_cons_of_ne_nil fun hnil => by simp [hnil] at hbehind
      have hshorter : others.length < length := by
        rw [← hlength]
        simp only [List.length_append, List.length_cons]
        omega
      have hothers : c ≠ '"' ∧ others ∈ commentBody := by
        by_cases hc : c = '\n'
        · -- the group ended with the return, and the next one is the line feed
          subst hc
          obtain ⟨rfl, rfl⟩ : '\r' = d ∧ '\n' :: withReturns others = ds := by simpa using hbehind
          have hfeed : [] ++ '\n' :: withReturns others ∈ commentBody := hds
          obtain ⟨-, hrest⟩ := mem_commentBody_of_append (by decide) hfeed
          exact ⟨by decide, ih _ hshorter hrest rfl⟩
        · rw [withReturns_cons hc] at hbehind
          obtain ⟨rfl, rfl⟩ : c = d ∧ withReturns others = ds := by simpa using hbehind
          exact ⟨hd, ih _ hshorter hds rfl⟩
      rw [List.append_cons]
      exact Rule.group_append_mem_commentBody ⟨n, c, hn, hothers.1, rfl⟩ hothers.2

/-- Comments with the returns are those without them. -/
theorem withReturns_mem_comment :
    withReturns cs ∈ Rule.language .comment ↔ cs ∈ Rule.language .comment := by
  constructor
  · intro h
    obtain ⟨body, hbody, n, hn, heq⟩ := Rule.mem_comment.mp h
    obtain ⟨opening, behind, rfl, hopening, hbehind⟩ :=
      exists_of_withReturns_eq_append heq (.inl (by decide))
    obtain ⟨body', closing, rfl, rfl, hclosing⟩ :=
      exists_of_withReturns_eq_append hbehind (.inr (by simp [List.head?_replicate]))
    have hquotes (m : Nat) : '\r' ∉ List.replicate m '"' := fun hmem => by
      simpa using List.eq_of_mem_replicate hmem
    rw [eq_of_withReturns_eq hopening (hquotes 3), eq_of_withReturns_eq hclosing (hquotes _)]
    exact Rule.mem_comment.mpr ⟨body', mem_commentBody_of_withReturns hbody, n, hn, rfl⟩
  · intro h
    obtain ⟨body, hbody, n, hn, rfl⟩ := Rule.mem_comment.mp h
    simp only [withReturns_append, withReturns_replicate]
    exact Rule.mem_comment.mpr ⟨_, withReturns_mem_commentBody hbody, n, hn, rfl⟩

theorem getLast?_of_mem_comment (h : cs ∈ Rule.language .comment) : cs.getLast? = some '"' := by
  obtain ⟨body, -, n, -, rfl⟩ := Rule.mem_comment.mp h
  rw [← List.append_assoc, List.getLast?_append, List.getLast?_replicate]
  rfl

/-! ## Longest matches -/

/-- A rule matches with the returns what it matches without them, but for the line feed. -/
theorem Rule.withReturns_mem {r : Rule} (h : cs ∈ r.language) (hcs : cs ≠ ['\n']) :
    withReturns cs ∈ r.language := by
  by_cases hfeed : '\n' ∈ cs
  · obtain rfl | ⟨-, hone⟩ := Rule.of_isBreak_mem rfl hfeed h
    · exact withReturns_mem_comment.mpr h
    · exact absurd hone hcs
  · rwa [withReturns_eq_self hfeed]

theorem Rule.mem_of_withReturns_mem {r : Rule} (h : withReturns cs ∈ r.language) :
    cs ∈ r.language := by
  by_cases hfeed : '\n' ∈ cs
  · have hmem := mem_withReturns hfeed
    obtain rfl | ⟨-, hone⟩ := Rule.of_isBreak_mem rfl hmem.2 h
    · exact withReturns_mem_comment.mp h
    · simp [hone] at hmem
  · rwa [withReturns_eq_self hfeed] at h

/-- The longest match with the returns is the one without them. -/
theorem Longest.withReturns {r : Rule} {lexeme rest : List Char} (h : Longest r lexeme (lexeme ++ rest))
    (hne : lexeme ≠ ['\n']) :
    Longest r (withReturns lexeme) (withReturns lexeme ++ withReturns rest) where
  mem := Rule.withReturns_mem h.mem hne
  front := List.prefix_append ..
  longest r' other hmem hfront := by
    rw [← withReturns_append] at hfront
    obtain ⟨front, ⟨hpart, rfl⟩ | ⟨-, rfl⟩⟩ := exists_of_prefix_withReturns hfront
    · have hle := h.longest r' front (Rule.mem_of_withReturns_mem hmem) hpart
      obtain ⟨others, rfl⟩ :=
        List.prefix_of_prefix_length_le hpart (List.prefix_append lexeme rest) hle
      rw [withReturns_append, List.length_append]
      omega
    · -- no comment ends with a return, and no other match goes on in front of one
      obtain rfl | ⟨-, hone⟩ := Rule.of_isBreak_mem (c := '\r') rfl (by simp) hmem
      · simpa using getLast?_of_mem_comment hmem
      · rw [hone, length_withReturns]
        exact Nat.le_add_right_of_le (List.length_pos_of_ne_nil (Rule.ne_nil_of_mem h.mem))

/-! ## Fragments and tokens -/

/-- A fragment with the returns. The return in front of a line feed that is a gap is a gap, too. -/
def Fragment.withReturns (f : Fragment) : List Fragment :=
  if f.text = ['\n'] then [⟨.blank, ['\r']⟩, f] else [⟨f.rule, StackPrimer.withReturns f.text⟩]

/-- The text with the returns is cut where the text is. -/
theorem Cuts.withReturns {fs : List Fragment} (h : Cuts cs fs) :
    Cuts (withReturns cs) (fs.flatMap Fragment.withReturns) := by
  induction h with
  | nil => exact .nil
  | @cons r lexeme rest fs longest cuts ih =>
    rw [withReturns_append, List.flatMap_cons, Fragment.withReturns]
    split
    · rename_i hfeed
      obtain rfl : lexeme = ['\n'] := hfeed
      have hrule : r = .blank := by
        obtain ⟨_, _, heq, rfl⟩ := Rule.exists_beginningWith longest.mem
        obtain ⟨rfl, rfl⟩ := List.cons.inj heq
        rfl
      subst hrule
      have hfeed : Cuts ('\n' :: StackPrimer.withReturns rest) (⟨.blank, ['\n']⟩ :: _) :=
        .cons (longest_of_isBreak rfl _) ih
      exact .cons (longest_of_isBreak rfl _) hfeed
    · rename_i hne
      exact .cons (longest.withReturns hne) ih

@[simp] theorem Fragment.characters_withReturns (f : Fragment) :
    Fragment.characters f.withReturns = StackPrimer.withReturns f.text := by
  rw [Fragment.withReturns]
  split
  · rename_i hfeed
    simp [hfeed]
  · simp

/-- The token as it stands behind returns, one in front of every line feed before it. -/
def Token.behindReturns (t : Token) : Token :=
  { t with
    start := t.start + (t.line - 1).toNat
    stop := t.stop + (t.line - 1).toNat }

/-- It stands elsewhere, and that is all. -/
theorem Token.alike_behindReturns (t : Token) : t.Alike t.behindReturns := ⟨rfl, rfl, rfl⟩

namespace Fragment

/-- A fragment with the returns is the same token or none, as without them. -/
theorem dressed_withReturns_one {f : Fragment} (h : f.text ∈ f.rule.language)
    (position feeds : Nat) :
    dressed (position + feeds) (feeds + 1) f.withReturns =
      (f.token? position (feeds + 1)).toList.map Token.behindReturns := by
  obtain ⟨r, cs⟩ := f
  by_cases hfeed : '\n' ∈ cs
  · have hnone : r = .comment ∨ r = .blank :=
      (Rule.of_isBreak_mem rfl hfeed h).imp_right And.left
    rw [Fragment.withReturns]
    rcases hnone with rfl | rfl <;> split <;> rfl
  · have hne : cs ≠ ['\n'] := by
      rintro rfl
      simp at hfeed
    rw [Fragment.withReturns, if_neg hne, withReturns_eq_self hfeed]
    cases hkind : r.kind? cs <;>
      simp [dressed, token?, hkind, Token.behindReturns, Nat.add_right_comm]

theorem dressed_withReturns {fs : List Fragment} (h : ∀ f ∈ fs, f.text ∈ f.rule.language)
    (position feeds : Nat) :
    dressed (position + feeds) (feeds + 1) (fs.flatMap Fragment.withReturns) =
      (dressed position (feeds + 1) fs).map Token.behindReturns := by
  induction fs generalizing position feeds with
  | nil => rfl
  | cons f fs ih =>
    obtain ⟨hf, hfs⟩ := List.forall_mem_cons.mp h
    have hrest := ih hfs (position + f.text.length) (feeds + lineFeeds f.text)
    have hposition : position + feeds + (StackPrimer.withReturns f.text).length =
        position + f.text.length + (feeds + lineFeeds f.text) := by
      rw [length_withReturns]
      omega
    rw [List.flatMap_cons, dressed_append, dressed_withReturns_one hf, characters_withReturns,
      lineFeeds_withReturns, hposition, Nat.add_right_comm feeds 1, hrest, dressed, List.map_append,
      Nat.add_right_comm feeds 1]

end Fragment

/-- The tokens of a text with returns are those without them, moved on. -/
theorem stream_withReturns (text : String) :
    Token.stream (String.ofList (withReturns text.toList)) =
      (Token.stream text).map Token.behindReturns := by
  obtain ⟨fragments, hcuts⟩ := exists_cuts text.toList
  have hcuts' : Cuts (String.ofList (withReturns text.toList)).toList
      (fragments.flatMap Fragment.withReturns) := by
    rw [String.toList_ofList]
    exact hcuts.withReturns
  have hdressed := Fragment.dressed_withReturns hcuts.mem_language 0 0
  simp only [Nat.add_zero, Nat.zero_add] at hdressed
  rw [stream_eq_dressed hcuts, stream_eq_dressed hcuts', hdressed, String.toList_ofList, List.map_append,
    length_withReturns, lineFeeds_withReturns]
  simp [Token.behindReturns]

end StackPrimer

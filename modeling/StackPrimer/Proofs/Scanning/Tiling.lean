import Mathlib.Data.List.Chain
import StackPrimer.Proofs.Scanning.Fragment

/-!
# Tokens tile the text

What stands between the tokens of a text are gaps: single spaces, line breaks and comments. Nothing
else is lost, and what the tokens say of their places is true.

Results:
* `stream_tiles`: the tokens of every text tile it, and are those of the one way to cut it.
-/

namespace StackPrimer

open Fragment (characters dressed)

/-- Spaces one by one, line breaks and comments. No two spaces stand side by side outside of a
comment. -/
def Gap (cs : List Char) : Prop :=
  ∃ fillers : List (List Char), cs = fillers.flatten ∧
    (∀ f ∈ fillers, f = [' '] ∨ f = ['\r'] ∨ f = ['\n'] ∨ f ∈ Rule.language .comment) ∧
    fillers.IsChain fun f g => ¬(f = [' '] ∧ g = [' '])

/-- The tokens cover the text from `position` on, with only gaps in front of each of them. -/
structure Tiles (text : List Char) (position : Nat) (tokens : List Token) : Prop where
  /-- There is one end, and it comes last. -/
  finish : ∃ others, (∀ t ∈ others, t.kind ≠ .finish) ∧ tokens = others ++
    [⟨.finish, "", (1 + lineFeeds text : Nat), text.length, text.length⟩]
  nonempty : ∀ t ∈ tokens, t.kind ≠ .finish → t.start < t.stop
  apart : tokens.Pairwise fun t u => t.stop ≤ u.start
  lexeme : ∀ t ∈ tokens, t.start ≤ t.stop ∧ t.stop ≤ text.length ∧
    t.lexeme = String.ofList (text.extract t.start t.stop)
  line : ∀ t ∈ tokens, t.line = (1 + lineFeeds (text.take t.start) : Nat)
  gapInFront : ∀ t ∈ tokens.head?, position ≤ t.start ∧ Gap (text.extract position t.start)
  gaps : tokens.IsChain fun t u => Gap (text.extract t.stop u.start)

/-! ## Gaps -/

namespace Gap

theorem nil : Gap [] := ⟨[], rfl, by simp, .nil⟩

/-- A gap is made longer by what a rule without tokens matches, but not by a space in front of a
space. -/
theorem append {f cs : List Char}
    (hf : f ∈ Rule.language .blank ∨ f ∈ Rule.language .comment)
    (hspace : f = [' '] → cs.head? ≠ some ' ') (h : Gap cs) : Gap (f ++ cs) := by
  obtain ⟨fillers, rfl, hall, hchain⟩ := h
  rw [Rule.mem_blank] at hf
  refine ⟨f :: fillers, rfl, List.forall_mem_cons.mpr ⟨by tauto, hall⟩, ?_⟩
  refine hchain.cons fun g hg => ?_
  rintro ⟨rfl, rfl⟩
  obtain ⟨others, rfl⟩ : ∃ others, fillers = [' '] :: others := by
    cases fillers with
    | nil => cases hg
    | cons g others =>
      obtain rfl : g = [' '] := by simpa using hg
      exact ⟨others, rfl⟩
  exact hspace rfl rfl

end Gap

/-- Behind a space that is a fragment no other space stands. -/
theorem Longest.head?_ne_space {r : Rule} {rest : List Char} (h : Longest r [' '] ([' '] ++ rest)) :
    rest.head? ≠ some ' ' := by
  intro hspace
  obtain ⟨rest, rfl⟩ : ∃ others, rest = ' ' :: others := by
    cases rest with
    | nil => cases hspace
    | cons c others =>
      obtain rfl : c = ' ' := by simpa using hspace
      exact ⟨others, rfl⟩
  have := h.longest .indent [' ', ' '] (Rule.mem_indent.mpr (.inr ⟨0, rfl⟩)) ⟨rest, rfl⟩
  simp at this

/-! ## Tiling from behind -/

namespace Tiles

variable {before lexeme rest : List Char} {tokens : List Token}

theorem finish_only (text : List Char) :
    Tiles text text.length
      [⟨.finish, "", (1 + lineFeeds text : Nat), text.length, text.length⟩] where
  finish := ⟨[], by simp, rfl⟩
  nonempty := by simp
  apart := List.pairwise_singleton ..
  lexeme := by simp [List.extract]
  line := by simp
  gapInFront := by simp [List.extract, Gap.nil]
  gaps := .singleton _

/-- Of a text with a token in the middle, the token is between where it starts and stops. -/
theorem extract_middle (before lexeme rest : List Char) :
    (before ++ lexeme ++ rest).extract before.length (before.length + lexeme.length) = lexeme := by
  simp [List.extract]

/-- What is matched without a token makes the gap longer. -/
theorem of_gap {r : Rule} (hlongest : Longest r lexeme (lexeme ++ rest))
    (hkind : r.kind? lexeme = none)
    (h : Tiles (before ++ lexeme ++ rest) (before.length + lexeme.length) tokens) :
    Tiles (before ++ lexeme ++ rest) before.length tokens where
  finish := h.finish
  nonempty := h.nonempty
  apart := h.apart
  lexeme := h.lexeme
  line := h.line
  gapInFront t ht := by
    obtain ⟨hstart, hgap⟩ := h.gapInFront t ht
    have hsplit : (before ++ lexeme ++ rest).extract before.length t.start =
        lexeme ++ (before ++ lexeme ++ rest).extract (before.length + lexeme.length) t.start := by
      have hlength : t.start - before.length =
          lexeme.length + (t.start - (before.length + lexeme.length)) := by omega
      simp [List.extract, List.append_assoc, hlength, List.take_length_add_append]
    have hfiller : lexeme ∈ Rule.language .blank ∨ lexeme ∈ Rule.language .comment := by
      have hmem := hlongest.mem
      cases r with
      | blank => exact .inl hmem
      | comment => exact .inr hmem
      | indent | number | word | unknown => cases hkind
      | sign =>
        obtain ⟨s, rfl⟩ := Rule.mem_sign.mp hmem
        rw [Rule.kind?, String.ofList_toList, Sign.ofText?_text] at hkind
        cases hkind
    refine ⟨by omega, hsplit ▸ hgap.append hfiller ?_⟩
    rintro rfl hhead
    have hnext : ((before ++ [' '] ++ rest).extract (before.length + 1) t.start).head? = some ' ' :=
      hhead
    rw [List.extract, List.head?_take] at hnext
    split at hnext
    · cases hnext
    · refine hlongest.head?_ne_space ?_
      simpa [List.append_assoc] using hnext
  gaps := h.gaps

theorem of_token {r : Rule} {kind : Kind} (hlongest : Longest r lexeme (lexeme ++ rest))
    (hkind : r.kind? lexeme = some kind)
    (h : Tiles (before ++ lexeme ++ rest) (before.length + lexeme.length) tokens) :
    Tiles (before ++ lexeme ++ rest) before.length
      (⟨kind, String.ofList lexeme, (1 + lineFeeds before : Nat), before.length,
        before.length + lexeme.length⟩ :: tokens) where
  finish := by
    obtain ⟨others, hothers, rfl⟩ := h.finish
    exact ⟨_ :: others, List.forall_mem_cons.mpr ⟨Rule.ne_finish_of_kind? hkind, hothers⟩, rfl⟩
  nonempty := by
    refine List.forall_mem_cons.mpr ⟨fun _ => ?_, h.nonempty⟩
    exact Nat.lt_add_of_pos_right (List.length_pos_of_ne_nil (Rule.ne_nil_of_mem hlongest.mem))
  apart := by
    refine List.pairwise_cons.mpr ⟨fun t ht => ?_, h.apart⟩
    -- the first of the tokens behind starts no sooner, and the others start behind it
    cases tokens with
    | nil => cases ht
    | cons first others =>
      have hfirst := (h.gapInFront first rfl).1
      rcases List.mem_cons.mp ht with rfl | ht
      · exact hfirst
      · have := (h.lexeme first (List.mem_cons_self ..)).1
        have := (List.pairwise_cons.mp h.apart).1 t ht
        exact hfirst.trans (by omega)
  lexeme := by
    refine List.forall_mem_cons.mpr ⟨⟨Nat.le_add_right .., by simp, ?_⟩, h.lexeme⟩
    rw [extract_middle]
  line := by
    refine List.forall_mem_cons.mpr ⟨?_, h.line⟩
    simp [List.append_assoc]
  gapInFront := by simp [List.extract, Gap.nil]
  gaps := h.gaps.cons fun t ht => (h.gapInFront t ht).2

end Tiles

/-- The tokens of the rest of a text tile it from there on. -/
theorem Cuts.tiles {cs : List Char} {fragments : List Fragment} (h : Cuts cs fragments)
    (before : List Char) :
    Tiles (before ++ cs) before.length
      (Token.streamFrom before.length (1 + lineFeeds before) cs) := by
  induction h generalizing before with
  | nil => simpa [Token.streamFrom] using Tiles.finish_only before
  | @cons r lexeme rest fragments longest cuts ih =>
    have hrest : Tiles (before ++ lexeme ++ rest) (before.length + lexeme.length)
        (Token.streamFrom (before.length + lexeme.length) (1 + lineFeeds before + lineFeeds lexeme)
          rest) := by
      simpa [lineFeeds_append, Nat.add_assoc] using ih (before ++ lexeme)
    rw [streamFrom_of_longest longest, ← List.append_assoc]
    cases hkind : r.kind? lexeme with
    | none => simpa [Fragment.token?, hkind] using hrest.of_gap longest hkind
    | some kind => simpa [Fragment.token?, hkind] using hrest.of_token longest hkind

/-- The lines of tokens that tile a text never decrease. -/
theorem Tiles.pairwise_line {text : List Char} {position : Nat} {tokens : List Token}
    (h : Tiles text position tokens) : tokens.Pairwise fun t u => t.line ≤ u.line := by
  refine h.apart.imp_of_mem fun {t u} ht hu hapart => ?_
  have horder : t.start ≤ u.start := (h.lexeme t ht).1.trans hapart
  rw [h.line t ht, h.line u hu]
  have hle : lineFeeds (text.take t.start) ≤ lineFeeds (text.take u.start) :=
    List.Sublist.count_le _ (List.take_prefix_take_left horder).sublist
  omega

/-- The tokens of every text tile it, on lines that never decrease. There is one way to cut the text
into longest matches, and they are the matches that have a kind. -/
theorem stream_tiles (text : String) :
    ∃ fragments, Cuts text.toList fragments ∧ (∀ others, Cuts text.toList others → others = fragments) ∧
      Token.stream text = dressed 0 1 fragments ++
        [⟨.finish, "", (1 + lineFeeds text.toList : Nat), text.toList.length, text.toList.length⟩] ∧
      Tiles text.toList 0 (Token.stream text) ∧
      (Token.stream text).Pairwise fun t u => t.line ≤ u.line := by
  obtain ⟨fragments, hcuts⟩ := exists_cuts text.toList
  have htiles : Tiles text.toList 0 (Token.stream text) := by
    simpa [Token.stream, lineFeeds] using hcuts.tiles []
  exact ⟨fragments, hcuts, fun others h => h.unique hcuts, stream_eq_dressed hcuts, htiles,
    htiles.pairwise_line⟩

end StackPrimer

import StackPrimer.Proofs.Scanning.Longest

/-!
# Texts cut into fragments

A text is cut by taking the longest match of any rule again and again. A rule matches at every place
of every text, so that cutting never gets stuck, and there is only one way to do it. The tokens of a
text are its fragments that have a kind, each with its place, and the end behind them.

Results:
* `exists_cuts`: every text can be cut.
* `Cuts.unique`: in one way only.
* `Cuts.streamFrom_eq`: the tokens of a text are its fragments, dressed with place and line.
-/

namespace StackPrimer

/-- A match of a rule in a text. -/
structure Fragment where
  rule : Rule
  text : List Char
  deriving DecidableEq, Repr

/-- Of one kind, with one lexeme and on one line, but perhaps in different places. -/
structure Token.Alike (t u : Token) : Prop where
  kind : t.kind = u.kind
  lexeme : t.lexeme = u.lexeme
  line : t.line = u.line

/-- The text is cut into the fragments, each of them the longest match where it stands. -/
inductive Cuts : List Char → List Fragment → Prop
  | nil : Cuts [] []
  | cons {r : Rule} {lexeme rest : List Char} {fragments : List Fragment}
      (longest : Longest r lexeme (lexeme ++ rest)) (cuts : Cuts rest fragments) :
      Cuts (lexeme ++ rest) (⟨r, lexeme⟩ :: fragments)

namespace Fragment

/-- The characters of fragments. -/
def characters (fragments : List Fragment) : List Char := (fragments.map Fragment.text).flatten

/-- The token that a fragment is, if it is one. -/
def token? (position line : Nat) (f : Fragment) : Option Token :=
  (f.rule.kind? f.text).map fun kind =>
    ⟨kind, String.ofList f.text, line, position, position + f.text.length⟩

/-- The tokens among fragments of which the first stands at `position` on `line`. -/
def dressed (position line : Nat) : List Fragment → List Token
  | [] => []
  | f :: fragments =>
    (f.token? position line).toList ++
      dressed (position + f.text.length) (line + lineFeeds f.text) fragments

@[simp] theorem characters_nil : characters [] = [] := rfl

@[simp] theorem characters_cons (f : Fragment) (fragments : List Fragment) :
    characters (f :: fragments) = f.text ++ characters fragments := rfl

@[simp] theorem characters_append (fs gs : List Fragment) :
    characters (fs ++ gs) = characters fs ++ characters gs := by
  simp [characters]

end Fragment

theorem lineFeeds_append (cs ds : List Char) :
    lineFeeds (cs ++ ds) = lineFeeds cs + lineFeeds ds :=
  List.count_append

open Fragment (characters dressed)

namespace Fragment

theorem dressed_append (position line : Nat) (fs gs : List Fragment) :
    dressed position line (fs ++ gs) = dressed position line fs ++
      dressed (position + (characters fs).length) (line + lineFeeds (characters fs)) gs := by
  induction fs generalizing position line with
  | nil => rfl
  | cons f fs ih =>
    simp only [List.cons_append, dressed, ih, List.append_assoc, characters_cons, List.length_append,
      lineFeeds_append, Nat.add_assoc]

/-- Fragments that hold anything are tokens within the text that they make up. -/
theorem bounds_of_mem_dressed {position line : Nat} {fs : List Fragment}
    (hfs : ∀ f ∈ fs, f.text ≠ []) {t : Token} (ht : t ∈ dressed position line fs) :
    position ≤ t.start ∧ t.start < position + (characters fs).length := by
  induction fs generalizing position line with
  | nil => cases ht
  | cons f fs ih =>
    obtain ⟨hf, hfs⟩ := List.forall_mem_cons.mp hfs
    have hpos := List.length_pos_of_ne_nil hf
    rw [characters_cons, List.length_append]
    rcases List.mem_append.mp ht with ht | ht
    · obtain ⟨k, -, rfl⟩ := Option.map_eq_some_iff.mp (Option.mem_toList.mp ht)
      exact ⟨Nat.le_refl _, by simp only; omega⟩
    · have := ih hfs ht
      omega

/-- Tokens are dressed with the same kind, lexeme and line wherever the fragments stand. -/
theorem forall₂_dressed (position position' line : Nat) (fs : List Fragment) :
    List.Forall₂ Token.Alike (dressed position line fs) (dressed position' line fs) := by
  induction fs generalizing position position' line with
  | nil => exact .nil
  | cons f fs ih =>
    rw [dressed, dressed, token?, token?]
    cases f.rule.kind? f.text with
    | none => exact ih ..
    | some k => exact .cons ⟨rfl, rfl, rfl⟩ (ih ..)

theorem kind_of_mem_dressed {position line : Nat} {fs : List Fragment} {t : Token}
    (ht : t ∈ dressed position line fs) : t.kind ≠ .finish := by
  induction fs generalizing position line with
  | nil => cases ht
  | cons f fs ih =>
    rcases List.mem_append.mp ht with ht | ht
    · obtain ⟨k, hk, rfl⟩ := Option.map_eq_some_iff.mp (Option.mem_toList.mp ht)
      exact Rule.ne_finish_of_kind? hk
    · exact ih ht

end Fragment

/-! ## Cutting -/

/-- A text that holds anything has a longest match, with at least one character. -/
theorem exists_longest {cs : List Char} (h : cs ≠ []) :
    ∃ r lexeme rest, cs = lexeme ++ rest ∧ lexeme ≠ [] ∧ Longest r lexeme (lexeme ++ rest) := by
  obtain ⟨c, cs, rfl⟩ := List.exists_cons_of_ne_nil h
  obtain ⟨r, hlongest, -⟩ := Piece.longest_first c cs
  obtain ⟨rest, hrest⟩ := hlongest.front
  exact ⟨r, _, rest, hrest.symm, Rule.ne_nil_of_mem hlongest.mem, hrest.symm ▸ hlongest⟩

/-- Every text can be cut. -/
theorem exists_cuts (cs : List Char) : ∃ fragments, Cuts cs fragments := by
  induction hn : cs.length using Nat.strong_induction_on generalizing cs with
  | h n ih =>
    by_cases hcs : cs = []
    · exact ⟨[], hcs ▸ .nil⟩
    · obtain ⟨r, lexeme, rest, rfl, hne, hlongest⟩ := exists_longest hcs
      have hshorter : rest.length < n := by
        simpa [← hn] using List.length_pos_of_ne_nil hne
      obtain ⟨fragments, hcuts⟩ := ih _ hshorter rest rfl
      exact ⟨_, .cons hlongest hcuts⟩

namespace Cuts

variable {cs : List Char} {fragments : List Fragment}

/-- The fragments are the text. -/
theorem characters_eq (h : Cuts cs fragments) : characters fragments = cs := by
  induction h with
  | nil => rfl
  | cons longest cuts ih => rw [Fragment.characters_cons, ih]

/-- Every fragment is a match of its rule. -/
theorem mem_language (h : Cuts cs fragments) : ∀ f ∈ fragments, f.text ∈ f.rule.language := by
  induction h with
  | nil => simp
  | cons longest cuts ih => exact List.forall_mem_cons.mpr ⟨longest.mem, ih⟩

/-- No fragment is empty. -/
theorem text_ne_nil (h : Cuts cs fragments) : ∀ f ∈ fragments, f.text ≠ [] :=
  fun f hf => Rule.ne_nil_of_mem (h.mem_language f hf)

theorem nil_iff : Cuts [] fragments ↔ fragments = [] := by
  constructor
  · intro h
    generalize hcs : ([] : List Char) = cs at h
    cases h with
    | nil => rfl
    | cons longest cuts =>
      exact absurd (List.append_eq_nil_iff.mp hcs.symm).1 (Rule.ne_nil_of_mem longest.mem)
  · rintro rfl
    exact .nil

/-- What is cut off first is the longest match. -/
theorem of_cons {f : Fragment} (h : Cuts cs (f :: fragments)) :
    ∃ rest, cs = f.text ++ rest ∧ Longest f.rule f.text (f.text ++ rest) ∧ Cuts rest fragments := by
  cases h with
  | cons longest cuts => exact ⟨_, rfl, longest, cuts⟩

/-- What is cut off first is the longest match, and the rest is cut by itself. -/
theorem of_longest {r : Rule} {lexeme rest : List Char} (hlongest : Longest r lexeme (lexeme ++ rest))
    (h : Cuts (lexeme ++ rest) fragments) :
    ∃ others, fragments = ⟨r, lexeme⟩ :: others ∧ Cuts rest others := by
  generalize hcs : lexeme ++ rest = cs at h
  cases h with
  | nil => exact absurd (List.append_eq_nil_iff.mp hcs).1 (Rule.ne_nil_of_mem hlongest.mem)
  | cons longest cuts =>
    rw [hcs] at hlongest
    obtain ⟨rfl, rfl⟩ := hlongest.unique longest
    obtain rfl := List.append_cancel_left hcs
    exact ⟨_, rfl, cuts⟩

/-- A text is cut in one way only. -/
theorem unique {others : List Fragment} (h : Cuts cs fragments) (h' : Cuts cs others) :
    fragments = others := by
  induction h generalizing others with
  | nil => exact (nil_iff.mp h').symm
  | cons longest cuts ih =>
    obtain ⟨others, rfl, hcuts⟩ := of_longest longest h'
    rw [ih hcuts]

/-- Reading on from the longest match: its token, if it is one, and the tokens of the rest. -/
theorem streamFrom_of_longest {r : Rule} {lexeme rest : List Char}
    (h : Longest r lexeme (lexeme ++ rest)) (position line : Nat) :
    Token.streamFrom position line (lexeme ++ rest) =
      (Fragment.token? position line ⟨r, lexeme⟩).toList ++
        Token.streamFrom (position + lexeme.length) (line + lineFeeds lexeme) rest := by
  obtain ⟨c, ds, rfl⟩ := List.exists_cons_of_ne_nil (Rule.ne_nil_of_mem h.mem)
  rw [List.cons_append] at h ⊢
  obtain ⟨hlexeme, hlength, hkind⟩ := h.of_first
  have htake : c :: (ds ++ rest).take ((Piece.first c (ds ++ rest)).length - 1) = c :: ds :=
    hlexeme.symm
  have hdrop : (ds ++ rest).drop ((Piece.first c (ds ++ rest)).length - 1) = rest := by
    rw [← hlength]
    simp
  rw [Token.streamFrom]
  simp only [htake, hdrop]
  rw [← hkind, ← hlength, Fragment.token?]
  cases r.kind? (c :: ds) <;> rfl

/-- The tokens of a text are its fragments, dressed with place and line, and the end. -/
theorem streamFrom_eq (h : Cuts cs fragments) (position line : Nat) :
    Token.streamFrom position line cs = dressed position line fragments ++
      [⟨.finish, "", (line + lineFeeds cs : Nat), position + cs.length, position + cs.length⟩] := by
  induction h generalizing position line with
  | nil => simp [Token.streamFrom, dressed, lineFeeds]
  | cons longest cuts ih =>
    rw [streamFrom_of_longest longest, ih, dressed, List.append_assoc]
    simp only [lineFeeds_append, List.length_append, Nat.add_assoc]

end Cuts

/-- The tokens of a text are its fragments, dressed with place and line, and the end. -/
theorem stream_eq_dressed {text : String} {fragments : List Fragment}
    (h : Cuts text.toList fragments) :
    Token.stream text = dressed 0 1 fragments ++
      [⟨.finish, "", (1 + lineFeeds text.toList : Nat), text.toList.length, text.toList.length⟩] := by
  rw [Token.stream, h.streamFrom_eq, Nat.zero_add]

end StackPrimer

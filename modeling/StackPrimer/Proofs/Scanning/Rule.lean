import Mathlib.Computability.Language
import StackPrimer.Proofs.Number.Lexeme

/-!
# The lexical rules

The rules by which a text is cut, each as the language of what it matches, and the longest match. Two
rules never match the same characters, so the longest match says which rule it is a match of, and no
order of the rules is needed to choose between them.

Results:
* `Rule.eq_of_mem`: what one rule matches, no other rule does.
* `Longest.unique`: a text has one longest match at most.
-/

namespace StackPrimer

open Computability
open Piece (isDigit isWordStart isWordPart)

/-- The rules by which a text is cut. -/
inductive Rule
  | blank
  | comment
  | indent
  | number
  | word
  | sign
  | unknown
  deriving DecidableEq, Repr

namespace Rule

/-! ## What the rules match -/

/-- One character of a class. -/
def one (p : Char → Bool) : Language Char := {cs | ∃ c, p c = true ∧ cs = [c]}

/-- One quote. -/
def quote : Language Char := one (· == '"')

/-- One character other than a quote. -/
def other : Language Char := one (· != '"')

/-- What a comment holds: quotes only in ones and twos, each time with something else behind. -/
def commentBody : Language Char := (other + quote * other + quote * quote * other)∗

/-- The characters that begin no other rule's match by themselves. -/
def isStray (c : Char) : Bool :=
  !(isWordPart c || [' ', '\t', '\r', '\n', '+', '*', '/', '(', ')', ':', ',', '=', '<', '>', '-'].contains c)

/-- What a rule matches. -/
def language : Rule → Language Char
  | blank => one fun c => c == ' ' || c == '\r' || c == '\n'
  | comment =>
    quote * quote * quote * commentBody * (1 + quote + quote * quote) * (quote * quote * quote)
  | indent => one (· == '\t') + one (· == ' ') * (one (· == ' ') * (one (· == ' '))∗)
  | number => one isDigit * (one isDigit)∗ * (1 + one (· == '.') * (one isDigit)∗)
  | word => one isWordStart * (one isWordPart)∗
  | sign => {cs | ∃ s : Sign, cs = s.text.toList}
  | unknown => one isStray

/-- The kind of the token that a match is, if it is one. -/
def kind? : Rule → List Char → Option Kind
  | blank, _ => none
  | comment, _ => none
  | indent, _ => some .indent
  | number, _ => some .number
  | word, cs => some (Piece.wordKind (String.ofList cs))
  | sign, cs => (Sign.ofText? (String.ofList cs)).map Kind.sign
  | unknown, _ => some .unknown

/-- No fragment is the end. -/
theorem ne_finish_of_kind? {r : Rule} {cs : List Char} {k : Kind} (h : r.kind? cs = some k) :
    k ≠ .finish := by
  rintro rfl
  cases r <;> simp [kind?] at h
  simp only [Piece.wordKind] at h
  split at h <;> cases h

theorem mem_one {p : Char → Bool} {cs : List Char} : cs ∈ one p ↔ ∃ c, p c = true ∧ cs = [c] :=
  Iff.rfl

theorem mem_kstar_one {p : Char → Bool} {cs : List Char} :
    cs ∈ (one p)∗ ↔ ∀ c ∈ cs, p c = true := by
  rw [Language.mem_kstar]
  constructor
  · rintro ⟨pieces, rfl, h⟩ c hc
    obtain ⟨piece, hpiece, hc⟩ := List.mem_flatten.mp hc
    obtain ⟨d, hd, rfl⟩ := h piece hpiece
    rwa [List.mem_singleton.mp hc]
  · intro h
    refine ⟨cs.map ([·]), by simp [← List.flatMap_def], ?_⟩
    intro piece hpiece
    obtain ⟨c, hc, rfl⟩ := List.mem_map.mp hpiece
    exact ⟨c, h c hc, rfl⟩

theorem mem_one_mul {p : Char → Bool} {l : Language Char} {cs : List Char} :
    cs ∈ one p * l ↔ ∃ c ds, p c = true ∧ ds ∈ l ∧ cs = c :: ds := by
  rw [Language.mem_mul]
  constructor
  · rintro ⟨_, ⟨c, hc, rfl⟩, ds, hds, rfl⟩
    exact ⟨c, ds, hc, hds, rfl⟩
  · rintro ⟨c, ds, hc, hds, rfl⟩
    exact ⟨[c], ⟨c, hc, rfl⟩, ds, hds, rfl⟩

theorem mem_blank {cs : List Char} :
    cs ∈ language blank ↔ cs = [' '] ∨ cs = ['\r'] ∨ cs = ['\n'] := by
  simp only [language, mem_one, Bool.or_eq_true, beq_iff_eq]
  constructor
  · rintro ⟨c, (rfl | rfl) | rfl, rfl⟩ <;> simp
  · rintro (rfl | rfl | rfl)
    · exact ⟨_, .inl (.inl rfl), rfl⟩
    · exact ⟨_, .inl (.inr rfl), rfl⟩
    · exact ⟨_, .inr rfl, rfl⟩

theorem mem_indent {cs : List Char} :
    cs ∈ language indent ↔ cs = ['\t'] ∨ ∃ n, cs = List.replicate (n + 2) ' ' := by
  simp only [language, Language.mem_add, mem_one, mem_one_mul, mem_kstar_one, beq_iff_eq]
  constructor
  · rintro (⟨c, rfl, rfl⟩ | ⟨_, _, rfl, ⟨_, ds, rfl, hds, rfl⟩, rfl⟩)
    · exact .inl rfl
    · rw [List.eq_replicate_of_mem hds]
      exact .inr ⟨ds.length, rfl⟩
  · rintro (rfl | ⟨n, rfl⟩)
    · exact .inl ⟨_, rfl, rfl⟩
    · exact .inr ⟨_, _, rfl, ⟨_, List.replicate n ' ', rfl, fun c => List.eq_of_mem_replicate, rfl⟩, rfl⟩

theorem mem_number {cs : List Char} : cs ∈ language number ↔ Numeral cs := by
  have hfraction (ds : List Char) :
      ds ∈ (1 + one (· == '.') * (one isDigit)∗ : Language Char) ↔
        ds = [] ∨ ∃ fraction, (∀ c ∈ fraction, isDigit c = true) ∧ ds = '.' :: fraction := by
    simp only [Language.mem_add, Language.mem_one, mem_one_mul, mem_kstar_one, beq_iff_eq]
    constructor
    · rintro (rfl | ⟨_, fraction, rfl, h, rfl⟩)
      · exact .inl rfl
      · exact .inr ⟨fraction, h, rfl⟩
    · rintro (rfl | ⟨fraction, h, rfl⟩)
      · exact .inl rfl
      · exact .inr ⟨_, fraction, rfl, h, rfl⟩
  simp only [language, mul_assoc, mem_one_mul]
  simp only [Language.mem_mul, mem_kstar_one, hfraction]
  constructor
  · rintro ⟨c, _, hc, ⟨whole, hwhole, _, rfl | ⟨fraction, hdigits, rfl⟩, rfl⟩, rfl⟩
    · exact ⟨c :: whole, [], by simp, List.forall_mem_cons.mpr ⟨hc, hwhole⟩, by simp,
        .inl (by simp)⟩
    · exact ⟨c :: whole, fraction, by simp, List.forall_mem_cons.mpr ⟨hc, hwhole⟩, hdigits,
        .inr (by simp)⟩
  · rintro ⟨_ | ⟨c, whole⟩, fraction, hne, hwhole, hdigits, h⟩
    · exact absurd rfl hne
    · obtain ⟨hc, hwhole⟩ := List.forall_mem_cons.mp hwhole
      rcases h with rfl | rfl
      · exact ⟨c, whole, hc, ⟨whole, hwhole, [], .inl rfl, by simp⟩, rfl⟩
      · exact ⟨c, _, hc, ⟨whole, hwhole, _, .inr ⟨fraction, hdigits, rfl⟩, rfl⟩, rfl⟩

theorem mem_word {cs : List Char} :
    cs ∈ language word ↔
      ∃ c ds, isWordStart c = true ∧ (∀ d ∈ ds, isWordPart d = true) ∧ cs = c :: ds := by
  simp only [language, mem_one_mul, mem_kstar_one]

theorem mem_sign {cs : List Char} : cs ∈ language sign ↔ ∃ s : Sign, cs = s.text.toList := Iff.rfl

theorem mem_unknown {cs : List Char} :
    cs ∈ language unknown ↔ ∃ c, isStray c = true ∧ cs = [c] := Iff.rfl

/-! ## Comments -/

/-- A character other than a quote, with two quotes in front of it at most. -/
def IsGroup (cs : List Char) : Prop := ∃ n c, n ≤ 2 ∧ c ≠ '"' ∧ cs = List.replicate n '"' ++ [c]

theorem mem_quotes {n : Nat} {cs : List Char} :
    cs ∈ quote ^ n ↔ cs = List.replicate n '"' := by
  induction n generalizing cs with
  | zero => simp
  | succ n ih =>
    simp only [pow_succ', quote, mem_one_mul, beq_iff_eq] at ih ⊢
    constructor
    · rintro ⟨_, ds, rfl, hds, rfl⟩
      rw [ih.mp hds, List.replicate_succ]
    · rintro rfl
      exact ⟨_, _, rfl, ih.mpr rfl, List.replicate_succ⟩

theorem mem_commentBody {cs : List Char} :
    cs ∈ commentBody ↔ ∃ groups : List (List Char), cs = groups.flatten ∧ ∀ g ∈ groups, IsGroup g := by
  have hgroup (g : List Char) :
      g ∈ (other + quote * other + quote * quote * other : Language Char) ↔ IsGroup g := by
    have hpow : (other + quote * other + quote * quote * other : Language Char) =
        quote ^ 0 * other + quote ^ 1 * other + quote ^ 2 * other := by
      rw [pow_zero, one_mul, pow_one, pow_two]
    rw [hpow]
    simp only [Language.mem_add, Language.mem_mul, mem_quotes, other, mem_one, bne_iff_ne]
    constructor
    · rintro ((⟨_, rfl, _, ⟨c, hc, rfl⟩, rfl⟩ | ⟨_, rfl, _, ⟨c, hc, rfl⟩, rfl⟩) |
        ⟨_, rfl, _, ⟨c, hc, rfl⟩, rfl⟩)
      · exact ⟨0, c, by omega, hc, rfl⟩
      · exact ⟨1, c, by omega, hc, rfl⟩
      · exact ⟨2, c, by omega, hc, rfl⟩
    · rintro ⟨n, c, hn, hc, rfl⟩
      obtain rfl | rfl | rfl : n = 0 ∨ n = 1 ∨ n = 2 := by omega
      · exact .inl (.inl ⟨_, rfl, _, ⟨c, hc, rfl⟩, rfl⟩)
      · exact .inl (.inr ⟨_, rfl, _, ⟨c, hc, rfl⟩, rfl⟩)
      · exact .inr ⟨_, rfl, _, ⟨c, hc, rfl⟩, rfl⟩
  simp only [commentBody, Language.mem_kstar, hgroup]

theorem nil_mem_commentBody : [] ∈ commentBody := Language.nil_mem_kstar _

theorem group_append_mem_commentBody {g cs : List Char} (hg : IsGroup g) (hcs : cs ∈ commentBody) :
    g ++ cs ∈ commentBody := by
  obtain ⟨groups, rfl, h⟩ := mem_commentBody.mp hcs
  exact mem_commentBody.mpr ⟨g :: groups, rfl, List.forall_mem_cons.mpr ⟨hg, h⟩⟩

/-- A body is empty or has a first group. -/
theorem commentBody_cases {cs : List Char} (h : cs ∈ commentBody) :
    cs = [] ∨ ∃ g ds, IsGroup g ∧ ds ∈ commentBody ∧ cs = g ++ ds := by
  obtain ⟨_ | ⟨g, groups⟩, rfl, hall⟩ := mem_commentBody.mp h
  · exact .inl rfl
  · obtain ⟨hg, hgroups⟩ := List.forall_mem_cons.mp hall
    exact .inr ⟨g, groups.flatten, hg, mem_commentBody.mpr ⟨groups, rfl, hgroups⟩, rfl⟩

theorem mem_comment {cs : List Char} :
    cs ∈ language comment ↔ ∃ body ∈ commentBody, ∃ n ≤ 2,
      cs = List.replicate 3 '"' ++ (body ++ List.replicate (n + 3) '"') := by
  have hpow : language comment =
      quote ^ 3 * (commentBody * ((quote ^ 0 + quote ^ 1 + quote ^ 2) * quote ^ 3)) := by
    simp only [language, pow_zero, pow_succ, one_mul, mul_assoc]
  rw [hpow]
  simp only [← pow_add, add_mul, Language.mem_mul, Language.mem_add, mem_quotes]
  constructor
  · rintro ⟨_, rfl, _, ⟨body, hbody, _, (rfl | rfl) | rfl, rfl⟩, rfl⟩
    · exact ⟨body, hbody, 0, by omega, rfl⟩
    · exact ⟨body, hbody, 1, by omega, rfl⟩
    · exact ⟨body, hbody, 2, by omega, rfl⟩
  · rintro ⟨body, hbody, n, hn, rfl⟩
    obtain rfl | rfl | rfl : n = 0 ∨ n = 1 ∨ n = 2 := by omega
    · exact ⟨_, rfl, _, ⟨body, hbody, _, .inl (.inl rfl), rfl⟩, rfl⟩
    · exact ⟨_, rfl, _, ⟨body, hbody, _, .inl (.inr rfl), rfl⟩, rfl⟩
    · exact ⟨_, rfl, _, ⟨body, hbody, _, .inr rfl, rfl⟩, rfl⟩

/-! ## One rule for each match -/

/-- The rule of a match that begins with `c`, which may be all of it. -/
def beginningWith (c : Char) (alone : Bool) : Rule :=
  if isDigit c then number
  else if isWordStart c then word
  else match c with
    | '\r' | '\n' => blank
    | '\t' => indent
    | ' ' => if alone then blank else indent
    | '"' => if alone then unknown else comment
    | '!' => if alone then unknown else sign
    | '=' | '<' | '>' | '+' | '-' | '*' | '/' | '(' | ')' | ':' | ',' => sign
    | _ => unknown

theorem isDigit_of_isWordStart {c : Char} (h : isWordStart c = true) : isDigit c = false := by
  simp only [isWordStart, Bool.or_eq_true, Bool.and_eq_true, decide_eq_true_eq, beq_iff_eq] at h
  rw [isDigit, Bool.and_eq_false_iff, decide_eq_false_iff_not, decide_eq_false_iff_not]
  rcases h with (⟨h, -⟩ | ⟨h, -⟩) | rfl
  · exact .inr fun h' => absurd (Char.le_trans h h') (by decide)
  · exact .inr fun h' => absurd (Char.le_trans h h') (by decide)
  · exact .inr (by decide)

theorem beginningWith_of_isStray {c : Char} (h : isStray c = true) :
    beginningWith c true = unknown := by
  simp only [isStray, isWordPart, Bool.not_eq_true', Bool.or_eq_false_iff, List.contains_eq_mem,
    decide_eq_false_iff_not, List.mem_cons, not_or] at h
  unfold beginningWith
  rw [if_neg (by simp [h]), if_neg (by simp [h])]
  split <;> simp_all

/-- Every match begins with a character that, with whether more follows, tells its rule. -/
theorem exists_beginningWith {r : Rule} {cs : List Char} (h : cs ∈ r.language) :
    ∃ c ds, cs = c :: ds ∧ beginningWith c ds.isEmpty = r := by
  cases r with
  | blank => rcases mem_blank.mp h with rfl | rfl | rfl <;> exact ⟨_, [], rfl, by decide⟩
  | comment =>
    obtain ⟨body, -, n, -, rfl⟩ := mem_comment.mp h
    exact ⟨'"', _, rfl, rfl⟩
  | indent =>
    rcases mem_indent.mp h with rfl | ⟨n, rfl⟩
    · exact ⟨_, [], rfl, by decide⟩
    · exact ⟨' ', _, rfl, rfl⟩
  | number =>
    obtain ⟨_ | ⟨c, whole⟩, fraction, hne, hwhole, -, h⟩ := mem_number.mp h
    · exact absurd rfl hne
    · have hc := hwhole c (List.mem_cons_self ..)
      rcases h with rfl | rfl <;> exact ⟨c, _, rfl, by simp [beginningWith, hc]⟩
  | word =>
    obtain ⟨c, ds, hc, -, rfl⟩ := mem_word.mp h
    exact ⟨c, ds, rfl, by simp [beginningWith, hc, isDigit_of_isWordStart hc]⟩
  | sign =>
    obtain ⟨s, rfl⟩ := mem_sign.mp h
    cases s <;> exact ⟨_, _, rfl, by decide⟩
  | unknown =>
    obtain ⟨c, hc, rfl⟩ := mem_unknown.mp h
    exact ⟨c, [], rfl, beginningWith_of_isStray hc⟩

/-- No rule matches nothing. -/
theorem ne_nil_of_mem {r : Rule} {cs : List Char} (h : cs ∈ r.language) : cs ≠ [] := by
  obtain ⟨c, ds, rfl, -⟩ := exists_beginningWith h
  exact List.cons_ne_nil c ds

/-- The rule of a match that begins with a quote. -/
theorem eq_of_quote_mem {r : Rule} {cs : List Char} (h : '"' :: cs ∈ r.language) :
    r = if cs.isEmpty then unknown else comment := by
  obtain ⟨_, _, heq, hrule⟩ := exists_beginningWith h
  obtain ⟨rfl, rfl⟩ := List.cons.inj heq
  exact hrule.symm

/-- What one rule matches, no other rule does. -/
theorem eq_of_mem {r r' : Rule} {cs : List Char} (h : cs ∈ r.language) (h' : cs ∈ r'.language) :
    r = r' := by
  obtain ⟨c, ds, rfl, rfl⟩ := exists_beginningWith h
  obtain ⟨_, _, heq, rfl⟩ := exists_beginningWith h'
  obtain ⟨rfl, rfl⟩ := List.cons.inj heq
  rfl

end Rule

/-! ## The longest match -/

/-- A match of the rule stands at the front of the text, and no rule has a longer one there. -/
structure Longest (r : Rule) (lexeme text : List Char) : Prop where
  mem : lexeme ∈ r.language
  front : lexeme <+: text
  longest : ∀ r' : Rule, ∀ other ∈ r'.language, other <+: text → other.length ≤ lexeme.length

namespace Longest

variable {r r' : Rule} {lexeme lexeme' text : List Char}

/-- There is one longest match at most, and one rule that it is a match of. -/
theorem unique (h : Longest r lexeme text) (h' : Longest r' lexeme' text) :
    r = r' ∧ lexeme = lexeme' := by
  have hlength : lexeme.length = lexeme'.length :=
    Nat.le_antisymm (h'.longest r lexeme h.mem h.front) (h.longest r' lexeme' h'.mem h'.front)
  obtain rfl : lexeme = lexeme' := by
    rw [List.prefix_iff_eq_take.mp h.front, List.prefix_iff_eq_take.mp h'.front, hlength]
  exact ⟨Rule.eq_of_mem h.mem h'.mem, rfl⟩

end Longest

end StackPrimer

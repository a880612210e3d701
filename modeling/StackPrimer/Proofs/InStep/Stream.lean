import StackPrimer.Compilation.Program
import StackPrimer.Proofs.OnePass.Action

/-!
# Streams that correspond

Two streams correspond if they hold tokens of the same kinds in the same order, the names of the one
being those of the other under new names, while indentation may differ in depth. How often a place is
indented never matters, and where an `else` or the end comes next it does not matter whether it is
indented at all, except behind a colon, where a block has to begin.

Results:
* `Streams.heads`: the tokens in front correspond, or each of them ends what is no statement.
* `Streams.loose`: what stands behind the indentation in front corresponds.
-/

namespace StackPrimer

/-- Whether a token of this kind ends every sequence of tokens other than one of statements. -/
def Kind.isSoft : Kind → Bool
  | .indent | .finish | .word .elseWord => true
  | _ => false

namespace Compilation

/-- How the tokens of two streams correspond. -/
structure Pairing where
  /-- The name in the second stream of each name in the first one. -/
  rename : String → String
  injective : Function.Injective rename
  /-- Whether the tokens stand for one another. -/
  same : Token → Token → Prop
  /-- Whether the tokens may be looked at instead of one another where the indentation differs. -/
  apart : Token → Token → Prop
  kind_eq {t u : Token} : same t u → u.kind = t.kind
  name_eq {t u : Token} : same t u → t.kind = .name → u.lexeme = rename t.lexeme
  number_eq {t u : Token} : same t u → t.kind = .number → u.lexeme = t.lexeme

/-- A relation between the tokens that two compilations have before them. -/
abbrev Side := List Token → List Token → Prop

/-- Of the same kind in front. -/
def SameHead (ts us : List Token) : Prop := ts.head?.map Token.kind = us.head?.map Token.kind

/-- The streams correspond. -/
inductive Streams (c : Pairing) : Side
  | nil : Streams c [] []
  | token {t u : Token} {ts us : List Token} (same : c.same t u)
      (level : t.kind = .sign .colon → SameHead ts us) (rest : Streams c ts us) :
      Streams c (t :: ts) (u :: us)
  | gap {ms ns : List Token} {t u : Token} {ts us : List Token}
      (left : ∀ m ∈ ms, m.kind = .indent) (right : ∀ n ∈ ns, n.kind = .indent)
      (apart : ∀ v ∈ (ms ++ t :: ts).head?, ∀ w ∈ (ns ++ u :: us).head?, c.apart v w)
      (place : ms ≠ [] ∧ ns ≠ [] ∨ t.kind = .finish ∨ t.kind = .word .elseWord)
      (kind : t.kind ≠ .indent) (same : c.same t u)
      (level : t.kind = .sign .colon → SameHead ts us) (rest : Streams c ts us) :
      Streams c (ms ++ t :: ts) (ns ++ u :: us)

/-- These tokens stand in front, and what stands behind them corresponds. -/
def Facing (c : Pairing) (t u : Token) : Side := fun ts us =>
  ∃ ts' us', ts = t :: ts' ∧ us = u :: us' ∧ c.same t u ∧ Streams c ts' us' ∧
    (t.kind = .sign .colon → SameHead ts' us')

/-- The streams correspond from a token on that is no indentation. -/
def Settled (c : Pairing) : Side := fun ts us => ∃ t u, t.kind ≠ .indent ∧ Facing c t u ts us

/-- The tokens behind the indentation in front. -/
def afterIndents (ts : List Token) : List Token := ts.dropWhile (·.kind = .indent)

/-- The streams correspond behind the indentation in front. -/
def Loose (c : Pairing) : Side := fun ts us =>
  afterIndents ts = [] ∧ afterIndents us = [] ∨ Settled c (afterIndents ts) (afterIndents us)

/-- The streams correspond, and the tokens in front are of the same kind. -/
def Aligned (c : Pairing) : Side := fun ts us => Streams c ts us ∧ SameHead ts us

variable {c : Pairing} {t u : Token} {ts us : List Token}

theorem Facing.streams (h : Facing c t u ts us) : Streams c ts us := by
  obtain ⟨ts', us', rfl, rfl, hsame, hrest, hlevel⟩ := h
  exact .token hsame hlevel hrest

theorem Settled.streams (h : Settled c ts us) : Streams c ts us := by
  obtain ⟨t, u, -, hfacing⟩ := h
  exact hfacing.streams

/-! ## Indentation in front -/

theorem afterIndents_append {ms : List Token} (h : ∀ t ∈ ms, t.kind = .indent) (ts : List Token) :
    afterIndents (ms ++ ts) = afterIndents ts :=
  List.dropWhile_append_of_pos (by simpa using h)

theorem afterIndents_cons_indent (h : t.kind = .indent) : afterIndents (t :: ts) = afterIndents ts :=
  List.dropWhile_cons_of_pos (by simpa using h)

theorem afterIndents_cons (h : t.kind ≠ .indent) : afterIndents (t :: ts) = t :: ts :=
  List.dropWhile_cons_of_neg (by simpa using h)

/-- What stands behind the indentation in front corresponds. -/
theorem Streams.loose (h : Streams c ts us) : Loose c ts us := by
  induction h with
  | nil => exact .inl ⟨rfl, rfl⟩
  | @token t u ts us same level rest ih =>
    have hu := c.kind_eq same
    by_cases hk : t.kind = .indent
    · rwa [Loose, afterIndents_cons_indent hk, afterIndents_cons_indent (hu.trans hk)]
    · refine .inr ?_
      rw [afterIndents_cons hk, afterIndents_cons (by rwa [hu])]
      exact ⟨t, u, hk, ts, us, rfl, rfl, same, rest, level⟩
  | gap left right apart place kind same level rest ih =>
    refine .inr ?_
    rw [afterIndents_append left, afterIndents_append right, afterIndents_cons kind,
      afterIndents_cons (by rwa [c.kind_eq same])]
    exact ⟨_, _, kind, _, _, rfl, rfl, same, rest, level⟩

/-! ## Tokens in front -/

/-- In front of indentation or what stands behind it there is a token that ends whatever is no
statement. -/
theorem isSoft_of_head? {ms : List Token} (h : ∀ m ∈ ms, m.kind = .indent)
    (hplace : ms ≠ [] ∨ t.kind = .finish ∨ t.kind = .word .elseWord) (ts : List Token) :
    ∃ v vs, ms ++ t :: ts = v :: vs ∧ v.kind.isSoft = true := by
  cases ms with
  | nil =>
    refine ⟨t, ts, rfl, ?_⟩
    rcases hplace with hms | hk | hk
    · exact absurd rfl hms
    · rw [hk]
      rfl
    · rw [hk]
      rfl
  | cons m ms =>
    refine ⟨m, _, rfl, ?_⟩
    rw [h m (List.mem_cons_self ..)]
    rfl

/-- The tokens in front correspond, or each of them ends what is no statement. -/
theorem Streams.heads (h : Streams c ts us) :
    ts = [] ∧ us = [] ∨ ∃ t ts' u us', ts = t :: ts' ∧ us = u :: us' ∧
      (c.same t u ∨ t.kind.isSoft = true ∧ u.kind.isSoft = true ∧ c.apart t u) := by
  cases h with
  | nil => exact .inl ⟨rfl, rfl⟩
  | token same level rest => exact .inr ⟨_, _, _, _, rfl, rfl, .inl same⟩
  | @gap ms ns t u ts us left right apart place kind same level rest =>
    have hplace : ns ≠ [] ∨ u.kind = .finish ∨ u.kind = .word .elseWord := by
      rw [c.kind_eq same]
      exact place.imp_left (·.2)
    obtain ⟨v, vs, hv, hvsoft⟩ := isSoft_of_head? left (place.imp_left (·.1)) ts
    obtain ⟨w, ws, hw, hwsoft⟩ := isSoft_of_head? right hplace us
    refine .inr ⟨v, vs, w, ws, hv, hw, .inr ⟨hvsoft, hwsoft, ?_⟩⟩
    exact apart v (by rw [hv]; rfl) w (by rw [hw]; rfl)

/-- A token in front that does not end whatever is no statement corresponds to the other one. -/
theorem Streams.facing (h : Streams c (t :: ts) us) (ht : t.kind.isSoft = false) :
    ∃ u, Facing c t u (t :: ts) us := by
  generalize hts : t :: ts = ts' at h
  cases h with
  | nil => cases hts
  | token same level rest =>
    cases hts
    exact ⟨_, _, _, rfl, rfl, same, rest, level⟩
  | gap left right apart place kind same level rest =>
    -- the token would be indentation, an `else` or the end
    obtain ⟨v, vs, hv, hvsoft⟩ := isSoft_of_head? left (place.imp_left (·.1)) _
    obtain ⟨rfl, -⟩ := List.cons.inj (hts.trans hv)
    rw [hvsoft] at ht
    cases ht

/-- Behind one indentation on each side there are tokens on both sides or on neither. -/
theorem Streams.tail_eq_nil_iff (h : Streams c (t :: ts) (u :: us)) (ht : t.kind = .indent)
    (hu : u.kind = .indent) : ts = [] ↔ us = [] := by
  generalize hts : t :: ts = ts' at h
  generalize hus : u :: us = us' at h
  cases h with
  | nil => cases hts
  | token same level rest =>
    cases hts
    cases hus
    rcases rest.heads with ⟨rfl, rfl⟩ | ⟨_, _, _, _, rfl, rfl, -⟩ <;> simp
  | @gap ms ns v w vs ws left right apart place kind same level rest =>
    -- behind one indentation there is more of it or the token that comes next
    have htail : ∀ {xs ys zs : List Token} {x y : Token}, x :: xs = ys ++ y :: zs →
        x.kind = .indent → y.kind ≠ .indent → xs ≠ [] := by
      rintro _ (_ | ⟨z, ys⟩) zs x y h hx hy rfl
      · cases h
        exact hy hx
      · simp at h
    exact iff_of_false (htail hts ht kind) (htail hus hu (by rwa [c.kind_eq same]))

end Compilation

end StackPrimer

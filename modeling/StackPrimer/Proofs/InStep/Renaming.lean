import Mathlib.Data.Set.Finite.Lattice
import StackPrimer.Proofs.InStep.BlankLine
import StackPrimer.Proofs.Prefix.Program

/-!
# What names are called does not matter

Names are compared with one another, and nothing else is asked about them; nor does it matter where a
token stands in a text. So a stream in which names are replaced by others, different ones by different
ones, has the same program, or it fails for the same reason at the token in the same place.

What becomes of a stream is told by a verdict, in which a token is a place in the stream. Two equal
tokens are in different places, so that a verdict tells which of them is meant.

Results:
* `exists_injective_eqOn`: a renaming of some names extends to one of all names.
* `compileTokens_error`: why a stream fails, whether or not it has an end.
* `exists_verdict`: there is one verdict on all streams that differ in names and places only.
-/

namespace StackPrimer

/-- The second token is the first one, under its new name if it is a name; it may stand elsewhere. -/
structure Token.Renamed (f : String → String) (t u : Token) : Prop where
  kind : u.kind = t.kind
  lexeme : u.lexeme = if t.kind = .name then f t.lexeme else t.lexeme

/-- The names in a stream. -/
def Token.names (ts : List Token) : Set String := {x | ∃ t ∈ ts, t.kind = .name ∧ t.lexeme = x}

theorem Token.finite_names (ts : List Token) : (Token.names ts).Finite := by
  refine ((List.finite_toSet ts).image Token.lexeme).subset ?_
  rintro x ⟨t, ht, -, rfl⟩
  exact ⟨t, ht, rfl⟩

theorem Token.Renamed.of_eqOn {f g : String → String} {ts : List Token} {t u : Token}
    (h : t.Renamed f u) (ht : t ∈ ts) (hfg : Set.EqOn g f (Token.names ts)) : t.Renamed g u := by
  refine ⟨h.kind, h.lexeme.trans ?_⟩
  by_cases hk : t.kind = .name
  · rw [if_pos hk, if_pos hk, hfg ⟨t, ht, hk, rfl⟩]
  · rw [if_neg hk, if_neg hk]

/-- A renaming of finitely many names extends to all names: the others get a beginning that is longer
than any new name. -/
theorem exists_injective_eqOn {f : String → String} {names : Set String} (hfinite : names.Finite)
    (hf : Set.InjOn f names) : ∃ g : String → String, Function.Injective g ∧ Set.EqOn g f names := by
  classical
  obtain ⟨bound, hbound⟩ := (hfinite.image fun x => (f x).length).bddAbove
  have hshort : ∀ x ∈ names, (f x).length ≤ bound := fun x hx => hbound ⟨x, hx, rfl⟩
  set beginning := String.ofList (List.replicate (bound + 1) '_')
  have hlong : ∀ x y : String, y ∈ names → beginning ++ x ≠ f y := by
    intro x y hy heq
    have hlength := congrArg String.length heq
    have hle := hshort y hy
    simp [beginning] at hlength
    omega
  refine ⟨fun x => if x ∈ names then f x else beginning ++ x, fun x y h => ?_, fun x hx => if_pos hx⟩
  by_cases hx : x ∈ names <;> by_cases hy : y ∈ names
  · simp only [if_pos hx, if_pos hy] at h
    exact hf hx hy h
  · simp only [if_pos hx, if_neg hy] at h
    exact absurd h.symm (hlong y x hx)
  · simp only [if_neg hx, if_pos hy] at h
    exact absurd h (hlong x y hy)
  · simpa only [if_neg hx, if_neg hy, String.append_right_inj] using h

namespace Compilation

/-! ## Streams of the same length -/

/-- Streams whose tokens correspond one by one have outcomes that correspond. -/
theorem compileTokens_agree_of_forall₂ {c : Pairing} {ts us : List Token}
    (h : List.Forall₂ c.same ts us) : c.Agree (compileTokens ts) (compileTokens us) := by
  cases h with
  | nil => exact .error .outOfTokens
  | @cons t u ts us hsame hrest =>
    have hstreams : Streams c (t :: ts) (u :: us) := .of_forall₂ (.cons hsame hrest)
    have hbudget : State.budget ⟨u, us, {}, {}⟩ = State.budget ⟨t, ts, {}, {}⟩ := by
      rw [State.budget, State.budget, hrest.length_eq]
    refine agree_of_ends (q := Settled c) ?_
    rw [program, program, hbudget]
    exact inStep_program _ _ _ ⟨hstreams, .empty c, rfl⟩

/-- A stream fails for want of tokens, or in a way that tokens can cause. -/
theorem compileTokens_error {ts : List Token} {e : Failure} (h : compileTokens ts = .error e) :
    e = .outOfTokens ∨ ∃ us, e.Announced us := by
  cases ts with
  | nil =>
    cases h
    exact .inl rfl
  | cons t ts =>
    rw [or_iff_not_imp_left]
    intro he
    obtain ⟨s, hs⟩ : ∃ s, program ⟨t, ts, {}, {}⟩ = .error e s := by
      rw [compileTokens_cons] at h
      cases hp : program ⟨t, ts, {}, {}⟩ with
      | ok p s => simp [hp] at h
      | error e' s =>
        obtain rfl : e' = e := by simpa [hp] using h
        exact ⟨s, rfl⟩
    -- with an end behind it the stream fails in the same way
    set last := token .finish ""
    have hfinish : ∃ u ∈ t :: (ts ++ [last]), u.kind = .finish := ⟨last, by simp, rfl⟩
    have hempty : program (State.before ⟨t, ts, {}, {}⟩ []) = .error e (s.before []) := by
      simpa using hs
    have hprogram : program ⟨t, ts ++ [last], {}, {}⟩ = .error e (s.before [last]) := by
      rcases program_of_prefix hempty he [last] with hsame | ⟨s', hout⟩
      · exact hsame
      · exact absurd hout (complete_program hfinish s')
    refine ⟨t :: (ts ++ [last]), run_error hfinish ?_⟩
    simp only [run, hprogram]

/-! ## Verdicts -/

/-- What becomes of a stream: its program with the number of globals, or why it fails, and in which
place. -/
inductive Verdict
  | accepted (p : Program) (globals : Nat)
  | unexpected (place : Nat) (expected : Expectation)
  | undeclared (role : Role) (place : Nat)
  | redefined (place : Nat)
  | badNumber (lexeme : String)
  | outOfTokens

/-- The outcome that the verdict tells of a stream. -/
def Verdict.on (us : List Token) : Verdict → Option (Except Failure (Program × Nat))
  | accepted p globals => some (.ok (p, globals))
  | unexpected place expected => us[place]?.map fun u => .error (.unexpected u expected)
  | undeclared role place => us[place]?.map fun u => .error (.undeclared role u)
  | redefined place => us[place]?.map fun u => .error (.redefined u)
  | badNumber lexeme => some (.error (.badNumber lexeme))
  | outOfTokens => some (.error .outOfTokens)

/-- The stream with the place of each token for its line, so that no two tokens are the same. -/
def numbered (ts : List Token) : List Token := ts.mapIdx fun place t => { t with line := place }

theorem line_of_numbered {ts : List Token} {place : Nat} {t : Token}
    (h : (numbered ts)[place]? = some t) : t.line.toNat = place := by
  rw [numbered, List.getElem?_mapIdx, Option.map_eq_some_iff] at h
  obtain ⟨t, -, rfl⟩ := h
  rfl

/-- Tokens correspond if they are in the same place of these streams. -/
def placePairing {g : String → String} (hg : Function.Injective g) (ts us : List Token) :
    Pairing where
  rename := g
  injective := hg
  same t u := t.Renamed g u ∧ ∃ place : Nat, ts[place]? = some t ∧ us[place]? = some u
  apart _ _ := False
  kind_eq h := h.1.kind
  name_eq h hk := by rw [h.1.lexeme, if_pos hk]
  number_eq h hk := by rw [h.1.lexeme, if_neg (by simp [hk])]

/-- A stream corresponds place by place to one that has been numbered. -/
theorem forall₂_numbered {f g : String → String} {ts us : List Token}
    (h : List.Forall₂ (Token.Renamed f) ts us) (hg : Function.Injective g)
    (hfg : Set.EqOn g f (Token.names ts)) :
    List.Forall₂ (placePairing hg (numbered ts) us).same (numbered ts) us := by
  obtain ⟨hlength, hrenamed⟩ := List.forall₂_iff_get.mp h
  refine List.forall₂_iff_get.mpr ⟨by simpa [numbered] using hlength, fun place hts hus => ?_⟩
  have hts' : place < ts.length := by simpa [numbered] using hts
  have hsame := (hrenamed place hts' hus).of_eqOn (List.get_mem ..) hfg
  refine ⟨⟨?_, ?_⟩, place, by simp, by simp⟩
  · simpa [numbered] using hsame.kind
  · simpa [numbered] using hsame.lexeme

/-- A failure of a stream that has been numbered tells the place of its token, which is the place
where every stream fails that agrees with it. -/
theorem exists_verdict_of_failure {ts : List Token} {e : Failure}
    (he : e = .outOfTokens ∨ ∃ us, e.Announced us) :
    ∃ v : Verdict, ∀ {g : String → String} (hg : Function.Injective g) (us : List Token)
      (e' : Failure), (placePairing hg (numbered ts) us).Fails e e' → v.on us = some (.error e') := by
  have hplace : ∀ {g : String → String} {hg : Function.Injective g} {us : List Token} {t u : Token},
      (placePairing hg (numbered ts) us).same t u → us[t.line.toNat]? = some u := by
    rintro g hg us t u ⟨-, place, ht, hu⟩
    rw [line_of_numbered ht, hu]
  rcases he with rfl | ⟨_, hannounced⟩
  · refine ⟨.outOfTokens, fun hg us e' h => ?_⟩
    cases h
    rfl
  cases hannounced with
  | unexpected t expected =>
    refine ⟨.unexpected t.line.toNat expected, fun hg us e' h => ?_⟩
    cases h with
    | unexpected h => rw [Verdict.on, hplace (h.resolve_right not_false), Option.map_some]
  | undeclared role t =>
    refine ⟨.undeclared role t.line.toNat, fun hg us e' h => ?_⟩
    cases h with
    | undeclared _ h => rw [Verdict.on, hplace h, Option.map_some]
  | redefined t =>
    refine ⟨.redefined t.line.toNat, fun hg us e' h => ?_⟩
    cases h with
    | redefined h => rw [Verdict.on, hplace h, Option.map_some]
  | @badNumber t =>
    refine ⟨.badNumber t.lexeme, fun hg us e' h => ?_⟩
    cases h
    rfl

/-- From the outcome of a stream that has been numbered a verdict can be read off, which is one on
every stream that agrees with it. -/
theorem exists_verdict_of_numbered (ts : List Token) {x : Except Failure (Program × Nat)}
    (hx : ∀ e, x = .error e → e = .outOfTokens ∨ ∃ us, e.Announced us) :
    ∃ v : Verdict, ∀ {g : String → String} (hg : Function.Injective g) (us : List Token)
      (y : Except Failure (Program × Nat)), (placePairing hg (numbered ts) us).Agree x y →
        v.on us = some y := by
  cases x with
  | ok result =>
    refine ⟨.accepted result.1 result.2, fun hg us y h => ?_⟩
    cases h
    rfl
  | error e =>
    obtain ⟨v, hv⟩ := exists_verdict_of_failure (hx e rfl)
    refine ⟨v, fun hg us y h => ?_⟩
    cases h with
    | error h => exact hv hg us _ h

/-- There is one verdict on a stream and on every stream that differs from it in names and places
only, where different names have become different names. -/
theorem exists_verdict (ts : List Token) :
    ∃ v : Verdict, v.on ts = some (compileTokens ts) ∧
      ∀ (f : String → String) (us : List Token), Set.InjOn f (Token.names ts) →
        List.Forall₂ (Token.Renamed f) ts us → v.on us = some (compileTokens us) := by
  obtain ⟨v, hv⟩ := exists_verdict_of_numbered ts (x := compileTokens (numbered ts))
    fun e => compileTokens_error
  have hrenamed : ∀ (f : String → String) (us : List Token), Set.InjOn f (Token.names ts) →
      List.Forall₂ (Token.Renamed f) ts us → v.on us = some (compileTokens us) := by
    intro f us hf h
    obtain ⟨g, hg, hfg⟩ := exists_injective_eqOn (Token.finite_names ts) hf
    exact hv hg us _ (compileTokens_agree_of_forall₂ (forall₂_numbered h hg hfg))
  refine ⟨v, hrenamed id ts (Set.injOn_id _) ?_, hrenamed⟩
  exact List.forall₂_same.mpr fun t _ => ⟨rfl, by simp⟩

/-- The same statement twice, which prints a variable that has no value. -/
def unsetTokens : List Token :=
  [token (.word .printWord) "print", token (.sign .opening) "(", token .name "x",
    token (.sign .closing) ")", token (.word .printWord) "print", token (.sign .opening) "(",
    token .name "x", token (.sign .closing) ")", token .finish ""]

/-- The statements on lines of their own, with another variable. -/
def renamedTokens : List Token :=
  [⟨.word .printWord, "print", 3, 0, 5⟩, ⟨.sign .opening, "(", 3, 5, 6⟩, ⟨.name, "y", 3, 6, 7⟩,
    ⟨.sign .closing, ")", 3, 7, 8⟩, ⟨.word .printWord, "print", 4, 9, 14⟩,
    ⟨.sign .opening, "(", 4, 14, 15⟩, ⟨.name, "y", 4, 15, 16⟩, ⟨.sign .closing, ")", 4, 16, 17⟩,
    ⟨.finish, "", 5, 18, 18⟩]

/-- Both fail at the variable in the same place. -/
theorem exists_verdict_unset :
    Set.InjOn (Equiv.swap "x" "y") (Token.names unsetTokens) ∧
      List.Forall₂ (Token.Renamed (Equiv.swap "x" "y")) unsetTokens renamedTokens ∧
      ∃ v : Verdict, v.on unsetTokens = some (compileTokens unsetTokens) ∧
        v.on renamedTokens = some (compileTokens renamedTokens) := by
  have hinjective : Set.InjOn (Equiv.swap "x" "y") (Token.names unsetTokens) :=
    (Equiv.injective _).injOn
  have hrenamed : List.Forall₂ (Token.Renamed (Equiv.swap "x" "y")) unsetTokens renamedTokens := by
    unfold unsetTokens renamedTokens
    repeat' apply List.Forall₂.cons
    all_goals first | exact .nil | exact ⟨rfl, by decide⟩
  obtain ⟨v, hv, hall⟩ := exists_verdict unsetTokens
  exact ⟨hinjective, hrenamed, v, hv, hall _ _ hinjective hrenamed⟩

end Compilation

end StackPrimer

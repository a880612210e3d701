import StackPrimer.Proofs.Scanning.LineBreak

/-!
# Tokens written out and read again

Whatever a rule matches that has a kind is a token of some text, and the lexeme alone tells the kind.
Written one in each line, lexemes are read back as the same tokens, since no match but a comment goes on
in the next line, and no comment begins with a token in front of a line break.

Results:
* `scanned_iff`: which kinds and lexemes the tokens of texts have.
* `tokens_of_lexemes`: tokens are recovered from their lexemes.
-/

namespace StackPrimer

open Fragment (dressed)

/-- A token of this kind, other than the end, has this lexeme in some text. -/
def Scanned (kind : Kind) (lexeme : String) : Prop :=
  ∃ text, ∃ t ∈ Token.stream text, t.kind = kind ∧ t.lexeme = lexeme ∧ t.kind ≠ .finish

/-- What a token is, but for its place. -/
def Token.seen (t : Token) : Kind × String × Int := (t.kind, t.lexeme, t.line)

/-- What tokens of these kinds with these lexemes are if they stand one in each line from this one on. -/
def onLines (line : Nat) (ps : List (Kind × String)) : List (Kind × String × Int) :=
  (ps.zipIdx line).map fun (p, i) => (p.1, p.2, (i : Int))

theorem onLines_cons (line : Nat) (p : Kind × String) (ps : List (Kind × String)) :
    onLines line (p :: ps) = (p.1, p.2, (line : Int)) :: onLines (line + 1) ps := by
  simp [onLines]

theorem map_onLines (line : Nat) (ps : List (Kind × String)) :
    (onLines line ps).map (fun v => (v.1, v.2.1)) = ps := by
  induction ps generalizing line with
  | nil => rfl
  | cons p ps ih => rw [onLines_cons, List.map_cons, ih]

variable {kind : Kind} {lexeme : String} {rest : List Char}

/-- A token has the kind and the characters of a fragment. -/
theorem Fragment.exists_of_mem_dressed {position line : Nat} {fs : List Fragment} {t : Token}
    (ht : t ∈ dressed position line fs) :
    ∃ f ∈ fs, f.rule.kind? f.text = some t.kind ∧ t.lexeme = String.ofList f.text := by
  induction fs generalizing position line with
  | nil => cases ht
  | cons f fs ih =>
    rcases List.mem_append.mp ht with ht | ht
    · obtain ⟨k, hk, rfl⟩ := Option.map_eq_some_iff.mp (Option.mem_toList.mp ht)
      exact ⟨f, List.mem_cons_self .., hk, rfl⟩
    · obtain ⟨g, hg, h⟩ := ih ht
      exact ⟨g, List.mem_cons_of_mem _ hg, h⟩

/-- What a rule matches as a token is cut off as one in front of a line break or the end. -/
theorem streamFrom_of_kind? {r : Rule} (h : lexeme.toList ∈ r.language)
    (hk : r.kind? lexeme.toList = some kind) (hrest : ∀ c ∈ rest.head?, isBreak c = true)
    (position line : Nat) :
    Token.streamFrom position line (lexeme.toList ++ rest) =
      ⟨kind, lexeme, line, position, position + lexeme.toList.length⟩ ::
        Token.streamFrom (position + lexeme.toList.length) line rest := by
  have hfeeds : lineFeeds lexeme.toList = 0 := List.count_eq_zero.mpr (Rule.notMem_of_kind? h hk)
  rw [Cuts.streamFrom_of_longest (longest_of_kind? h hk hrest), hfeeds, Fragment.token?, hk,
    String.ofList_toList]
  rfl

/-- The kinds and lexemes of the tokens of texts are what the rules say. -/
theorem scanned_iff :
    Scanned kind lexeme ↔
      ∃ r : Rule, lexeme.toList ∈ r.language ∧ r.kind? lexeme.toList = some kind := by
  constructor
  · rintro ⟨text, t, ht, rfl, rfl, hfinish⟩
    obtain ⟨fragments, hcuts⟩ := exists_cuts text.toList
    rw [stream_eq_dressed hcuts] at ht
    rcases List.mem_append.mp ht with ht | ht
    · obtain ⟨f, hf, hk, hlexeme⟩ := Fragment.exists_of_mem_dressed ht
      rw [hlexeme, String.toList_ofList]
      exact ⟨f.rule, hcuts.mem_language f hf, hk⟩
    · rw [List.mem_singleton.mp ht] at hfinish
      exact absurd rfl hfinish
  · rintro ⟨r, hmem, hk⟩
    refine ⟨lexeme, ⟨kind, lexeme, 1, 0, lexeme.toList.length⟩, ?_, rfl, rfl, ?_⟩
    · have hstream : Token.streamFrom 0 1 (lexeme.toList ++ []) = _ :=
        streamFrom_of_kind? hmem hk (by simp) 0 1
      rw [List.append_nil] at hstream
      rw [Token.stream, hstream]
      simp
    · exact Rule.ne_finish_of_kind? hk

/-- A line feed between tokens is a gap. -/
theorem streamFrom_feed (position line : Nat) (cs : List Char) :
    Token.streamFrom position line ('\n' :: cs) = Token.streamFrom (position + 1) (line + 1) cs :=
  Cuts.streamFrom_of_longest (longest_of_isBreak rfl cs) position line

/-- Lexemes that stand one in each line are read as the tokens that they are. -/
theorem streamFrom_intercalate {ps : List (Kind × String)} (h : ∀ p ∈ ps, Scanned p.1 p.2)
    (position line : Nat) :
    (Token.streamFrom position line (['\n'].intercalate (ps.map (·.2.toList)))).map Token.seen =
      onLines line ps ++ [(Kind.finish, "", ((line + (ps.length - 1) : Nat) : Int))] := by
  induction ps generalizing position line with
  | nil => simp [Token.streamFrom, Token.seen, onLines]
  | cons p ps ih =>
    obtain ⟨hp, hps⟩ := List.forall_mem_cons.mp h
    obtain ⟨r, hmem, hk⟩ := scanned_iff.mp hp
    cases ps with
    | nil =>
      have hstream : Token.streamFrom position line (p.2.toList ++ []) = _ :=
        streamFrom_of_kind? hmem hk (by simp) position line
      rw [List.append_nil] at hstream
      simp [hstream, Token.streamFrom, Token.seen, onLines]
    | cons q ps =>
      have htext : ['\n'].intercalate ((p :: q :: ps).map (·.2.toList)) =
          p.2.toList ++ '\n' :: ['\n'].intercalate ((q :: ps).map (·.2.toList)) := by
        simp [List.intercalate]
      have hlast : line + 1 + ((q :: ps).length - 1) = line + ((p :: q :: ps).length - 1) := by
        simp only [List.length_cons]
        omega
      rw [htext, streamFrom_of_kind? hmem hk (by simp [isBreak]), streamFrom_feed, List.map_cons, ih hps,
        onLines_cons line, hlast]
      rfl

/-- What stands in front of the end of a text has been scanned. -/
theorem exists_stream_eq (text : String) :
    ∃ ts t, Token.stream text = ts ++ [t] ∧ (∀ u ∈ ts, u.kind ≠ .finish) ∧ t.kind = .finish ∧
      t.lexeme = "" := by
  obtain ⟨fragments, hcuts⟩ := exists_cuts text.toList
  exact ⟨_, _, stream_eq_dressed hcuts, fun u hu => Fragment.kind_of_mem_dressed hu, rfl, rfl⟩

/-- The tokens of texts are what the rules match that has a kind. Written out one in each line, any of
them are read back, each on its line, and then the end. So what the tokens of a text are, but for their
places, is recovered from their lexemes. -/
theorem tokens_of_lexemes :
    (∀ kind lexeme, Scanned kind lexeme ↔
      ∃ r : Rule, lexeme.toList ∈ r.language ∧ r.kind? lexeme.toList = some kind) ∧
    (∀ ps : List (Kind × String), (∀ p ∈ ps, Scanned p.1 p.2) →
      (Token.stream ("\n".intercalate (ps.map Prod.snd))).map Token.seen =
        onLines 1 ps ++ [(Kind.finish, "", ((max 1 ps.length : Nat) : Int))]) ∧
    ∀ text : String,
      let lexemes := ((Token.stream text).filter fun t => t.kind ≠ .finish).map Token.lexeme
      (Token.stream ("\n".intercalate lexemes)).map (fun t => (t.kind, t.lexeme)) =
        (Token.stream text).map fun t => (t.kind, t.lexeme) := by
  have hread : ∀ ps : List (Kind × String), (∀ p ∈ ps, Scanned p.1 p.2) →
      (Token.stream ("\n".intercalate (ps.map Prod.snd))).map Token.seen =
        onLines 1 ps ++ [(Kind.finish, "", ((max 1 ps.length : Nat) : Int))] := by
    intro ps hps
    have hlast : 1 + (ps.length - 1) = max 1 ps.length := by omega
    have htext : ("\n".intercalate (ps.map Prod.snd)).toList =
        ['\n'].intercalate (ps.map (·.2.toList)) := by
      rw [String.toList_intercalate, List.map_map]
      rfl
    rw [Token.stream, htext, streamFrom_intercalate hps, hlast]
  refine ⟨fun _ _ => scanned_iff, hread, fun text => ?_⟩
  intro lexemes
  obtain ⟨ts, t, hstream, hts, hfinish, hlexeme⟩ := exists_stream_eq text
  have hfilter : (Token.stream text).filter (fun u => u.kind ≠ .finish) = ts := by
    rw [hstream, List.filter_append, List.filter_eq_self.mpr (by simpa using hts)]
    simp [hfinish]
  have hps := hread (ts.map fun u => (u.kind, u.lexeme)) fun p hp => by
    obtain ⟨u, hu, rfl⟩ := List.mem_map.mp hp
    exact ⟨text, u, by simp [hstream, hu], rfl, rfl, hts u hu⟩
  have hlexemes : (ts.map fun u => (u.kind, u.lexeme)).map Prod.snd = lexemes := by
    simp only [lexemes, hfilter, List.map_map]
    rfl
  rw [hlexemes] at hps
  have hforget := congrArg (List.map fun v => (v.1, v.2.1)) hps
  rw [List.map_map, List.map_append, map_onLines] at hforget
  rw [hstream, List.map_append, List.map_singleton, hfinish, hlexeme]
  exact hforget

/-- In lines of their own three quotes open no comment, and two equals signs are no comparison. -/
theorem tokens_of_lexemes_apart :
    let ps : List (Kind × String) := [(.unknown, "\""), (.unknown, "\""), (.unknown, "\""),
      (.sign .assign, "="), (.sign .assign, "=")]
    (∀ p ∈ ps, Scanned p.1 p.2) ∧
      (Token.stream "\"\n\"\n\"\n=\n=").map Token.seen = onLines 1 ps ++ [(Kind.finish, "", 5)] := by
  intro ps
  have hps : ∀ p ∈ ps, Scanned p.1 p.2 := by
    have hquote : Scanned .unknown "\"" :=
      scanned_iff.mpr ⟨.unknown, Rule.mem_unknown.mpr ⟨'"', by decide, rfl⟩, rfl⟩
    have hassign : Scanned (.sign .assign) "=" :=
      scanned_iff.mpr ⟨.sign, Rule.mem_sign.mpr ⟨.assign, rfl⟩, rfl⟩
    simp [ps, hquote, hassign]
  exact ⟨hps, tokens_of_lexemes.2.1 ps hps⟩

end StackPrimer

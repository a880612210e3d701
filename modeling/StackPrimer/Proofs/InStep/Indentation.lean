import Mathlib.Data.List.Destutter
import StackPrimer.Proofs.InStep.Program

/-!
# How much indentation does not matter

Indentation says where a block begins and which statements belong to it, and it says so once: a run
of it is as good as its first token. Runs are passed at the beginning of a block, inside of one and
at the top level, also in front of what turns out to be no statement, and nothing is looked at of a
run but its first token.

Results:
* `streams_withSingleIndents`: a stream corresponds to itself with single indentation.
* `compileTokens_withSingleIndents`: both come to the same program or fail alike.
-/

namespace StackPrimer.Compilation

/-! ## Runs of indentation -/

/-- The stream with the first token of each run of indentation in place of the run. -/
def withSingleIndents (ts : List Token) : List Token :=
  ts.destutter fun t u => ¬(t.kind = .indent ∧ u.kind = .indent)

variable {t i : Token} {ms ts : List Token}

theorem withSingleIndents_cons (h : t.kind ≠ .indent) (ts : List Token) :
    withSingleIndents (t :: ts) = t :: withSingleIndents ts := by
  cases ts <;> simp [withSingleIndents, List.destutter_cons', h]

/-- Of a run of indentation the first token is left. -/
theorem withSingleIndents_run (hi : i.kind = .indent) (hms : ∀ m ∈ ms, m.kind = .indent)
    (ht : t.kind ≠ .indent) (ts : List Token) :
    withSingleIndents (i :: (ms ++ t :: ts)) = i :: withSingleIndents (t :: ts) := by
  induction ms with
  | nil => simp [withSingleIndents, List.destutter_cons', ht]
  | cons m ms ih =>
    obtain ⟨hm, hms⟩ := List.forall_mem_cons.mp hms
    rw [← ih hms]
    simp [withSingleIndents, List.destutter_cons', hi, hm]

/-- The token in front stays there. -/
theorem sameHead_withSingleIndents (ts : List Token) : SameHead ts (withSingleIndents ts) := by
  cases ts with
  | nil => rfl
  | cons t ts =>
    by_cases ht : t.kind = .indent
    · induction ts with
      | nil => rfl
      | cons u ts ih =>
        by_cases hu : u.kind = .indent
        · simpa [SameHead, withSingleIndents, List.destutter_cons', ht, hu] using ih
        · rw [SameHead, show u :: ts = [] ++ u :: ts from rfl,
            withSingleIndents_run ht (by simp) hu]
          rfl
    · rw [SameHead, withSingleIndents_cons ht]
      rfl

/-- In front of an end there is a token behind the indentation. -/
theorem exists_behind_run (hi : i.kind = .indent)
    (hfinish : ∃ t ∈ (i :: ts).getLast?, t.kind = .finish) :
    ∃ ms t rest, ts = ms ++ t :: rest ∧ (∀ m ∈ ms, m.kind = .indent) ∧ t.kind ≠ .indent := by
  have hsome : afterIndents ts ≠ [] := by
    intro hnil
    have hindents := List.dropWhile_eq_nil_iff.mp hnil
    obtain ⟨t, ht, hk⟩ := hfinish
    have hindent : t.kind = .indent := by
      rcases List.mem_cons.mp (List.mem_of_getLast? ht) with rfl | ht
      · exact hi
      · simpa using hindents t ht
    rw [hindent] at hk
    cases hk
  have hhead := List.head_dropWhile_not (fun t : Token => decide (t.kind = .indent)) hsome
  obtain ⟨t, rest, hrest⟩ := List.exists_cons_of_ne_nil hsome
  rw [afterIndents] at hrest
  refine ⟨ts.takeWhile (·.kind = .indent), t, rest, ?_, ?_, ?_⟩
  · rw [← hrest, List.takeWhile_append_dropWhile]
  · intro m hm
    simpa using List.mem_takeWhile_imp hm
  · simpa [hrest] using hhead

/-! ## Streams with and without the rest of each run -/

/-- Tokens correspond if they are the same. -/
def samePairing : Pairing where
  rename := id
  injective := Function.injective_id
  same := Eq
  apart := Eq
  kind_eq := by
    rintro t _ rfl
    rfl
  name_eq := by
    rintro t _ rfl -
    rfl
  number_eq := by
    rintro t _ rfl -
    rfl

/-- A stream corresponds to itself with single indentation. -/
theorem streams_withSingleIndents (hfinish : ∃ t ∈ ts.getLast?, t.kind = .finish) :
    Streams samePairing ts (withSingleIndents ts) := by
  induction hn : ts.length using Nat.strong_induction_on generalizing ts with
  | _ n ih =>
    -- what stands behind the last token of `front` ends as `ts` does, or there is nothing
    have hrest : ∀ front rest : List Token, front ≠ [] → ts = front ++ rest →
        Streams samePairing rest (withSingleIndents rest) := by
      rintro front rest hne rfl
      cases rest with
      | nil => exact .nil
      | cons t rest =>
        have hlength := List.length_pos_of_ne_nil hne
        rw [List.length_append] at hn
        refine ih _ (by omega) ?_ rfl
        rwa [List.getLast?_append_of_ne_nil _ (List.cons_ne_nil t rest)] at hfinish
    cases ts with
    | nil => exact .nil
    | cons i ts =>
      by_cases hi : i.kind = .indent
      · obtain ⟨ms, t, rest, rfl, hms, ht⟩ := exists_behind_run hi hfinish
        have hbehind := hrest (i :: (ms ++ [t])) rest (by simp) (by simp)
        have hgap : Streams samePairing ((i :: ms) ++ t :: rest)
            ([i] ++ t :: withSingleIndents rest) :=
          .gap (List.forall_mem_cons.mpr ⟨hi, hms⟩) (by simpa using hi) (by simp [samePairing])
            (.inl (by simp)) ht rfl (fun _ => sameHead_withSingleIndents rest) hbehind
        rw [withSingleIndents_run hi hms ht, withSingleIndents_cons ht]
        exact hgap
      · rw [withSingleIndents_cons hi]
        exact .token rfl (fun _ => sameHead_withSingleIndents ts) (hrest [i] ts (by simp) rfl)

/-! ## Outcomes -/

/-- Compilations agree about the same tokens if they come to the same. -/
theorem eq_of_agree {α : Type} {x y : Except Failure α} (h : samePairing.Agree x y) : y = x := by
  cases h with
  | ok a => rfl
  | error h =>
    cases h with
    | unexpected h e =>
      obtain rfl := h.elim id id
      rfl
    | undeclared role h =>
      cases h
      rfl
    | redefined h =>
      cases h
      rfl
    | outOfTokens | badNumber | unbound | book | log => rfl

/-- A stream with an end is compiled to the same program, or fails for the same reason at the same
token, if only the first token of each run of indentation is left. -/
theorem compileTokens_withSingleIndents (hfinish : ∃ t ∈ ts.getLast?, t.kind = .finish) :
    compileTokens (withSingleIndents ts) = compileTokens ts := by
  obtain ⟨t, ht, hk⟩ := hfinish
  exact eq_of_agree
    (compileTokens_agree (streams_withSingleIndents ⟨t, ht, hk⟩) ⟨t, List.mem_of_getLast? ht, hk⟩)

/-- A choice in which every block, the `else` and the end have more than one indentation in front. -/
def deepTokens : List Token :=
  [token (.word .ifWord) "if", token .number "1", token (.sign .less) "<", token .number "2",
    token (.sign .colon) ":", token .indent "\t", token .indent "  ", token (.word .printWord) "print",
    token (.sign .opening) "(", token .number "3", token (.sign .closing) ")", token .indent "  ",
    token .indent "\t", token .indent "\t", token (.word .elseWord) "else", token (.sign .colon) ":",
    token .indent "\t", token .indent "\t", token (.word .printWord) "print",
    token (.sign .opening) "(", token .number "4", token (.sign .closing) ")", token .indent "\t",
    token .indent "  ", token .finish ""]

/-- The choice with one indentation in each place. -/
def shallowTokens : List Token :=
  [token (.word .ifWord) "if", token .number "1", token (.sign .less) "<", token .number "2",
    token (.sign .colon) ":", token .indent "\t", token (.word .printWord) "print",
    token (.sign .opening) "(", token .number "3", token (.sign .closing) ")", token .indent "  ",
    token (.word .elseWord) "else", token (.sign .colon) ":", token .indent "\t",
    token (.word .printWord) "print", token (.sign .opening) "(", token .number "4",
    token (.sign .closing) ")", token .indent "\t", token .finish ""]

theorem compileTokens_withSingleIndents_choice :
    (∃ t ∈ deepTokens.getLast?, t.kind = .finish) ∧ withSingleIndents deepTokens = shallowTokens ∧
      compileTokens shallowTokens = compileTokens deepTokens := by
  have hfinish : ∃ t ∈ deepTokens.getLast?, t.kind = .finish := ⟨_, rfl, rfl⟩
  have hshallow : withSingleIndents deepTokens = shallowTokens := by decide
  exact ⟨hfinish, hshallow, hshallow ▸ compileTokens_withSingleIndents hfinish⟩

end StackPrimer.Compilation

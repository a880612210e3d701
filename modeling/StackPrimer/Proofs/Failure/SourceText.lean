import StackPrimer.Compilation.SourceText
import StackPrimer.Proofs.Failure.Program
import StackPrimer.Proofs.Number.Lexeme

/-!
# How texts fail

The tokens of a text have an end, and its numbers can be read. So whatever the text, it is a program
or there is one thing in it to complain about.

Results:
* `compile_outcome`: a text is translated, or one finding is filed.
-/

namespace StackPrimer

namespace Token

/-- The tokens of the rest of a text have an end. -/
theorem exists_finish_streamFrom (position line : Nat) (cs : List Char) :
    ∃ t ∈ streamFrom position line cs, t.kind = .finish := by
  induction position, line, cs using streamFrom.induct with
  | case1 position line =>
    rw [streamFrom]
    exact ⟨_, List.mem_cons_self .., rfl⟩
  | case2 position line c cs piece taken hkind ih =>
    rw [streamFrom, hkind]
    exact ih
  | case3 position line c cs piece taken kind hkind ih =>
    rw [streamFrom, hkind]
    obtain ⟨t, ht, hfinish⟩ := ih
    exact ⟨t, List.mem_cons_of_mem _ ht, hfinish⟩

end Token

namespace Compilation

/-- A failure that the author of a text is told of. -/
inductive Failure.Reported : Failure → Prop
  | unexpected (t : Token) (e : Expectation) : Reported (.unexpected t e)
  | undeclared (role : Role) (t : Token) : Reported (.undeclared role t)
  | redefined (t : Token) : Reported (.redefined t)

/-- A text fails in these ways only. -/
theorem reported_of_run_error {text : String} {e : Failure}
    (h : (run (Token.stream text) {} {}).1 = .error e) : e.Reported := by
  cases run_error (Token.exists_finish_streamFrom ..) h with
  | unexpected t e => exact .unexpected t e
  | undeclared role t => exact .undeclared role t
  | redefined t => exact .redefined t
  | badNumber ht hk hread =>
    have hsome := Number.readFloat?_isSome_of_numeral (numeral_of_mem_stream ht hk)
    rw [String.ofList_toList, hread] at hsome
    cases hsome

theorem reported_of_compileTokens {text : String} {e : Failure}
    (h : compileTokens (Token.stream text) = .error e) : e.Reported := by
  have hrun : (run (Token.stream text) {} {}).1 = .error e := by
    cases hrun : (run (Token.stream text) {} {}).1 with
    | ok p => simp [compileTokens, hrun, Except.map] at h
    | error e' => simpa [compileTokens, hrun, Except.map] using h
  exact reported_of_run_error hrun

/-- There is something to say about each of them. -/
theorem Failure.Reported.exists_finding {e : Failure} (h : e.Reported) (source : Source) :
    ∃ f, Finding.ofFailure? source e = some f := by
  cases h <;> exact ⟨_, rfl⟩

end Compilation

open Compilation (run compileTokens Failure)

/-- The outcome of a translation: a program for which nothing is filed, or no program and one finding,
which does not make the journal full unless it is one short of its limit. -/
theorem compile_outcome (text : String) (filename : Option String) (j : Journal)
    (hj : j.findings.length + 1 ≠ j.limit) :
    (∃ p, (run (Token.stream text) {} {}).1 = .ok p ∧ (compile text filename j).1 = some p ∧
      (compile text filename j).2.findings = j.findings) ∨
    (∃ e f, (run (Token.stream text) {} {}).1 = .error e ∧ e.Reported ∧
      Finding.ofFailure? ⟨text, filename⟩ e = some f ∧ compile text filename j = (none, j.file f) ∧
      (j.file f).isFull = false) := by
  cases hrun : (run (Token.stream text) {} {}).1 with
  | ok p =>
    have htokens : compileTokens (Token.stream text) =
        .ok (p, (run (Token.stream text) {} {}).2.1.nextGlobal) := by
      simp [compileTokens, hrun, Except.map]
    refine .inl ⟨p, rfl, ?_, ?_⟩ <;> simp [compile, htokens]
  | error e =>
    have hreported := Compilation.reported_of_run_error hrun
    obtain ⟨f, hf⟩ := hreported.exists_finding ⟨text, filename⟩
    have htokens : compileTokens (Token.stream text) = .error e := by
      simp [compileTokens, hrun, Except.map]
    refine .inr ⟨e, f, rfl, hreported, hf, ?_, ?_⟩
    · simp [compile, htokens, hf]
    · simp [Journal.isFull, Journal.file, hj]

/-- A variable that is read before it is assigned is the one thing wrong with this text. -/
theorem compile_outcome_undeclared :
    (∃ p, (run (Token.stream "print(x)") {} {}).1 = .ok p ∧
      (compile "print(x)" none {}).1 = some p ∧ (compile "print(x)" none {}).2.findings = []) ∨
    (∃ e f, (run (Token.stream "print(x)") {} {}).1 = .error e ∧ e.Reported ∧
      Finding.ofFailure? ⟨"print(x)", none⟩ e = some f ∧
      compile "print(x)" none {} = (none, Journal.file {} f) ∧ (Journal.file {} f).isFull = false) :=
  compile_outcome "print(x)" none {} (by decide)

end StackPrimer

import StackPrimer.Proofs.InStep.BlankLine
import StackPrimer.Proofs.Scanning.LineEnding

/-!
# Line endings do not matter

A text whose lines end with a carriage return and a line feed has the same tokens as the text whose lines
end with a line feed alone, each on the same line, and comes to the same program or fails for the same
reason at the same token.

Results:
* `compileTokens_map`: tokens that stand elsewhere are compiled to the same program.
* `compiles_with_returns`: a text with returns is read and compiled like the text without them.
-/

namespace StackPrimer

namespace Compilation

/-- The failure at another token. -/
def Failure.mapToken (f : Token → Token) : Failure → Failure
  | unexpected t e => unexpected (f t) e
  | undeclared role t => undeclared role (f t)
  | redefined t => redefined (f t)
  | e => e

/-- A message tells of a token what does not depend on where it stands. -/
theorem Failure.message_mapToken {f : Token → Token} (hf : ∀ t : Token, t.Alike (f t)) (e : Failure) :
    (e.mapToken f).message = e.message := by
  have hline (t : Token) : (f t).line = t.line := (hf t).line.symm
  have hlexeme (t : Token) : (f t).lexeme = t.lexeme := (hf t).lexeme.symm
  have hshown (t : Token) : (f t).shown = t.shown := by
    simp only [Token.shown, (hf t).kind, (hf t).lexeme]
  unfold message
  cases e <;> dsimp only [mapToken] <;> simp only [hline, hlexeme, hshown]

variable {f : Token → Token}

/-- A token corresponds to the one that it becomes. -/
def mapPairing (hf : ∀ t : Token, t.Alike (f t)) : Pairing where
  rename := id
  injective := Function.injective_id
  same t u := u = f t
  apart _ _ := False
  kind_eq := by
    rintro t _ rfl
    exact (hf t).kind.symm
  name_eq := by
    rintro t _ rfl -
    exact (hf t).lexeme.symm
  number_eq := by
    rintro t _ rfl -
    exact (hf t).lexeme.symm

theorem eq_mapError_of_agree {α : Type} {hf : ∀ t : Token, t.Alike (f t)} {x y : Except Failure α}
    (h : (mapPairing hf).Agree x y) : y = x.mapError (Failure.mapToken f) := by
  cases h with
  | ok a => rfl
  | error h =>
    cases h with
    | unexpected h e =>
      obtain rfl : _ = f _ := h.resolve_right not_false
      rfl
    | undeclared role h =>
      obtain rfl : _ = f _ := h
      rfl
    | redefined h =>
      obtain rfl : _ = f _ := h
      rfl
    | outOfTokens | badNumber | unbound | book | log => rfl

/-- Tokens that stand elsewhere are compiled to the same program, or fail where they now stand. -/
theorem compileTokens_map (hf : ∀ t : Token, t.Alike (f t)) {ts : List Token}
    (hfinish : ∃ t ∈ ts, t.kind = .finish) :
    compileTokens (ts.map f) = (compileTokens ts).mapError (Failure.mapToken f) := by
  have hstreams : Streams (mapPairing hf) ts (ts.map f) :=
    .of_forall₂ (List.forall₂_map_right_iff.mpr (List.forall₂_same.mpr fun _ _ => rfl))
  exact eq_mapError_of_agree (compileTokens_agree hstreams hfinish)

end Compilation

open Compilation

/-- A text with a carriage return in front of every line feed has the same tokens as the text without
them, but that each starts and stops further on by the returns in front of it. It is compiled to the
same program, or fails for the same reason at the same token and with the same message. -/
theorem compiles_with_returns (text : String) :
    let returned := String.ofList (withReturns text.toList)
    Token.stream returned = (Token.stream text).map Token.behindReturns ∧
      List.Forall₂ Token.Alike (Token.stream text) (Token.stream returned) ∧
      compileTokens (Token.stream returned) =
        (compileTokens (Token.stream text)).mapError (Failure.mapToken Token.behindReturns) ∧
      ∀ e : Failure, (e.mapToken Token.behindReturns).message = e.message := by
  intro returned
  have hstream : Token.stream returned = (Token.stream text).map Token.behindReturns :=
    stream_withReturns text
  refine ⟨hstream, ?_, ?_, Failure.message_mapToken Token.alike_behindReturns⟩
  · rw [hstream]
    exact List.forall₂_map_right_iff.mpr (List.forall₂_same.mpr fun t _ => t.alike_behindReturns)
  · rw [hstream]
    exact compileTokens_map Token.alike_behindReturns (Token.exists_finish_streamFrom ..)

end StackPrimer

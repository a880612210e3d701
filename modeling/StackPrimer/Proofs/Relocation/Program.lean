import StackPrimer.Proofs.OnePass.Program
import StackPrimer.Proofs.Relocation.Statement

/-!
# Programs behind other code

A compilation may be given a log that holds code already. That code is left as it is, whether the
compilation succeeds or fails, and what is written behind it is what would have been written into an
empty log, with every address moved by the length of the code in front.

Results:
* `movable_declarations`, `moves_program`: the productions of programs stay in step.
* `run_onto`: what a whole compilation comes to behind other code.
-/

namespace StackPrimer.Compilation

open Grammar

variable {old : Log}

/-! ## Declarations -/

theorem movable_variableDeclaration (b : Nat) : Movable old (variableDeclarationWithin b) := by
  unfold variableDeclarationWithin
  refine (movable_expect _ _).bind fun name => movable_currentKind.bind fun k => ?_
  have hrest : Movable old
      (do declare name; expectSign .assign; expressionWithin b; store name) :=
    (movable_declare name).bind fun _ => (movable_expectSign _).bind fun _ =>
      (movable_expression b).bind fun _ => movable_store name
  split
  · exact (Movable.throw _ : Movable old (throw _ : Action Unit)).bind fun _ => hrest
  · exact hrest

theorem movable_moreParameters (b : Nat) (before : List Int) :
    Movable old (moreParametersWithin b before) := by
  induction b generalizing before with
  | zero => exact .throw _
  | succ b ih =>
    rw [moreParametersWithin]
    refine movable_currentKind.bind fun k => ?_
    split
    · exact movable_advance.bind fun _ => (movable_expect _ _).bind fun name =>
        (movable_addVariable name).bind fun address => ih (address :: before)
    · exact .pure _

theorem movable_parameters (b : Nat) : Movable old (parametersWithin b) := by
  unfold parametersWithin
  refine movable_currentKind.bind fun k => ?_
  split
  · exact (movable_expect _ _).bind fun name => (movable_addVariable name).bind fun address =>
      movable_moreParameters b [address]
  · exact .pure _

theorem movable_storeAll (addresses : List Int) : Movable old (storeAll addresses) := by
  induction addresses with
  | nil => exact .pure _
  | cons address rest ih => exact .written rfl _ ih

/-- The jump over a function waits from its first instruction to the one behind its end. -/
theorem movable_functionDeclaration (b : Nat) : Movable old (functionDeclarationWithin b) := by
  intro w
  unfold functionDeclarationWithin
  refine .after (movable_expect _ _) fun _ => .after (movable_expect _ _) fun name => ?_
  refine .waiting rfl fun guard hguard => .after (movable_addFunction name) fun _ => ?_
  refine .after movable_enterFunction fun _ => .after (movable_emitPlain _) fun _ => ?_
  refine .after (movable_expectSign _) fun _ => .after (movable_parameters b) fun addresses => ?_
  refine .after (movable_expectSign _) fun _ => .after (movable_expectSign _) fun _ => ?_
  refine .after (movable_storeAll addresses) fun _ => ?_
  refine .after (statementsMovable old b).block fun _ => .after movable_exitFunction fun _ => ?_
  exact .after (movable_emitPlain _) fun _ => moves_land hguard

theorem movable_declarations (b : Nat) : Movable old (declarationsWithin b) := by
  induction b with
  | zero => exact .throw _
  | succ b ih =>
    rw [declarationsWithin]
    refine movable_current.bind fun t => ?_
    split
    · exact (movable_functionDeclaration b).bind fun _ => ih
    · intro w
      refine (moves_entry t).bind ?_
      rintro entry _ rfl
      rw [Option.isNone_map]
      split
      · exact ((movable_variableDeclaration b).bind fun _ => ih) w
      · exact Movable.pure _ w
    · exact .pure _

/-! ## Programs -/

/-- The productions of programs stay in step, and the program that is answered behind the
instructions of `old` holds those in front. -/
theorem moves_program (b : Nat) :
    Moves old ∅ (programWithin b) (programWithin b) (fun p q => q = p.onto old) ∅ := by
  unfold programWithin
  refine .after (movable_emitPlain _) fun _ => .after (movable_declarations b) fun _ => ?_
  refine .after ((statementsMovable old b).statements .topLevel) fun _ => ?_
  refine .after (movable_expect _ _) fun _ => .after (movable_emitPlain _) fun _ => ?_
  intro s later copied
  exact .ok (congrArg (old.instructions ++ ·) copied.eq_map) copied

/-- A program is all that the log holds at its end. -/
theorem instructions_of_program {b : Nat} {s s' : State} {p : Program}
    (h : programWithin b s = .ok p s') : s'.log.instructions = p := by
  unfold programWithin at h
  simp only [bind_eq_ok] at h
  obtain ⟨_, _, -, _, _, -, _, _, -, _, _, -, h⟩ := h
  obtain ⟨_, _, -, h⟩ := bind_eq_ok.mp h
  injection h with hp hs
  rw [← hs, hp]

/-- An empty log behind the instructions of `old` is `old`. -/
theorem onto_empty (t : Token) (rest : List Token) (old : Log) :
    State.onto ⟨t, rest, {}, {}⟩ old #[] = ⟨t, rest, {}, old⟩ := by
  have hlog : old.followedBy #[] = old := by simp [Log.followedBy]
  rw [State.onto, hlog]
  rfl

/-- Behind code that is there already a stream comes to what it comes to alone. The code stays in
front of all that is written, also where the compilation fails. If it succeeds, the program is the
one that the stream stands for alone, with the addresses of jumps, calls and returns moved behind
that code, and it is what the log holds; if it fails, it fails for the same reason. -/
theorem run_onto (tokens : List Token) (old : Log) :
    old.instructions.toList <+: (run tokens {} old).2.2.instructions.toList ∧
      (run tokens {} old).1 = (run tokens {} {}).1.map (·.onto old) ∧
      ∀ p, (run tokens {} old).1 = .ok p → (run tokens {} old).2.2.instructions = p := by
  cases tokens with
  | nil => exact ⟨List.prefix_rfl, rfl, fun p h => by simp [run] at h⟩
  | cons t rest =>
    have hmoves : Moves old ∅ program program (fun p q => q = p.onto old) ∅ :=
      fun s later copied => moves_program s.budget s later copied
    have hshifted := hmoves ⟨t, rest, {}, {}⟩ #[] (.empty old.size)
    rw [onto_empty] at hshifted
    have hfront : ∀ later : Program,
        old.instructions.toList <+: (old.followedBy later).instructions.toList := fun later => by
      simp [Log.followedBy]
    generalize hfresh : program ⟨t, rest, {}, {}⟩ = fresh at hshifted
    generalize hbehind : program ⟨t, rest, {}, old⟩ = behind at hshifted
    simp only [run, hfresh, hbehind]
    cases hshifted with
    | error e s later => exact ⟨hfront later, rfl, fun p h => by cases h⟩
    | ok result copied =>
      subst result
      refine ⟨hfront _, rfl, fun p h => ?_⟩
      cases h
      exact instructions_of_program hbehind

/-- Code that is there already: a program that does nothing. -/
def idleLog : Log := ⟨#[plain .start, plain .halt]⟩

/-- What a function with a choice inside and a call of itself comes to behind it. -/
def recursiveBehindIdle : Program :=
  #[plain .start, plain .halt, plain .start, withInt .allocate 1, plain .read,
    withInt .storeGlobal 0, withInt .jump 20, plain .enter, withInt .storeLocal 0,
    withInt .loadLocal 0, withInt .loadGlobal 0, plain .greater, withInt .jumpIfZero 17,
    withInt .pushReturn 16, withInt .loadGlobal 0, withInt .call 7, withInt .jump 19,
    withInt .loadLocal 0, plain .print, plain .leave, withInt .pushReturn 23,
    withInt .loadGlobal 0, withInt .call 7, plain .halt]

theorem run_onto_recursive :
    (run recursiveTokens {} idleLog).1 = .ok recursiveBehindIdle ∧
      (run recursiveTokens {} idleLog).2.2.instructions = recursiveBehindIdle ∧
      recursiveProgram.onto idleLog = recursiveBehindIdle := by
  have h : (run recursiveTokens {} idleLog).1 = .ok recursiveBehindIdle := by decide +kernel
  exact ⟨h, (run_onto recursiveTokens idleLog).2.2 _ h, by decide +kernel⟩

end StackPrimer.Compilation

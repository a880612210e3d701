import StackPrimer.Proofs.Machine.Containment

/-!
# The course of a run

What becomes of a run is settled by the machine alone: the journal only listens, as long as one more
finding does not fill it. And a program without an operation that reads takes the same course whatever
the input is, and leaves the input as it was.

Results:
* `run_eq_course`: a run takes its course and files the fault that ends it, if one does.
* `length_findings_run`: a run files no more than one finding.
* `Blind.perform`: only one operation looks at the input.
* `course_withInput`: a program that does not read takes the same course with any input.
-/

namespace StackPrimer

namespace Machine

/-! ## The course -/

/-- What becomes of a run: how it ends, if it does; the machine then; and the fault that has ended it, if
one has. -/
structure Course where
  outcome : Option Outcome
  machine : Machine
  fault : Option Fault := none

/-- What becomes of a machine that goes on for at most `bound` instructions. -/
def course : (bound : Nat) → Machine → Course
  | 0, m => ⟨none, m, none⟩
  | bound + 1, m =>
    if m.running && m.instruction?.isSome then
      match step m with
      | .ok _ m => course bound m
      | .error f m => ⟨some .faulted, { m with running := false }, some f⟩
    else ⟨some .completed, { m with running := false }, none⟩

/-- What is filed about the course of a run. -/
def Course.findings (c : Course) (j : Journal) : List Finding := c.fault.toList.map (c.machine.finding j)

theorem Course.findings_congr (c : Course) {j j' : Journal} (h : j.Keeps j') : c.findings j' = c.findings j := by
  rw [Course.findings, Course.findings]
  exact congrArg (c.fault.toList.map ·) (funext (finding_congr h))

theorem Course.length_findings (c : Course) (j : Journal) : (c.findings j).length ≤ 1 := by
  cases h : c.fault <;> simp [Course.findings, h]

/-- The result is that of the course, and of findings there are those filed about it. -/
structure Takes (r : Option Outcome × Machine × Journal) (c : Course) (j : Journal) : Prop where
  outcome : r.1 = c.outcome
  machine : r.2.1 = c.machine
  findings : r.2.2.findings = j.findings ++ c.findings j

theorem Takes.of_keeps {r : Option Outcome × Machine × Journal} {c : Course} {j j₁ : Journal}
    (h : Takes r c j₁) (hkeeps : j.Keeps j₁) : Takes r c j :=
  ⟨h.outcome, h.machine, by rw [h.findings, hkeeps.findings, c.findings_congr hkeeps]⟩

/-- Nothing is filed if there has been no fault. -/
theorem Takes.findings_eq_nil_iff {r : Option Outcome × Machine × Journal} {c : Course} {j : Journal}
    (h : Takes r c j) (hj : j.findings = []) : r.2.2.findings = [] ↔ c.fault = none := by
  rw [h.findings, hj]
  cases hfault : c.fault <;> simp [Course.findings, hfault]

section Runs

variable {m : Machine} {j : Journal}

theorem runWithin_eq_course (hroom : j.findings.length + 1 ≠ j.limit) (bound : Nat) :
    Takes (runWithin bound m j) (course bound m) j := by
  induction bound generalizing m j with
  | zero => exact ⟨rfl, rfl, by simp [runWithin, course, Course.findings]⟩
  | succ bound ih =>
    have hkeeps := m.announce_keeps j
    have hroom₁ : (m.announce j).findings.length + 1 ≠ (m.announce j).limit := by
      rwa [hkeeps.findings, hkeeps.limit]
    rw [runWithin, course]
    by_cases hgoes : (m.running && m.instruction?.isSome) = true
    · rw [if_pos hgoes, if_pos hgoes]
      refine Takes.of_keeps ?_ hkeeps
      dsimp only
      cases hstep : step m with
      | ok u m₁ => exact ih hroom₁
      | error f m₁ =>
        have hfull : ((m.announce j).file (m₁.finding (m.announce j) f)).isFull = false := by
          rw [Journal.isFull_file]
          exact decide_eq_false hroom₁
        dsimp only
        rw [hfull]
        exact ⟨rfl, rfl, rfl⟩
    · rw [if_neg hgoes, if_neg hgoes]
      exact ⟨rfl, rfl, by simp [Course.findings]⟩

/-- A run takes its course, and files the fault that ends it, if one does. -/
theorem run_eq_course (hroom : j.findings.length + 1 ≠ j.limit) (bound : Nat) :
    Takes (run bound m j) (course bound m.started) j := by
  set loaded := "--- Loaded " ++ toString m.program.size ++ " instructions ---"
  have hkeeps := Journal.Keeps.say (j := j) 1 loaded
  have hroom₁ : (j.say 1 loaded).findings.length + 1 ≠ (j.say 1 loaded).limit := by
    rwa [hkeeps.findings, hkeeps.limit]
  have htakes := (runWithin_eq_course (m := m.started) hroom₁ bound).of_keeps hkeeps
  rw [run_eq]
  refine ⟨htakes.outcome, htakes.machine, ?_⟩
  dsimp only
  split
  · exact (Journal.findings_say ..).trans htakes.findings
  · exact htakes.findings

/-- A run files no more than one finding. -/
theorem length_findings_run (hroom : j.findings.length + 1 ≠ j.limit) (bound : Nat) :
    (run bound m j).2.2.findings.length ≤ j.findings.length + 1 := by
  have hlength := (course bound m.started).length_findings j
  rw [(run_eq_course hroom bound).findings, List.length_append]
  omega

end Runs

/-! ## Input that is not looked at -/

/-- The machine with another input. -/
def withInput (m : Machine) (input : Input) : Machine := { m with input }

/-- The same result, with another input of the machine. -/
def resultWith {α : Type} (input : Input) : EStateM.Result Fault Machine α → EStateM.Result Fault Machine α
  | .ok a m => .ok a (m.withInput input)
  | .error f m => .error f (m.withInput input)

/-- The action does not look at the input. -/
def Blind {α : Type} (x : Action α) : Prop :=
  ∀ (m : Machine) (input : Input), x (m.withInput input) = resultWith input (x m)

namespace Blind

variable {α β : Type}

theorem pure (a : α) : Blind (Pure.pure a : Action α) := fun _ _ => rfl

theorem throw (f : Fault) : Blind (MonadExcept.throw f : Action α) := fun _ _ => rfl

theorem ofExcept (e : Except Fault α) : Blind (Action.ofExcept e) := by
  intro m input
  cases e <;> rfl

theorem bind {x : Action α} {f : α → Action β} (hx : Blind x) (hf : ∀ a, Blind (f a)) :
    Blind (x >>= f) := by
  intro m input
  change EStateM.bind x f (m.withInput input) = resultWith input (EStateM.bind x f m)
  unfold EStateM.bind
  rw [hx]
  cases x m with
  | ok a m₁ => exact hf a m₁ input
  | error e m₁ => rfl

theorem ite {c : Prop} [Decidable c] {x y : Action α} (hx : Blind x) (hy : Blind y) :
    Blind (if c then x else y) := by
  split
  · exact hx
  · exact hy

theorem push (x : Float) : Blind (Machine.push x) := fun _ _ => rfl

theorem pop : Blind Machine.pop := by
  rintro ⟨program, _ | ⟨x, stack⟩, memory, calls, ip, frame, running, i, printed⟩ input <;> rfl

theorem ensure (address : Int) : Blind (Machine.ensure address) := by
  intro m input
  unfold Machine.ensure
  split <;> rfl

theorem fetch (address : Int) : Blind (Machine.fetch address) := by
  intro m input
  unfold Machine.fetch
  split
  · cases h : m.memory[address.toNat]? <;> simp [withInput, h, resultWith]
  · rfl

theorem store (address : Int) (x : Float) : Blind (Machine.store address x) := by
  unfold Machine.store
  have hput : Blind (Machine.ensure address >>= fun _ m =>
      .ok () { m with memory := m.memory.setIfInBounds address.toNat x }) :=
    bind (ensure address) fun _ _ _ => rfl
  exact ite (bind (throw _) fun _ => hput) hput

theorem closeFrame : Blind Machine.closeFrame := by
  rintro ⟨program, stack, memory, _ | ⟨frame, calls⟩, ip, start, running, i, printed⟩ input <;> rfl

theorem performOther {op : Opcode} (hop : op ≠ .read) (x : Operand) : Blind (performOther op x) := by
  cases op with
  | read => exact absurd rfl hop
  | halt => exact bind (fun _ _ => rfl) fun _ => pure _
  | allocate => exact bind (fun m input => ensure m.memory.size m input) fun _ => pure _
  | constant | pushReturn => exact bind (ofExcept _) fun y => bind (push y) fun _ => pure _
  | loadGlobal =>
    exact bind (ofExcept _) fun address => bind (fetch address) fun y => bind (push y) fun _ => pure _
  | storeGlobal =>
    exact bind (ofExcept _) fun address => bind pop fun y => bind (store address y) fun _ => pure _
  | loadLocal =>
    exact bind (ofExcept _) fun offset => bind (fun _ _ => rfl) fun start =>
      bind (fetch (start + offset)) fun y => bind (push y) fun _ => pure _
  | storeLocal =>
    exact bind (ofExcept _) fun offset => bind (fun _ _ => rfl) fun start =>
      bind pop fun y => bind (store (start + offset) y) fun _ => pure _
  | print => exact bind pop fun y => bind (fun _ _ => rfl) fun _ => pure _
  | jump | call => exact bind (ofExcept _) fun address => pure _
  | jumpIfZero =>
    exact bind pop fun y => ite (bind (ofExcept _) fun address => pure _) (pure _)
  | enter => exact bind (fun _ _ => rfl) fun _ => pure _
  | leave => exact bind closeFrame fun _ => bind pop fun y => bind (ofExcept _) fun address => pure _
  | _ => exact pure _

/-- Only one operation looks at the input. -/
theorem perform {op : Opcode} (hop : op ≠ .read) (x : Operand) : Blind (perform op x) := by
  cases hbinary : op.binary? with
  | some f =>
    rw [Machine.perform, hbinary]
    exact bind (bind pop fun right => bind pop fun left => push (f left right)) fun _ => pure _
  | none =>
    rw [Machine.perform, hbinary]
    exact performOther hop x

end Blind

theorem landed_resultWith (input : Input) (r : EStateM.Result Fault Machine (Option Int)) :
    landed (resultWith input r) = resultWith input (landed r) := by
  cases r <;> rfl

theorem mnemonic_of_decode {i : Instruction} {op : Opcode} {x : Operand} (h : decode i = .ok (op, x)) :
    i.mnemonic = .listed op := by
  unfold decode at h
  split at h
  · cases h
  · rename_i op' hmnemonic
    rw [hmnemonic]
    split at h
    · cases h
      rfl
    · split at h
      · cases h
      · cases h
        rfl

/-- The program has no operation that reads. -/
def Silent (p : Program) : Prop := ∀ i ∈ p, i.mnemonic ≠ .listed .read

/-- A step of a program that does not read is the same with any input. -/
theorem step_withInput {m : Machine} (hsilent : Silent m.program) (input : Input) :
    step (m.withInput input) = resultWith input (step m) := by
  cases hi : m.instruction? with
  | none =>
    have hi' : (m.withInput input).instruction? = none := hi
    rw [step_of_none hi, step_of_none hi']
    rfl
  | some i =>
    have hi' : (m.withInput input).instruction? = some i := hi
    rw [step_eq hi, step_eq hi']
    cases hdecode : decode i with
    | error f =>
      change EStateM.bind (Action.ofExcept (decode i)) _ _ = resultWith input (EStateM.bind (Action.ofExcept _) _ _)
      rw [hdecode]
      rfl
    | ok r =>
      obtain ⟨op, x⟩ := r
      have hop : op ≠ .read := by
        rintro rfl
        exact hsilent i (mem_program_of_instruction? hi) (mnemonic_of_decode hdecode)
      rw [execute_eq _ hdecode, execute_eq _ hdecode, Blind.perform hop x m input, landed_resultWith]

/-- A program that does not read takes the same course with any input, and leaves the input as it was. -/
theorem course_withInput {m : Machine} (hsilent : Silent m.program) (input : Input) (bound : Nat) :
    course bound (m.withInput input) =
      { course bound m with machine := (course bound m).machine.withInput input } := by
  induction bound generalizing m with
  | zero => rfl
  | succ bound ih =>
    rw [course, course]
    by_cases hgoes : (m.running && m.instruction?.isSome) = true
    · have hgoes' : ((m.withInput input).running && (m.withInput input).instruction?.isSome) = true := hgoes
      rw [if_pos hgoes, if_pos hgoes', step_withInput hsilent]
      cases hstep : step m with
      | ok u m₁ =>
        have hturn : Turns m m₁ := ⟨(Bool.and_eq_true_iff.mp hgoes).1, hstep⟩
        exact ih (by rwa [hturn.program])
      | error f m₁ => rfl
    · have hgoes' : ¬ ((m.withInput input).running && (m.withInput input).instruction?.isSome) = true := hgoes
      rw [if_neg hgoes, if_neg hgoes']
      rfl

end Machine

end StackPrimer

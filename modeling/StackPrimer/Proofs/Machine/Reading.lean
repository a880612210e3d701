import StackPrimer.Proofs.Machine.Course

/-!
# Words are read in order

Input comes in lines, and a line is taken up when a word is needed; but all that can be noticed of a text is
the list of its words. Each attempt to read a number takes the next word, whether that is a number or not,
and whatever else is done with the machine in between, in one run or in several. When there are no words left,
and only then, an attempt finds none. So texts with the same words are the same input for every program.

Results:
* `reading_eq`, `step_of_comesTo_read`: an attempt takes the first of the words that are left.
* `InOrder.step`, `InOrder.runWithin`, `InOrder.commands`: so do attempts one after the other.
* `Attends.step`: a step looks at nothing but the words.
* `Agrees.runWithin`, `Agrees.commands`: with the same words everything goes the same way.
* `reads_words_in_order`: all of this for a machine that begins with a text.
-/

namespace StackPrimer

namespace Input

/-- The first of the words that are left is taken, and the others are left. -/
theorem next_spec (input : Input) :
    input.next.1 = input.words.head? ∧ input.next.2.words = input.words.tail := by
  have h := input.next_eq
  cases hwords : input.words with
  | nil =>
    rw [hwords] at h
    rw [h]
    exact ⟨rfl, rfl⟩
  | cons word rest =>
    rw [hwords] at h
    obtain ⟨input', hnext, hrest⟩ := h
    rw [hnext]
    exact ⟨rfl, hrest⟩

theorem next_word (input : Input) : input.next.1 = input.words.head? := input.next_spec.1

theorem words_next (input : Input) : input.next.2.words = input.words.tail := input.next_spec.2

end Input

namespace Machine

/-! ## Attempts to read -/

/-- An attempt to read a number: the word that it takes, if one is left, and what comes of it. -/
structure Reading where
  word : Option (List Char)
  result : Except Fault Float

namespace Reading

/-- What has to come of a word, or of none. -/
def of : Option (List Char) → Reading
  | none => ⟨none, .error .endOfInput⟩
  | some word =>
    match Number.readFloat? (String.ofList word) with
    | some x => ⟨some word, .ok x⟩
    | none => ⟨some word, .error (.notANumber (String.ofList word))⟩

/-- Only where there is no word, input is at its end. -/
theorem result_of_eq_endOfInput_iff (word : Option (List Char)) :
    (of word).result = .error .endOfInput ↔ word = none := by
  cases word with
  | none => simp [of]
  | some word => cases h : Number.readFloat? (String.ofList word) <;> simp [of, h]

end Reading

/-- The result of an action, apart from the machine that it leaves. -/
def resultOf {α : Type} : EStateM.Result Fault Machine α → Except Fault α
  | .ok a _ => .ok a
  | .error f _ => .error f

/-- The attempt that the machine makes when it reads. -/
def reading (m : Machine) : Reading := ⟨m.input.next.1, resultOf (read m)⟩

section Attempts

variable {m : Machine}

/-- An attempt takes the first of the words that are left. -/
theorem reading_eq (m : Machine) : m.reading = .of m.input.words.head? := by
  rw [← m.input.next_word, reading, read]
  rcases m.input.next with ⟨_ | word, input⟩
  · rfl
  · cases h : Number.readFloat? (String.ofList word) <;> simp [Reading.of, h, resultOf]

theorem left_read (m : Machine) : left (read m) = m.withInput m.input.next.2 := by
  rw [read]
  rcases m.input.next with ⟨_ | word, input⟩
  · rfl
  · cases h : Number.readFloat? (String.ofList word) <;> simp [h] <;> rfl

/-- Where the machine comes to the operation that reads, a step is an attempt: a number is pushed and the
next instruction follows; else the step fails, and the word is gone all the same. -/
theorem step_of_comesTo_read (h : m.ComesTo .read) :
    step m =
      match m.reading.result with
      | .ok x => .ok () { m with stack := x :: m.stack, input := m.input.next.2, ip := m.ip + 1 }
      | .error f => .error f { m with input := m.input.next.2 } := by
  obtain ⟨op, x, hop, hstep⟩ : ∃ op x, m.operation? = some (op, x) ∧ step m = landed (perform op x m) := by
    rcases step_cases m with hcase | ⟨f, hnone, -⟩
    · exact hcase
    · simp [ComesTo, hnone] at h
  obtain rfl : op = .read := by simpa [ComesTo, hop] using h
  have hperform : perform .read x m = (read >>= fun y => push y >>= fun _ => pure none) m := rfl
  rw [hstep, hperform]
  change landed (EStateM.bind read _ m) = _
  rw [EStateM.bind, reading, read]
  rcases m.input.next with ⟨_ | word, input⟩
  · rfl
  · cases h : Number.readFloat? (String.ofList word) <;> simp [h, resultOf] <;> rfl

end Attempts

/-- An action that does not look at the input leaves it as it is. -/
theorem Blind.input {α : Type} {x : Action α} (h : Blind x) (m : Machine) : (left (x m)).input = m.input := by
  have hsame : x m = resultWith m.input (x m) := h m m.input
  rw [hsame]
  cases x m <;> rfl

/-- Where the machine does not come to the operation that reads, a step leaves the input as it is. -/
theorem input_step {m : Machine} (h : ¬ m.ComesTo .read) : (left (step m)).input = m.input := by
  rcases step_cases m with ⟨op, x, hop, hstep⟩ | ⟨f, -, hstep⟩
  · have hblind : Blind (perform op x) := by
      refine Blind.perform ?_ x
      rintro rfl
      exact h (comesTo_of_operation? hop)
    rw [hstep, ← hblind.input m]
    cases perform op x m <;> rfl
  · rw [hstep]
    rfl

/-! ## Attempts one after the other -/

/-- The attempts have taken the words in order, from the first one on, and what is left are the words
behind them. -/
structure InOrder (before : Input) (log : List Reading) (after : Input) : Prop where
  taken : ∀ k < log.length, log[k]? = some (.of before.words[k]?)
  rest : after.words = before.words.drop log.length

namespace InOrder

variable {before between after : Input} {log more : List Reading}

theorem nil (h : after = before) : InOrder before [] after := ⟨by simp, by simp [h]⟩

/-- What has been taken first and what has been taken then. -/
theorem append (h : InOrder before log between) (hmore : InOrder between more after) :
    InOrder before (log ++ more) after := by
  constructor
  · intro k hk
    by_cases hlog : k < log.length
    · rw [List.getElem?_append_left hlog]
      exact h.taken k hlog
    · rw [List.length_append] at hk
      rw [List.getElem?_append_right (by omega), hmore.taken _ (by omega), h.rest, List.getElem?_drop,
        show log.length + (k - log.length) = k by omega]
  · rw [hmore.rest, h.rest, List.drop_drop, List.length_append]

/-- A single attempt. -/
theorem read (m : Machine) : InOrder m.input [m.reading] (left (Machine.read m)).input := by
  constructor
  · intro k hk
    obtain rfl : k = 0 := by simpa using hk
    simp [reading_eq, List.head?_eq_getElem?]
  · rw [left_read]
    simpa [withInput] using m.input.words_next

end InOrder

/-- The attempts of a step. -/
def stepReadings (m : Machine) : List Reading := if m.ComesTo .read then [m.reading] else []

/-- The attempts of a machine that goes on for at most `bound` instructions. -/
def runReadings : (bound : Nat) → Machine → List Reading
  | 0, _ => []
  | bound + 1, m =>
    if m.running && m.instruction?.isSome then
      match step m with
      | .ok _ next => m.stepReadings ++ runReadings bound next
      | .error _ _ => m.stepReadings
    else []

/-- The attempts of a command. -/
def Command.readings (m : Machine) : Command → List Reading
  | step => m.stepReadings
  | run bound _ => runReadings bound m.started
  | read => [m.reading]
  | _ => []

/-- The attempts of commands one after the other. -/
def readings (m : Machine) : List Command → List Reading
  | [] => []
  | c :: commands => c.readings m ++ (c.after m).readings commands

namespace InOrder

variable (m : Machine)

theorem step : InOrder m.input m.stepReadings (left (Machine.step m)).input := by
  rw [stepReadings]
  split
  · rename_i hread
    have hinput : (left (Machine.step m)).input = (left (Machine.read m)).input := by
      rw [step_of_comesTo_read hread, left_read]
      cases m.reading.result <;> rfl
    rw [hinput]
    exact read m
  · rename_i hother
    exact nil (input_step hother)

theorem runWithin (bound : Nat) (j : Journal) :
    InOrder m.input (runReadings bound m) (Machine.runWithin bound m j).2.1.input := by
  induction bound generalizing m j with
  | zero => exact nil rfl
  | succ bound ih =>
    rw [runReadings, Machine.runWithin]
    split
    · have hfirst := step m
      cases hstep : Machine.step m with
      | ok u next =>
        rw [hstep] at hfirst
        exact hfirst.append (ih next (m.announce j))
      | error f next =>
        rw [hstep] at hfirst
        dsimp only
        split
        · exact hfirst
        · exact hfirst
    · exact nil rfl

theorem run (bound : Nat) (j : Journal) :
    InOrder m.input (runReadings bound m.started) (Machine.run bound m j).2.1.input := by
  rw [run_eq]
  exact runWithin m.started bound _

theorem command (c : Command) : InOrder m.input (c.readings m) (c.after m).input := by
  cases c with
  | step => exact step m
  | run bound j => exact run m bound j
  | read => exact read m
  | push x => exact nil ((Blind.push x).input m)
  | pop => exact nil (Blind.pop.input m)
  | store address x => exact nil ((Blind.store address x).input m)
  | ensure address => exact nil ((Blind.ensure address).input m)
  | moveTo address => exact nil rfl
  | print line => exact nil rfl

theorem commands (cs : List Command) :
    InOrder m.input (m.readings cs) (cs.foldl Command.after m).input := by
  induction cs generalizing m with
  | nil => exact nil rfl
  | cons c cs ih => exact (command m c).append (ih (c.after m))

end InOrder

/-! ## The same words -/

/-- The second machine is the first one with another input, which has the same words. -/
def Agrees (m m' : Machine) : Prop := ∃ input : Input, input.words = m.input.words ∧ m' = m.withInput input

/-- The results are the same, and so are the machines, as far as the words of their input go. -/
inductive ResultsAgree {α : Type} :
    EStateM.Result Fault Machine α → EStateM.Result Fault Machine α → Prop
  | ok {a : α} {m m' : Machine} : Agrees m m' → ResultsAgree (.ok a m) (.ok a m')
  | error {f : Fault} {m m' : Machine} : Agrees m m' → ResultsAgree (.error f m) (.error f m')

namespace ResultsAgree

variable {α : Type} {r r' : EStateM.Result Fault Machine α}

theorem left (h : ResultsAgree r r') : Agrees (Machine.left r) (Machine.left r') := by
  cases h with
  | ok hm => exact hm
  | error hm => exact hm

theorem resultOf (h : ResultsAgree r r') : Machine.resultOf r' = Machine.resultOf r := by
  cases h <;> rfl

end ResultsAgree

/-- The action looks at nothing of the input but its words. -/
def Attends {α : Type} (x : Action α) : Prop := ∀ ⦃m m' : Machine⦄, Agrees m m' → ResultsAgree (x m) (x m')

/-- What does not look at the input at all does not look at anything but the words. -/
theorem Blind.attends {α : Type} {x : Action α} (hx : Blind x) : Attends x := by
  rintro m _ ⟨input, hwords, rfl⟩
  have hinput := hx.input m
  rw [hx m input]
  cases h : x m with
  | ok a m₁ =>
    rw [h] at hinput
    exact .ok ⟨input, hwords.trans (congrArg Input.words hinput).symm, rfl⟩
  | error f m₁ =>
    rw [h] at hinput
    exact .error ⟨input, hwords.trans (congrArg Input.words hinput).symm, rfl⟩

namespace Attends

variable {α β : Type}

theorem bind {x : Action α} {f : α → Action β} (hx : Attends x) (hf : ∀ a, Attends (f a)) :
    Attends (x >>= f) := by
  intro m m' h
  change ResultsAgree (EStateM.bind x f m) (EStateM.bind x f m')
  unfold EStateM.bind
  have hfirst := hx h
  generalize x m = r, x m' = r' at hfirst
  cases hfirst with
  | ok hnext => exact hf _ hnext
  | error hnext => exact .error hnext

theorem read : Attends Machine.read := by
  rintro m _ ⟨input, hwords, rfl⟩
  have hword : input.next.1 = m.input.next.1 := by rw [input.next_word, m.input.next_word, hwords]
  have hrest : input.next.2.words = m.input.next.2.words := by
    rw [input.words_next, m.input.words_next, hwords]
  unfold Machine.read
  dsimp only [withInput]
  generalize input.next = next', m.input.next = next at hword hrest
  obtain ⟨word, rest⟩ := next
  obtain ⟨word', rest'⟩ := next'
  obtain rfl : word' = word := hword
  cases word' with
  | none => exact .error ⟨rest', hrest, rfl⟩
  | some word =>
    dsimp only
    cases Number.readFloat? (String.ofList word) with
    | none => exact .error ⟨rest', hrest, rfl⟩
    | some x => exact .ok ⟨rest', hrest, rfl⟩

theorem perform (op : Opcode) (x : Operand) : Attends (perform op x) := by
  by_cases hop : op = .read
  · subst hop
    exact bind read fun y => bind (Blind.push y).attends fun _ => (Blind.pure none).attends
  · exact (Blind.perform hop x).attends

theorem decoded : Attends Machine.decoded := by
  refine Blind.attends fun m input => ?_
  have hsame : (m.withInput input).instruction? = m.instruction? := rfl
  unfold Machine.decoded
  rw [hsame]
  cases m.instruction? with
  | none => rfl
  | some i => cases h : decode i <;> simp [h, resultWith]

/-- A step looks at nothing but the words. -/
theorem step : Attends Machine.step :=
  bind decoded fun r => bind (perform r.1 r.2) fun target => Blind.attends (x := goTo target) fun _ _ => rfl

end Attends

/-! ## Everything that can be done with a machine, with the same words -/

/-- What is answered to a command: what comes of an action, or how a run has ended, if it has, and all that
has been said about it. -/
inductive Answer
  | done (result : Except Fault Unit)
  | number (result : Except Fault Float)
  | ended (outcome : Option Outcome) (j : Journal)

/-- The answer to a command. -/
def Command.answer (m : Machine) : Command → Answer
  | step => .done (resultOf (Machine.step m))
  | run bound j => .ended (Machine.run bound m j).1 (Machine.run bound m j).2.2
  | push x => .done (resultOf (Machine.push x m))
  | pop => .number (resultOf (Machine.pop m))
  | store address x => .done (resultOf (Machine.store address x m))
  | ensure address => .done (resultOf (Machine.ensure address m))
  | moveTo _ => .done (.ok ())
  | print line => .done (resultOf (Machine.print line m))
  | read => .number (resultOf (Machine.read m))

/-- The answers to commands one after the other. -/
def answers (m : Machine) : List Command → List Answer
  | [] => []
  | c :: commands => c.answer m :: (c.after m).answers commands

/-- Runs that have ended in the same way, with the same said about them, and the machines agree. -/
structure RunsAgree (r r' : Option Outcome × Machine × Journal) : Prop where
  outcome : r'.1 = r.1
  machine : Agrees r.2.1 r'.2.1
  journal : r'.2.2 = r.2.2

namespace Agrees

variable {m m' : Machine}

theorem reading (h : Agrees m m') : m'.reading = m.reading := by
  obtain ⟨input, hwords, rfl⟩ := h
  rw [reading_eq, reading_eq]
  change Reading.of input.words.head? = _
  rw [hwords]

theorem stepReadings (h : Agrees m m') : m'.stepReadings = m.stepReadings := by
  have hreading := h.reading
  obtain ⟨input, -, rfl⟩ := h
  have hcomes : (m.withInput input).ComesTo .read ↔ m.ComesTo .read := Iff.rfl
  simp only [Machine.stepReadings, hcomes, hreading]

/-- Stopping the machines changes nothing about that. -/
theorem stopped (h : Agrees m m') : Agrees { m with running := false } { m' with running := false } := by
  obtain ⟨input, hwords, rfl⟩ := h
  exact ⟨input, hwords, rfl⟩

theorem started (h : Agrees m m') : Agrees m.started m'.started := by
  obtain ⟨input, hwords, rfl⟩ := h
  exact ⟨input, hwords, rfl⟩

/-- The same is said about the instruction that comes next, and about a fault of it. -/
theorem announce (h : Agrees m m') (j : Journal) : m'.announce j = m.announce j := by
  obtain ⟨input, -, rfl⟩ := h
  rfl

theorem finding (h : Agrees m m') (j : Journal) (f : Fault) : m'.finding j f = m.finding j f := by
  obtain ⟨input, -, rfl⟩ := h
  rfl

/-- Both go on, or both have come to their end. -/
theorem goes (h : Agrees m m') :
    (m'.running && m'.instruction?.isSome) = (m.running && m.instruction?.isSome) := by
  obtain ⟨input, -, rfl⟩ := h
  rfl

/-- The attempts of a run are the same. -/
theorem runReadings (h : Agrees m m') (bound : Nat) :
    Machine.runReadings bound m' = Machine.runReadings bound m := by
  induction bound generalizing m m' with
  | zero => rfl
  | succ bound ih =>
    have hstep := Attends.step h
    rw [Machine.runReadings, Machine.runReadings, h.goes, h.stepReadings]
    generalize step m = r, step m' = r' at hstep
    cases hstep with
    | ok hnext =>
      dsimp only
      rw [ih hnext]
    | error hnext => rfl

/-- Running goes the same way. -/
theorem runWithin (h : Agrees m m') (bound : Nat) (j : Journal) :
    RunsAgree (Machine.runWithin bound m j) (Machine.runWithin bound m' j) := by
  induction bound generalizing m m' j with
  | zero => exact ⟨rfl, h, rfl⟩
  | succ bound ih =>
    have hstep := Attends.step h
    rw [Machine.runWithin, Machine.runWithin, h.goes, h.announce]
    split
    · generalize step m = r, step m' = r' at hstep
      cases hstep with
      | ok hnext => exact ih hnext _
      | error hnext =>
        dsimp only
        rw [hnext.finding]
        split
        · exact ⟨rfl, hnext, rfl⟩
        · exact ⟨rfl, hnext.stopped, rfl⟩
    · exact ⟨rfl, h.stopped, rfl⟩

theorem run (h : Agrees m m') (bound : Nat) (j : Journal) :
    RunsAgree (Machine.run bound m j) (Machine.run bound m' j) := by
  have hprogram : m'.program = m.program := by
    obtain ⟨input, -, rfl⟩ := h
    rfl
  have hrun := h.started.runWithin bound
    (j.say 1 ("--- Loaded " ++ toString m.program.size ++ " instructions ---"))
  rw [run_eq, run_eq, hprogram]
  dsimp only
  rw [hrun.outcome, hrun.journal]
  exact ⟨rfl, hrun.machine, rfl⟩

/-- A command does the same, with the same answer. -/
theorem command (h : Agrees m m') (c : Command) :
    c.answer m' = c.answer m ∧ c.readings m' = c.readings m ∧ Agrees (c.after m) (c.after m') := by
  cases c with
  | step =>
    have hstep := Attends.step h
    exact ⟨congrArg Answer.done hstep.resultOf, h.stepReadings, hstep.left⟩
  | run bound j =>
    have hrun := h.run bound j
    exact ⟨congrArg₂ Answer.ended hrun.outcome hrun.journal, h.started.runReadings bound, hrun.machine⟩
  | push x =>
    have hpush := (Blind.push x).attends h
    exact ⟨congrArg Answer.done hpush.resultOf, rfl, hpush.left⟩
  | pop =>
    have hpop := Blind.pop.attends h
    exact ⟨congrArg Answer.number hpop.resultOf, rfl, hpop.left⟩
  | store address x =>
    have hstore := (Blind.store address x).attends h
    exact ⟨congrArg Answer.done hstore.resultOf, rfl, hstore.left⟩
  | ensure address =>
    have hensure := (Blind.ensure address).attends h
    exact ⟨congrArg Answer.done hensure.resultOf, rfl, hensure.left⟩
  | moveTo address =>
    obtain ⟨input, hwords, rfl⟩ := h
    exact ⟨rfl, rfl, input, hwords, rfl⟩
  | print line =>
    obtain ⟨input, hwords, rfl⟩ := h
    exact ⟨rfl, rfl, input, hwords, rfl⟩
  | read =>
    have hread := Attends.read h
    exact ⟨congrArg Answer.number hread.resultOf, congrArg (fun r => [r]) h.reading, hread.left⟩

theorem commands (h : Agrees m m') (cs : List Command) :
    m'.answers cs = m.answers cs ∧ m'.readings cs = m.readings cs ∧
      Agrees (cs.foldl Command.after m) (cs.foldl Command.after m') := by
  induction cs generalizing m m' with
  | nil => exact ⟨rfl, rfl, h⟩
  | cons c cs ih =>
    obtain ⟨hanswer, hreadings, hafter⟩ := h.command c
    obtain ⟨hanswers, hrest, hlast⟩ := ih hafter
    refine ⟨?_, ?_, hlast⟩
    · rw [answers, answers, hanswer, hanswers]
    · rw [readings, readings, hreadings, hrest]

end Agrees

/-! ## A machine that begins with a text -/

/-- Texts with the same words are the same input. -/
theorem agrees_load (p : Program) {text text' : String}
    (h : Text.words text'.toList = Text.words text.toList) : Agrees (load p text) (load p text') :=
  ⟨.ofText text', h, rfl⟩

/-- Whatever the program, the text and what is done with the machine, the attempts to read take the words of
the text as a whole one after the other, and the words that are left are those behind them: no word is lost,
taken twice or out of turn, whether those before were numbers or not. An attempt is at the end of input
exactly if as many words as there are have been taken. What comes of an attempt is what becomes of a step
wherever the machine comes to the operation that reads. And with any other text that has the same words,
however these are spread over its lines, all goes the same way: the answers, the attempts, and the machine but
for the lines of its input. -/
theorem reads_words_in_order (p : Program) (text : String) (commands : List Command) :
    let words := Text.words text.toList
    let log := (load p text).readings commands
    let m := commands.foldl Command.after (load p text)
    (∀ k < log.length, log[k]? = some (.of words[k]?)) ∧
      (∀ k, ∀ r ∈ log[k]?, r.result = .error .endOfInput ↔ words.length ≤ k) ∧
      m.input.words = words.drop log.length ∧
      (m.ComesTo .read → m.step =
        match (Reading.of words[log.length]?).result with
        | .ok x => .ok () { m with stack := x :: m.stack, input := m.input.next.2, ip := m.ip + 1 }
        | .error f => .error f { m with input := m.input.next.2 }) ∧
      ∀ text' : String, Text.words text'.toList = words →
        (load p text').answers commands = (load p text).answers commands ∧
          (load p text').readings commands = log ∧
          Agrees m (commands.foldl Command.after (load p text')) := by
  intro words log m
  have hwords : (load p text).input.words = words := rfl
  have horder : InOrder (load p text).input log m.input := .commands (load p text) commands
  refine ⟨?_, ?_, ?_, ?_, ?_⟩
  · rw [← hwords]
    exact horder.taken
  · intro k r hr
    obtain ⟨hk, -⟩ := List.getElem?_eq_some_iff.mp hr
    have htaken := horder.taken k hk
    rw [Option.mem_def.mp hr, Option.some.injEq] at htaken
    rw [htaken, Reading.result_of_eq_endOfInput_iff, hwords, List.getElem?_eq_none_iff]
  · rw [← hwords]
    exact horder.rest
  · intro hread
    have hnext : m.reading = .of words[log.length]? := by
      rw [reading_eq, horder.rest, hwords, List.head?_drop]
    rw [step_of_comesTo_read hread, hnext]
  · intro text' htext'
    exact (agrees_load p htext').commands commands

/-- A program that reads two numbers and prints them. -/
def echoProgram : Program :=
  #[.of .read none, .of .print none, .of .read none, .of .print none, .of .halt none]

/-- A run that fails at a word which is no number, a second run, and an attempt at the end of input, with two
texts. -/
theorem reads_words_in_order_twice :
    let commands := [Command.run 5 {}, .run 5 {}, .read]
    let machine := load echoProgram "1\n\n  abc 2\n3"
    let other := load echoProgram "1 abc\n2 3 "
    (machine.readings commands).map (fun r => r.word.map String.ofList) =
        [some "1", some "abc", some "2", some "3", none] ∧
      (machine.readings commands)[1]? = some ⟨some "abc".toList, .error (.notANumber "abc")⟩ ∧
      (machine.readings commands)[4]? = some ⟨none, .error .endOfInput⟩ ∧
      other.answers commands = machine.answers commands ∧ other.readings commands = machine.readings commands ∧
      Agrees (commands.foldl Command.after machine) (commands.foldl Command.after other) := by
  intro commands machine other
  have hwords : (machine.readings commands).map (fun r => r.word.map String.ofList) =
      [some "1", some "abc", some "2", some "3", none] := by
    decide +kernel
  have hlength : (machine.readings commands).length = 5 := by simpa using congrArg List.length hwords
  have hsecond : 1 < (machine.readings commands).length := by omega
  have hlast : 4 < (machine.readings commands).length := by omega
  obtain ⟨htaken, -, -, -, hother⟩ := reads_words_in_order echoProgram "1\n\n  abc 2\n3" commands
  refine ⟨hwords, ?_, ?_, hother _ (by decide +kernel)⟩
  · rw [htaken 1 hsecond]
    rfl
  · rw [htaken 4 hlast]
    rfl

end Machine

end StackPrimer

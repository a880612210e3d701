import StackPrimer.Proofs.Discipline.Call
import StackPrimer.Proofs.Machine.Ending

/-!
# Runs of translations

A return address is pushed as a double-precision number, which is exact up to 2⁵³. Up to that size of
a program, and if every call passes as many arguments as the function has parameters, what holds
between two instructions holds throughout every run, on every input.

Results:
* `translation_disciplined`: the shape of the stack, the faults, and where a run can stop.
* `leave_returns`: leaving a function undoes what the call did to the stack, and goes on behind it.
-/

namespace StackPrimer.Discipline

open Grammar
open Compilation (token recursiveTokens recursiveProgram recursiveSource)

/-! ## Return addresses on the stack -/

/-- The numbers are the return addresses of the calls, one each. -/
abbrev Returns (calls : List OpenCall) (xs : List Float) : Prop :=
  List.Forall₂ (fun c x => ∃ back, ReturnAddress c x back) calls xs

/-- How many temporaries there are. -/
def Site.depth : Site → Nat
  | within _ _ depth => depth
  | entry arguments => arguments

/-- How many calls have begun whose function has not opened its frame. -/
def Site.begun : Site → Nat
  | within _ none _ => 0
  | within _ (some _) _ => 1
  | entry _ => 1

/-- The number of temporaries at each address. -/
def Sites.depth (sites : Sites) (a : Nat) : Nat := (sites a).elim 0 Site.depth

/-- The number of calls that have begun at each address. -/
def Sites.begun (sites : Sites) (a : Nat) : Nat := (sites a).elim 0 Site.begun

section Returns

variable {sites : Sites} {calls : List OpenCall} {frame : Nat} {frames : List Nat}

theorem Nested.returns {base : List Float} (h : Nested sites calls base frame frames) :
    Returns calls base ∧ base.length = frames.length := by
  induction h with
  | main hbase _ hframes =>
    rw [hbase, hframes]
    exact ⟨.nil, rfl⟩
  | call hreturn _ _ hbase hframes _ ih =>
    rw [hbase, hframes]
    exact ⟨.cons ⟨_, hreturn⟩ ih.1, by simp [ih.2]⟩

theorem Under.returns {inside : Bool} {pending : Option Nat} {under : List Float} (depth : Nat)
    (h : Under sites inside pending calls under frame frames) :
    Returns calls under ∧
      under.length = frames.length + (Site.within inside pending depth).begun := by
  cases h with
  | body hnested => exact hnested.returns
  | arguments hreturn _ _ _ hframes hnested =>
    obtain ⟨hreturns, hlength⟩ := hnested.returns
    rw [hframes] at hlength
    exact ⟨.cons ⟨_, hreturn⟩ hreturns, by simp [hlength, Site.begun]⟩

/-- The stack is made of the temporaries of the site and of return addresses. -/
theorem Stands.split {m : Machine} {s : Site} (h : Stands sites m calls s) :
    ∃ temps returns, m.stack = temps ++ returns ∧ temps.length = s.depth ∧
      Returns calls returns ∧ returns.length = m.calls.length + s.begun := by
  cases h with
  | @within inside pending calls temps under hstack hunder =>
    obtain ⟨hreturns, hlength⟩ := hunder.returns temps.length
    exact ⟨temps, under, hstack, rfl, hreturns, hlength⟩
  | @entry c rest x back temps hstack hreturn _ _ _ hcalls hnested =>
    obtain ⟨hreturns, hlength⟩ := hnested.returns
    rw [hcalls] at hlength
    exact ⟨temps, x :: c.before.stack, hstack, rfl, .cons ⟨back, hreturn⟩ hreturns,
      by simp [hlength, Site.begun]⟩

end Returns

/-! ## Whole runs -/

/-- Every machine that a run reaches is reached with some calls open. -/
theorem exists_visits {m₀ m : Machine} (h : m₀.Reaches m) : ∃ calls, Visits m₀ m calls := by
  induction h with
  | refl => exact ⟨[], .start⟩
  | tail _ hturn ih =>
    obtain ⟨calls, hvisits⟩ := ih
    exact ⟨_, .turn hvisits hturn⟩

section Run

variable {sites : Sites} {p : Program} {input : String} {m : Machine} {calls : List OpenCall}

/-- At a machine that is running there is an instruction, which proceeds. -/
theorem Holds.proceeds (hsites : WellSited sites p.toList) (hsize : p.size ≤ 2 ^ 53)
    (hprogram : m.program = p) (hr : m.running = true) (h : Holds sites m calls) :
    ∃ (a : Nat) (i : Instruction) (s : Site), m.ip = a ∧ a < p.size ∧ m.instruction? = some i ∧
      Fits sites a i ∧ sites a = some s ∧ Stands sites m calls s ∧ Proceeds sites m calls i := by
  obtain ⟨a, s, hip, hs, hstands⟩ := h.standing hr
  have hlt : a < p.size := by simpa using hsites.bound a s hs
  have hbound : ∀ b s', sites b = some s' → b < 2 ^ 53 := by
    intro b s' hb
    have hlt' : b < p.size := by simpa using hsites.bound b s' hb
    omega
  have hi : m.instruction? = some p[a] := by
    rw [Machine.instruction?_eq hip, hprogram, Array.getElem?_eq_getElem hlt]
  have hfit : Fits sites a p[a] := by
    have hfit' := hsites.fits a p[a] (by simp [hlt])
    rwa [Nat.zero_add] at hfit'
  exact ⟨a, p[a], s, hip, hlt, hi, hfit, hs, hstands, hstands.step hbound hr hip hi hfit hs⟩

/-- What holds between two instructions holds throughout the run. -/
theorem holds_of_visits (hsites : WellSited sites p.toList) (hsize : p.size ≤ 2 ^ 53)
    (h : Visits (Machine.load p input).started m calls) :
    m.program = p ∧ Holds sites m calls := by
  induction h with
  | start =>
    refine ⟨rfl, fun _ => ⟨0, _, rfl, hsites.start, ?_⟩, fun hstop => by cases hstop⟩
    exact .of_under rfl (.body (.main rfl rfl rfl))
  | @turn m m' calls _ hturn ih =>
    obtain ⟨hprogram, hholds⟩ := ih
    obtain ⟨a, i, s, -, -, -, -, -, -, hproceeds⟩ :=
      hholds.proceeds hsites hsize hprogram hturn.1
    rcases hproceeds with ⟨m'', hstep, hsame, hholds', -⟩ | ⟨f, m'', hstep, -⟩
    · obtain rfl : m' = m'' := by
        rw [hturn.2] at hstep
        cases hstep
        rfl
      exact ⟨hsame.trans hprogram, hholds'⟩
    · rw [hturn.2] at hstep
      cases hstep

/-- A call that is marked as carried out has been carried out by a call instruction. -/
theorem site_of_visits (hsites : WellSited sites p.toList) (hsize : p.size ≤ 2 ^ 53)
    (h : Visits (Machine.load p input).started m calls) :
    ∀ c ∈ calls, ∀ address, c.site = some address →
      ∃ a entry : Nat, address = a ∧ p[a]? = some (withInt .call entry) := by
  induction h with
  | start =>
    intro c hc
    cases hc
  | @turn m m' calls hvisits hturn ih =>
    obtain ⟨hprogram, hholds⟩ := holds_of_visits hsites hsize hvisits
    obtain ⟨a, i, s, hip, -, hi, hfit, -⟩ := hholds.proceeds hsites hsize hprogram hturn.1
    rw [opened_eq hi]
    -- only three instructions touch the list of open calls
    have hsame : openedBy m calls i = calls → ∀ c ∈ openedBy m calls i, ∀ address,
        c.site = some address →
          ∃ a entry : Nat, address = a ∧ p[a]? = some (withInt .call entry) := by
      intro hopened
      rw [hopened]
      exact ih
    cases hfit with
    | pushReturn =>
      intro c hc address hsite
      rcases List.mem_cons.mp hc with rfl | hc
      · cases hsite
      · exact ih c hc address hsite
    | @call _ _ entry =>
      intro c hc address hsite
      cases calls with
      | nil => cases hc
      | cons first rest =>
        rcases List.mem_cons.mp hc with rfl | hc
        · have hat := Machine.instruction?_eq hip
          rw [hi, hprogram] at hat
          obtain rfl : m.ip = address := Option.some.inj hsite
          exact ⟨a, entry, hip, hat.symm⟩
        · exact ih c (List.mem_cons_of_mem _ hc) address hsite
    | leave =>
      intro c hc
      exact ih c (List.mem_of_mem_tail hc)
    | load scope => exact hsame (by cases scope <;> rfl)
    | store scope => exact hsame (by cases scope <;> rfl)
    | @binary _ _ _ op _ hop => exact hsame (by cases op <;> first | rfl | cases hop)
    | _ => exact hsame rfl

end Run

/-- The machine after so many turns, with the calls that are then open, unless the run has ended. -/
def visit : (turns : Nat) → Machine → List OpenCall → Option (Machine × List OpenCall)
  | 0, m, calls => some (m, calls)
  | turns + 1, m, calls =>
    match m.running, m.step with
    | true, .ok _ m' => visit turns m' (opened m calls)
    | _, _ => none

theorem visits_of_visit {m₀ m m' : Machine} {calls calls' : List OpenCall} {turns : Nat}
    (h : Visits m₀ m calls) (hvisit : visit turns m calls = some (m', calls')) :
    Visits m₀ m' calls' := by
  induction turns generalizing m calls with
  | zero =>
    cases hvisit
    exact h
  | succ turns ih =>
    rw [visit] at hvisit
    split at hvisit
    · rename_i hr hstep
      exact ih (.turn h ⟨hr, hstep⟩) hvisit
    · cases hvisit

theorem exists_visits_of_visit {m₀ : Machine} {turns : Nat} {α : Type} {f : Machine × List OpenCall → α}
    {r : α} (h : (visit turns m₀ []).map f = some r) :
    ∃ m calls, Visits m₀ m calls ∧ f (m, calls) = r := by
  obtain ⟨⟨m, calls⟩, hvisit, hr⟩ := Option.map_eq_some_iff.mp h
  exact ⟨m, calls, visits_of_visit .start hvisit, hr⟩

/-- The address to which the next turn leads. -/
def next? (m : Machine) : Option Int :=
  match m.step with
  | .ok _ m' => some m'.ip
  | .error _ _ => none

/-! ## What is promised of a run -/

/-- A machine that has come to its end: it is behind the last instruction, which is the one that stops
it, and nothing is left on its stacks. -/
structure Finished (p : Program) (m : Machine) : Prop where
  ip : m.ip = p.size
  last : p.back? = some (plain .halt)
  stack : m.stack = []
  calls : m.calls = []
  frame : m.frame = 0

/-- What is promised of a machine that a run of the program reaches with these calls open. Of each
address there is `depth`, the number of temporaries, and `begun`, which is one while the arguments of
a call are being pushed and zero otherwise. -/
structure Disciplined (p : Program) (depth begun : Nat → Nat) (m : Machine) (calls : List OpenCall) :
    Prop where
  /-- Under the temporaries there is one return address for each open call. -/
  stack : m.running = true → ∃ (a : Nat) (temps returns : List Float), m.ip = a ∧ a < p.size ∧
    m.stack = temps ++ returns ∧ temps.length = depth a ∧ Returns calls returns ∧
    returns.length = m.calls.length + begun a
  /-- There are only these faults. -/
  faults : m.running = true → ∀ f m', m.step = .error f m' →
    ∃ i, m.instruction? = some i ∧ Faulty m i f
  /-- There is only one place to stop at. -/
  stops : m.running = true → ∀ m', m.step = .ok () m' → m'.running = false →
    m.instruction? = some (plain .halt) ∧ Finished p m'

section Promises

variable {sites : Sites} {p : Program} {input : String} {m m' : Machine} {calls : List OpenCall}

/-- Stopping happens behind the last instruction. -/
theorem finished_of_stopped (hsites : WellSited sites p.toList) (hprogram : m.program = p)
    (hi : m.instruction? = some (plain .halt)) (hstep : m.step = .ok () m')
    (h : Holds sites m' calls) (hstop : m'.running = false) : Finished p m' := by
  obtain ⟨hstack, hcalls, hframe, -, a, hip, hnone, s, hs⟩ := h.stopped hstop
  rw [Machine.step_eq hi, Machine.execute_halt] at hstep
  injection hstep with _ hm'
  have hat : m.ip = a := by
    rw [← hm'] at hip
    change m.ip + 1 = _ at hip
    omega
  have hlt : a < p.size := by simpa using hsites.bound a s hs
  have hend : a + 1 = p.size := by
    by_contra hne
    have hlt' : a + 1 < p.toList.length := by
      simp
      omega
    obtain ⟨s', hs'⟩ := hsites.total (a + 1) hlt'
    rw [hnone] at hs'
    cases hs'
  refine ⟨?_, ?_, hstack, hcalls, hframe⟩
  · rw [hip, ← hend]
    rfl
  · rw [Machine.instruction?_eq hat, hprogram] at hi
    rw [Array.back?, ← hend]
    exact hi

theorem disciplined_of_visits (hsites : WellSited sites p.toList) (hsize : p.size ≤ 2 ^ 53)
    (h : Visits (Machine.load p input).started m calls) :
    Disciplined p sites.depth sites.begun m calls := by
  obtain ⟨hprogram, hholds⟩ := holds_of_visits hsites hsize h
  refine ⟨fun hr => ?_, fun hr f m' hstep => ?_, fun hr m' hstep hstop => ?_⟩
  · obtain ⟨a, i, s, hip, hlt, -, -, hs, hstands, -⟩ := hholds.proceeds hsites hsize hprogram hr
    obtain ⟨temps, returns, hstack, hdepth, hreturns, hlength⟩ := hstands.split
    have hdepth' : temps.length = sites.depth a := by simp [Sites.depth, hs, hdepth]
    have hlength' : returns.length = m.calls.length + sites.begun a := by
      simp [Sites.begun, hs, hlength]
    exact ⟨a, temps, returns, hip, hlt, hstack, hdepth', hreturns, hlength'⟩
  · obtain ⟨a, i, s, -, -, hi, -, -, -, hproceeds⟩ := hholds.proceeds hsites hsize hprogram hr
    rcases hproceeds with ⟨m'', hstep', -⟩ | ⟨f', m'', hstep', hfaulty⟩
    · rw [hstep] at hstep'
      cases hstep'
    · rw [hstep] at hstep'
      injection hstep' with hf
      rw [hf]
      exact ⟨i, hi, hfaulty⟩
  · obtain ⟨a, i, s, -, -, hi, -, -, -, hproceeds⟩ := hholds.proceeds hsites hsize hprogram hr
    rcases hproceeds with ⟨m'', hstep', -, hholds', hhalt⟩ | ⟨f, m'', hstep', -⟩
    · obtain rfl : m' = m'' := by
        rw [hstep] at hstep'
        cases hstep'
        rfl
      obtain rfl := hhalt hstop
      exact ⟨hi, finished_of_stopped hsites hprogram hi hstep hholds' hstop⟩
    · rw [hstep] at hstep'
      cases hstep'

/-- A run that is complete has come to the end of the program. -/
theorem finished_of_run (hsites : WellSited sites p.toList) (hsize : p.size ≤ 2 ^ 53) {bound : Nat}
    {j j' : Journal} (h : (Machine.load p input).run bound j = (some .completed, m, j')) :
    Finished p m := by
  obtain ⟨last, hreaches, hstop, rfl⟩ := Machine.reaches_of_run h
  obtain ⟨calls, hvisits⟩ := exists_visits hreaches
  have hstopped : last.running = false := by
    rcases hstop with hstop | hnone
    · exact hstop
    · by_contra hrunning
      obtain ⟨hprogram, hholds⟩ := holds_of_visits hsites hsize hvisits
      obtain ⟨a, i, s, -, -, hi, -⟩ :=
        hholds.proceeds hsites hsize hprogram (by simpa using hrunning)
      rw [hnone] at hi
      cases hi
  have hfinished : Finished p last := by
    cases hvisits with
    | start => cases hstopped
    | turn hvisits hturn =>
      exact ((disciplined_of_visits hsites hsize hvisits).stops hturn.1 last hturn.2 hstopped).2
  exact ⟨hfinished.ip, hfinished.last, hfinished.stack, hfinished.calls, hfinished.frame⟩

end Promises

/-- The code of a translation cannot go wrong: the stream that is compiled spells a tree, and if every
call of the tree passes as many arguments as the function has parameters, then on every input each
machine that a run reaches has the stack, the faults and the way to stop that `Disciplined` says, and
a run that is complete has come to the end of the program with nothing on its stacks.

The operation that pushes a return address makes a double-precision number of it, and two addresses
beyond 2⁵³ can give the same number. -/
theorem translation_disciplined {tokens : List Token} {p : Program}
    (h : (Compilation.run tokens {} {}).1 = .ok p) (hsize : p.size ≤ 2 ^ 53) :
    (∃ source : Grammar.Source, source.Explains tokens p) ∧
      ∀ source : Grammar.Source, source.Explains tokens p → source.CallsMatch →
        ∃ depth begun : Nat → Nat, ∀ input,
          (∀ m calls, Visits (Machine.load p input).started m calls →
            Disciplined p depth begun m calls) ∧
          ∀ bound j m j', (Machine.load p input).run bound j = (some .completed, m, j') →
            Finished p m := by
  refine ⟨Compilation.run_ok h, ?_⟩
  intro source hsource hcalls
  obtain ⟨sites, hsites⟩ := exists_sites hsource.wellScoped hcalls
  rw [← hsource.code] at hsites
  refine ⟨sites.depth, sites.begun, fun input => ⟨?_, ?_⟩⟩
  · intro m calls hvisits
    exact disciplined_of_visits hsites hsize hvisits
  · intro bound j m j' hrun
    exact finished_of_run hsites hsize hrun

/-- A choice inside a function that calls itself, on one word. -/
theorem translation_disciplined_recursive :
    (Compilation.run recursiveTokens {} {}).1 = .ok recursiveProgram ∧
      recursiveProgram.size ≤ 2 ^ 53 ∧ recursiveSource.Explains recursiveTokens recursiveProgram ∧
      recursiveSource.CallsMatch ∧
      ∃ depth begun m calls, Visits (Machine.load recursiveProgram "3").started m calls ∧
        m.instruction? = some (plain .greater) ∧ Disciplined recursiveProgram depth begun m calls := by
  have h := Compilation.run_recursiveTokens
  have hsize : recursiveProgram.size ≤ 2 ^ 53 := by decide
  have hexplains := Compilation.recursiveSource_explains
  have hcalls := Compilation.recursiveSource_callsMatch
  have hrun : (visit 12 (Machine.load recursiveProgram "3").started []).map
      (fun r => r.1.instruction?) = some (some (plain .greater)) := by
    decide +kernel
  obtain ⟨m, calls, hvisits, hi⟩ := exists_visits_of_visit hrun
  obtain ⟨depth, begun, hall⟩ :=
    (translation_disciplined h hsize).2 recursiveSource hexplains hcalls
  exact ⟨h, hsize, hexplains, hcalls, depth, begun, m, calls, hvisits, hi,
    (hall "3").1 m calls hvisits⟩

/-- Beyond 2⁵³ an address may not be the number that is pushed for it. -/
example : Number.ofInt? (2 ^ 53 + 1) = Number.ofInt? (2 ^ 53) := by decide +kernel

/-! ## Leaving a function -/

/-- Leaving a function undoes its call: control goes to the instruction behind the call instruction
that the last open call has carried out, the frame is that of the caller, and the stack is what it
was when the machine came to the instruction that pushed the return address. -/
def RoundTrip (m : Machine) (calls : List OpenCall) : Prop :=
  ∃ (c : OpenCall) (rest : List OpenCall) (a entry : Nat) (m' : Machine), calls = c :: rest ∧
    c.before.instruction? = some (withInt .pushReturn (a + 1)) ∧
    c.site = some (a : Int) ∧ m.program[a]? = some (withInt .call entry) ∧
    m.step = .ok () m' ∧ m'.ip = a + 1 ∧ m'.frame = c.before.frame ∧ m'.stack = c.before.stack

/-- If every call passes as many arguments as the function has parameters, then leaving a function
always undoes its call. -/
theorem leave_returns {tokens : List Token} {p : Program}
    (h : (Compilation.run tokens {} {}).1 = .ok p) (hsize : p.size ≤ 2 ^ 53) :
    (∃ source : Grammar.Source, source.Explains tokens p) ∧
      ∀ source : Grammar.Source, source.Explains tokens p → source.CallsMatch →
        ∀ input m calls, Visits (Machine.load p input).started m calls → m.running = true →
          m.instruction? = some (plain .leave) → RoundTrip m calls := by
  refine ⟨Compilation.run_ok h, ?_⟩
  intro source hsource hcalls input m calls hvisits hr hi
  obtain ⟨sites, hsites⟩ := exists_sites hsource.wellScoped hcalls
  rw [← hsource.code] at hsites
  obtain ⟨hprogram, hholds⟩ := holds_of_visits hsites hsize hvisits
  obtain ⟨b, i, s, -, -, hi', hfit, hs, hstands, -⟩ := hholds.proceeds hsites hsize hprogram hr
  obtain rfl : i = plain .leave := Option.some.inj (hi'.symm.trans hi)
  obtain rfl : s = .between true := Option.some.inj (hs.symm.trans hfit.leave_inside)
  obtain ⟨c, rest, x, back, m', rfl, hreturn, hsite, -, -, hexecute, hip, hstack, hframe, -⟩ :=
    execute_leave_of_stands hstands
  obtain ⟨a, entry, ha, hcall⟩ :=
    site_of_visits hsites hsize hvisits c (List.mem_cons_self ..) _ hsite
  obtain rfl : back = a + 1 := by omega
  rw [ha] at hsite
  rw [← hprogram] at hcall
  exact ⟨c, rest, a, entry, m', rfl, hreturn.pushed, hsite, hcall,
    (Machine.step_eq hi).trans hexecute, hip, hframe, hstack⟩

/-- A function that prints its argument is called by one that calls itself, and left. -/
theorem leave_returns_recursive : (Compilation.run recursiveTokens {} {}).1 = .ok recursiveProgram ∧
    recursiveProgram.size ≤ 2 ^ 53 ∧ recursiveSource.Explains recursiveTokens recursiveProgram ∧
    recursiveSource.CallsMatch ∧
    ∃ m calls, Visits (Machine.load recursiveProgram "3").started m calls ∧ m.running = true ∧
      m.instruction? = some (plain .leave) ∧ RoundTrip m calls := by
  have h := Compilation.run_recursiveTokens
  have hsize : recursiveProgram.size ≤ 2 ^ 53 := by decide
  have hexplains := Compilation.recursiveSource_explains
  have hcalls := Compilation.recursiveSource_callsMatch
  have hrun : (visit 16 (Machine.load recursiveProgram "3").started []).map
      (fun r => (r.1.running, r.1.instruction?)) = some (true, some (plain .leave)) := by
    decide +kernel
  obtain ⟨m, calls, hvisits, hm⟩ := exists_visits_of_visit hrun
  injection hm with hr hi
  exact ⟨h, hsize, hexplains, hcalls, m, calls, hvisits, hr, hi,
    (leave_returns h hsize).2 recursiveSource hexplains hcalls "3" m calls hvisits hr hi⟩

/-- A function `f` of `a` that prints `a`; a function `g` that calls `f` without argument and prints
what it reads; a call of `g`. -/
def shortTokens : List Token :=
  [token (.word .defWord) "def", token .name "f", token (.sign .opening) "(", token .name "a",
    token (.sign .closing) ")", token (.sign .colon) ":", token .indent "  ",
    token (.word .printWord) "print", token (.sign .opening) "(", token .name "a",
    token (.sign .closing) ")",
    token (.word .defWord) "def", token .name "g", token (.sign .opening) "(",
    token (.sign .closing) ")", token (.sign .colon) ":", token .indent "  ",
    token .name "f", token (.sign .opening) "(", token (.sign .closing) ")", token .indent "  ",
    token (.word .printWord) "print", token (.sign .opening) "(", token (.word .inputWord) "input",
    token (.sign .opening) "(", token (.sign .closing) ")", token (.sign .closing) ")",
    token .name "g", token (.sign .opening) "(", token (.sign .closing) ")", token .finish ""]

/-- The program that they stand for. -/
def shortProgram : Program :=
  #[plain .start, withInt .jump 7, plain .enter, withInt .storeLocal 0, withInt .loadLocal 0,
    plain .print, plain .leave, withInt .jump 14, plain .enter, withInt .pushReturn 11,
    withInt .call 2, plain .read, plain .print, plain .leave, withInt .pushReturn 16, withInt .call 8,
    plain .halt]

/-- Without the condition on the number of arguments, leaving a function may go astray: `f` takes its
own return address for its argument, and goes on behind the call of `g`. -/
theorem leave_astray_short : (Compilation.run shortTokens {} {}).1 = .ok shortProgram ∧
    ∃ m calls, Visits (Machine.load shortProgram "").started m calls ∧ m.running = true ∧
      m.instruction? = some (plain .leave) ∧ ¬ RoundTrip m calls := by
  have h : (Compilation.run shortTokens {} {}).1 = .ok shortProgram := by decide +kernel
  have hrun : (visit 12 (Machine.load shortProgram "").started []).map
      (fun r => (r.1.running, r.1.instruction?, r.2.head?.bind (·.site), next? r.1)) =
      some (true, some (plain .leave), some 10, some 16) := by
    decide +kernel
  obtain ⟨m, calls, hvisits, hm⟩ := exists_visits_of_visit hrun
  simp only [Prod.mk.injEq] at hm
  obtain ⟨hr, hi, hsite, hnext⟩ := hm
  refine ⟨h, m, calls, hvisits, hr, hi, ?_⟩
  rintro ⟨c, rest, a, entry, m', rfl, -, ha, -, hstep, hip, -⟩
  have ha' : (a : Int) = 10 := Option.some.inj (ha.symm.trans hsite)
  have hip' : m'.ip = 16 := by
    rw [next?, hstep] at hnext
    exact Option.some.inj hnext
  omega

end StackPrimer.Discipline

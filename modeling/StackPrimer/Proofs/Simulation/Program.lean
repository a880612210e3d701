import StackPrimer.Proofs.Discipline.Run
import StackPrimer.Proofs.Simulation.Statement

/-!
# Programs on the machine

A program that is compiled does on the machine what its tree means: if carrying out the tree comes to
its end, then so does the run, with the same lines printed, the same words read, and the values of the
variables in their cells.

Results:
* `run_preserves_meaning`: the run of a program that is compiled ends as its tree does.
-/

namespace StackPrimer.Simulation

open Grammar
open Compilation (recursiveTokens recursiveProgram recursiveSource)

/-! ## Declarations -/

theorem le_namesBehind (n : Names) (ds : List Declaration) : n.Le (namesBehind n ds) := by
  induction ds generalizing n with
  | nil => exact .refl n
  | cons d ds ih =>
    have hd : n.Le (d.names n) := by
      cases d with
      | assign x e => exact Names.le_bind n x
      | define f parameters body => exact .refl n
    exact hd.trans (ih _)

section Declarations

variable {p : Program} {G : List String} {n fin : Names} {σ σ' : Store} {m : Machine} {start : Nat}
variable {functions : List String} {entries : Entries} {defs : Definitions} {ds : List Declaration}
variable {is : List Instruction}

/-- The functions that are declared stand at their entries. -/
theorem inPlace_of_listed (h : Listed functions entries defs n start ds is)
    (hcode : CodeAt p start is) (hG : (namesBehind n ds).globals <+: G)
    (hmatch : ∀ d ∈ ds, d.CallsMatch defs.arity) {f : String} {parameters : List String} {body : Block}
    (hmem : .define f parameters body ∈ ds) :
    ∃ d entry, defs f = some d ∧ entries f = some entry ∧ InPlace p G entries defs.arity d entry := by
  induction h with
  | nil => cases hmem
  | @assign n start x e ds is rest _ _ _ ih =>
    rw [List.forall_mem_cons] at hmatch
    exact ih hcode.right hG hmatch.2 (by simpa using hmem)
  | @define n start g parameters' body' ds is rest hdef hentry _ his _ ih =>
    rw [List.forall_mem_cons] at hmatch
    rcases List.mem_cons.mp hmem with heq | hmem
    · cases heq
      refine ⟨_, start + 1, hdef, hentry, ?_, Names.home_enter .., fun x hx => Names.mem_enter hx, ?_,
        hmatch.1⟩
      · have hfirst := hcode.left
        rw [his] at hfirst
        exact hfirst.tail
      · have hglobals := (body.globals_names (Names.home_enter n parameters)).trans
          (Names.globals_enter n parameters)
        rw [hglobals]
        exact (le_namesBehind n ds).globals.trans hG
    · exact ih hcode.right hG hmatch.2 hmem

/-- A function that is there has been declared. -/
theorem exists_define_of_definition {d : Definition} {f : String}
    (h : definitionsBehind defs n ds f = some d) (hdefs : defs f = none) :
    ∃ parameters body, .define f parameters body ∈ ds := by
  induction ds generalizing defs n with
  | nil =>
    rw [definitionsBehind, hdefs] at h
    cases h
  | cons first ds ih =>
    cases first with
    | assign x e =>
      obtain ⟨parameters, body, hmem⟩ := ih h hdefs
      exact ⟨parameters, body, List.mem_cons_of_mem _ hmem⟩
    | define g parameters body =>
      by_cases hf : f = g
      · subst hf
        exact ⟨parameters, body, List.mem_cons_self ..⟩
      · obtain ⟨parameters', body', hmem⟩ := ih h (by simp [Declaration.definitions, hf, hdefs])
        exact ⟨parameters', body', List.mem_cons_of_mem _ hmem⟩

/-- Declarations are carried out alike: functions are jumped over. -/
theorem declarations_follow (h : Listed functions entries defs n start ds is)
    (hready : Ready p G fin σ m start) (hcode : CodeAt p start is) (hn : (namesBehind n ds).Le fin)
    (hG : fin.globals <+: G) (hexec : declarationsExec n ds σ = .ok () σ') :
    ∃ m', Follows p G fin σ σ' m m' (start + is.length) m.stack := by
  induction h generalizing σ m with
  | nil =>
    obtain ⟨-, rfl⟩ := pure_eq_ok.mp hexec
    exact ⟨m, hready.refl⟩
  | @assign n start x e ds is rest _ his _ ih =>
    simp only [declarationsExec, Declaration.exec, bind_eq_ok] at hexec
    obtain ⟨_, σ₂, ⟨v, σ₁, hv, hassign⟩, hexec⟩ := hexec
    have hx : (n.bind x).Le fin := (le_namesBehind (n.bind x) ds).trans hn
    have hfirst := hcode.left
    rw [his] at hfirst
    obtain ⟨m₁, h₁⟩ := hready.allocate hfirst.head
    obtain ⟨m₂, h₂⟩ := assign_follows h₁.ready hfirst.tail hx hG hv hassign
    have htarget : start + 1 + (e.code (n.bind x) ++ [(n.bind x).store x]).length =
        start + is.length := by
      rw [his]
      simp
      omega
    rw [htarget, h₁.stack] at h₂
    obtain ⟨m₃, h₃⟩ := ih h₂.ready hcode.right hn hexec
    rw [h₂.stack] at h₃
    rw [List.length_append, ← Nat.add_assoc]
    exact ⟨m₃, (h₁.trans h₂).trans h₃⟩
  | @define n start f parameters body ds is rest _ _ _ his _ ih =>
    simp only [declarationsExec, Declaration.exec, bind_eq_ok, pure_eq_ok] at hexec
    obtain ⟨_, _, ⟨-, rfl⟩, hexec⟩ := hexec
    have hfirst := hcode.left
    rw [his] at hfirst
    obtain ⟨m₁, h₁⟩ := hready.jump hfirst.head
    have htarget : start + 1 +
        (Definition.code entries ⟨parameters, body, n.enter parameters⟩ (start + 1)).length =
        start + is.length := by
      rw [his]
      simp
      omega
    rw [htarget] at h₁
    obtain ⟨m₂, h₂⟩ := ih h₁.ready hcode.right hn hexec
    rw [h₁.stack] at h₂
    rw [List.length_append, ← Nat.add_assoc]
    exact ⟨m₂, h₁.trans h₂⟩

end Declarations

/-! ## Enough memory -/

theorem turns_unique {m m₁ m₂ : Machine} (h₁ : m.Turns m₁) (h₂ : m.Turns m₂) : m₁ = m₂ := by
  have hstep := h₁.2
  rw [h₂.2] at hstep
  cases hstep
  rfl

/-- A run that is complete has had enough memory all the time. -/
theorem roomy_of_run {m m' : Machine} {bound : Nat} {j j' : Journal}
    (h : m.run bound j = (some .completed, m', j')) : Roomy m.started := by
  obtain ⟨last, hlast, hstop, -⟩ := Machine.reaches_of_run h
  intro m₁ hm₁ hr address m₂ hstep
  -- the machine that faults would be the last one, or before it
  have hunique : Relator.RightUnique Machine.Turns := fun _ _ _ => turns_unique
  have hbefore : m₁ = last := by
    rcases hm₁.total_of_right_unique hunique hlast with hreaches | hreaches
    · rcases hreaches.cases_head with heq | ⟨next, hturn, -⟩
      · exact heq
      · rw [hturn.2] at hstep
        cases hstep
    · rcases hreaches.cases_head with heq | ⟨next, hturn, -⟩
      · exact heq.symm
      · rcases hstop with hstopped | hnone
        · rw [hturn.1] at hstopped
          cases hstopped
        · obtain ⟨i, hi⟩ := Machine.exists_instruction hturn.2
          rw [hnone] at hi
          cases hi
  subst hbefore
  rcases hstop with hstopped | hnone
  · rw [hr] at hstopped
    cases hstopped
  · rw [Machine.step_of_none hnone] at hstep
    cases hstep

/-! ## Programs -/

/-- All variables of the program, in the order of their addresses. -/
def allNames (source : Grammar.Source) : List String :=
  (source.statements.names source.names).globals

/-- The machine ends as the store says: the same lines have been printed, the same words are left,
each variable of the program that has a value has it in its cell, and nothing else is going on. -/
structure EndsAs (source : Grammar.Source) (σ : Store) (m : Machine) : Prop where
  printed : m.printed = σ.printed
  words : m.input.words = σ.words
  globals : ∀ x v, σ.globals x = some v →
    x ∈ allNames source ∧ m.memory[(allNames source).idxOf x]? = some v
  stack : m.stack = []
  calls : m.calls = []
  frame : m.frame = 0

section Program

variable {p : Program} {source : Grammar.Source} {input : String} {σ : Store}

/-- The return addresses in the code of a program are addresses of its instructions. -/
theorem small_of_explains (hscoped : source.Scoped) (hcalls : source.CallsMatch)
    (hcode : p.toList = source.code) (hsize : p.size ≤ 2 ^ 53) {a back : Nat}
    (h : p[a]? = some (withInt .pushReturn back)) : back < 2 ^ 53 := by
  obtain ⟨sites, hsites⟩ := Discipline.exists_sites hscoped hcalls
  rw [← hcode] at hsites
  have hfit := hsites.fits a _ (by rw [Array.getElem?_toList]; exact h)
  obtain ⟨s, hs⟩ := hfit.exists_back
  have hlt := hsites.bound back s hs
  rw [Array.length_toList] at hlt
  omega

theorem codeAt_toList {is : List Instruction} (h : p.toList = is) : CodeAt p 0 is := by
  intro j i hi
  rw [← h, Array.getElem?_toList] at hi
  rwa [Nat.zero_add]

/-- All functions of a program stand at their entries. -/
theorem linked_of_explains (hscoped : source.Scoped) (hcalls : source.CallsMatch)
    (hcode : p.toList = source.code) (hsize : p.size ≤ 2 ^ 53) :
    Linked p (allNames source) source.entries source.definitions where
  inPlace f d hd := by
    have hat := codeAt_toList hcode
    unfold Grammar.Source.code at hat
    obtain ⟨parameters, body, hmem⟩ := exists_define_of_definition hd rfl
    have hG : source.names.globals <+: allNames source :=
      (source.statements.le_names source.names).globals
    obtain ⟨d', entry, hd', hentry, hplace⟩ := inPlace_of_listed (Grammar.Source.listed hscoped)
      hat.left.left.tail hG hcalls.1 hmem
    obtain rfl : d' = d := Option.some.inj (hd'.symm.trans hd)
    exact ⟨entry, hentry, hplace⟩
  small _ _ h := small_of_explains hscoped hcalls hcode hsize h

/-- At the beginning the machine agrees with the store in which nothing has been assigned. -/
theorem ready_start (source : Grammar.Source) (p : Program) (input : String)
    (hroomy : Roomy (Machine.load p input).started) :
    Ready p (allNames source) (source.statements.names source.names)
      { words := Text.words input.toList } (Machine.load p input).started 0 where
  running := rfl
  ip := rfl
  program := rfl
  roomy := hroomy
  agrees :=
    { globals := fun x v hv => by cases hv
      locals := fun x v hv => by cases hv
      apart := fun _ x v hv => by cases hv
      outside := fun _ => rfl
      fits := Nat.le_refl _
      words := rfl
      printed := rfl }

end Program

/-- What a program that is compiled does on the machine is what its tree means. The stream that is
compiled spells a tree; if every call of the tree passes as many arguments as the function has
parameters, if carrying out the tree on the words of the input comes to its end, and if there is
enough memory, then the run is completed and the machine ends as the store says.

Up to 2⁵³, the double-precision number that is pushed for a return address is that address. -/
theorem run_preserves_meaning {tokens : List Token} {p : Program}
    (h : (Compilation.run tokens {} {}).1 = .ok p) (hsize : p.size ≤ 2 ^ 53) :
    (∃ source : Grammar.Source, source.Explains tokens p) ∧
      ∀ source : Grammar.Source, source.Explains tokens p → source.CallsMatch →
        ∀ input fuel σ, source.interpret fuel (Text.words input.toList) = .ok () σ →
          Roomy (Machine.load p input).started →
            ∀ j, ∃ bound m j', (Machine.load p input).run bound j = (some .completed, m, j') ∧
              EndsAs source σ m := by
  refine ⟨Compilation.run_ok h, ?_⟩
  intro source hsource hcalls input fuel σ hexec hroomy j
  have hlinked := linked_of_explains hsource.wellScoped hcalls hsource.code hsize
  have hstart := ready_start source p input hroomy
  have hcode := codeAt_toList hsource.code
  unfold Grammar.Source.code at hcode
  set first := declarationsCode noEntries {} 1 source.declarations with hfirst
  set fin := source.statements.names source.names with hfin
  have hle : source.names.Le fin := source.statements.le_names source.names
  -- the tree is carried out in two parts
  unfold Grammar.Source.interpret Grammar.Source.exec at hexec
  simp only [bind_eq_ok] at hexec
  obtain ⟨_, σ₁, hdeclarations, hstatements⟩ := hexec
  have h₁ := hstart.goOn hcode.left.left.head (Machine.execute_start _) (b := 1) rfl
  obtain ⟨m₂, h₂⟩ := declarations_follow (Grammar.Source.listed hsource.wellScoped) h₁.ready
    hcode.left.left.tail hle List.prefix_rfl hdeclarations
  have hblockAt : CodeAt p (1 + first.length)
      (source.statements.code source.entries source.names (1 + first.length)) := by
    have hright := hcode.left.right
    rwa [List.length_cons, Nat.zero_add, Nat.add_comm first.length 1] at hright
  obtain ⟨m₃, h₃⟩ := (carried hlinked fuel).block h₂.ready hblockAt (.refl _) List.prefix_rfl hcalls.2
    hstatements
  -- and the machine stops
  have hall := (h₁.trans h₂).trans h₃
  have hhalt : p[1 + first.length + (source.statements.code source.entries source.names
      (1 + first.length)).length]? = some (plain .halt) := by
    have hlast := hcode.right.head
    rwa [List.length_append, List.length_cons, Nat.zero_add, Nat.add_comm first.length 1] at hlast
  have hturn := Machine.turns_of_execute h₃.ready.running (h₃.ready.instruction? hhalt)
    (Machine.execute_halt m₃)
  obtain ⟨bound, j', hrun⟩ := Machine.run_of_reaches (hall.reaches.tail hturn) rfl j
  have hagrees := h₃.ready.agrees
  have hstack : m₃.stack = [] := hall.stack.trans (h₂.stack.trans rfl)
  exact ⟨bound, _, j', hrun, hagrees.printed, hagrees.words, hagrees.globals, hstack, hall.calls,
    hall.frame⟩

/-- A function that would call itself with a smaller number prints the one that it has been given. -/
theorem run_preserves_meaning_recursive :
    (Compilation.run recursiveTokens {} {}).1 = .ok recursiveProgram ∧
      recursiveProgram.size ≤ 2 ^ 53 ∧ recursiveSource.Explains recursiveTokens recursiveProgram ∧
      recursiveSource.CallsMatch ∧ Roomy (Machine.load recursiveProgram "3").started ∧
      ∃ σ, recursiveSource.interpret 6 (Text.words "3".toList) = .ok () σ ∧ σ.printed = ["3"] ∧
        ∀ j, ∃ bound m j', (Machine.load recursiveProgram "3").run bound j =
          (some .completed, m, j') ∧ EndsAs recursiveSource σ m := by
  have h := Compilation.run_recursiveTokens
  have hsize : recursiveProgram.size ≤ 2 ^ 53 := by decide
  have hexplains := Compilation.recursiveSource_explains
  have hcalls := Compilation.recursiveSource_callsMatch
  have hdone : ((Machine.load recursiveProgram "3").run 40 {}).1 = some .completed := by
    decide +kernel
  have hroomy : Roomy (Machine.load recursiveProgram "3").started := by
    rcases hrun : (Machine.load recursiveProgram "3").run 40 {} with ⟨outcome, m, j⟩
    rw [hrun] at hdone
    rw [show outcome = some .completed from hdone] at hrun
    exact roomy_of_run hrun
  have hmeaning : EStateM.Result.casesOn (motive := fun _ => Option (List String))
      (recursiveSource.interpret 6 (Text.words "3".toList)) (fun _ σ => some σ.printed)
      (fun _ _ => none) = some ["3"] := by
    decide +kernel
  cases hexec : recursiveSource.interpret 6 (Text.words "3".toList) with
  | error t σ =>
    rw [hexec] at hmeaning
    cases hmeaning
  | ok u σ =>
    rw [hexec] at hmeaning
    exact ⟨h, hsize, hexplains, hcalls, hroomy, σ, rfl, Option.some.inj hmeaning,
      (run_preserves_meaning h hsize).2 recursiveSource hexplains hcalls "3" 6 σ hexec hroomy⟩

end StackPrimer.Simulation

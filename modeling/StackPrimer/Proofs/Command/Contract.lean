import StackPrimer.Proofs.Command.Path
import StackPrimer.Proofs.Command.Session
import StackPrimer.Proofs.Command.Store
import StackPrimer.Proofs.Confinement.Program
import StackPrimer.Proofs.Failure.SourceText
import StackPrimer.Proofs.Listing.Compiled

/-!
# What the command promises

Whatever is in the files and whatever is asked for, nothing but the object file may change, and that only to
the listing of a program that has been compiled. The exit status tells whether something was filed, which
happens no more than once. And a program runs from its listing as it runs without one, now or later.

Results:
* `execution_of_listing`: a run from a listing takes the course of the program.
* `session_listed`: what comes of running a file.
* `work_contract`: all that is promised.
-/

namespace StackPrimer

namespace Journal

@[simp] theorem findings_complain (j : Journal) : j.complain.findings = j.findings := j.complain_keeps.findings

end Journal

namespace Command

/-! ## Verdicts -/

/-- The exit status is that for what is filed, which is one finding at most. -/
structure Verdict.Fair (v : Verdict) : Prop where
  status : v.status = if v.journal.findings = [] then 0 else 1
  once : v.journal.findings.length ≤ 1

theorem verdict_fair {j : Journal} (h : j.findings.length ≤ 1) (printed : String) : (verdict printed j).Fair where
  status := by
    change (if j.isClean then 0 else 1) = if j.complain.findings = [] then 0 else 1
    rw [Journal.findings_complain, Journal.isClean]
    cases j.findings <;> rfl
  once := by
    change j.complain.findings.length ≤ 1
    rwa [Journal.findings_complain]

/-- Nothing has been filed yet, and the first finding will not fill the journal. -/
structure Fresh (j : Journal) : Prop where
  findings : j.findings = []
  limit : j.limit ≠ 1

namespace Fresh

variable {j j' : Journal}

theorem room (h : Fresh j) : j.findings.length + 1 ≠ j.limit := by
  rw [h.findings]
  exact Ne.symm h.limit

theorem of_keeps (h : Fresh j) (hkeeps : j.Keeps j') : Fresh j' :=
  ⟨hkeeps.findings.trans h.findings, by rw [hkeeps.limit]; exact h.limit⟩

theorem file (h : Fresh j) (f : Finding) : (j.file f).findings.length ≤ 1 := by
  rw [Journal.findings_file, h.findings]
  exact Nat.le_refl 1

theorem start (verbosity : Int) : Fresh { verbosity } := ⟨rfl, by simp⟩

end Fresh

/-! ## Compiling -/

section Compile

variable {text : String} {name : Option String} {j j' : Journal} {p : Program}

theorem compile_eq_some (h : compile text name j = (some p, j')) :
    (∃ globals, Compilation.compileTokens (Token.stream text) = .ok (p, globals)) ∧ j.Keeps j' := by
  unfold compile at h
  split at h
  · rename_i p' globals htokens
    cases h
    exact ⟨⟨globals, htokens⟩, .say ..⟩
  · split at h <;> cases h

/-- Where there is no program, there is one finding more. -/
theorem compile_eq_none (h : compile text name j = (none, j')) :
    (∀ p globals, Compilation.compileTokens (Token.stream text) ≠ .ok (p, globals)) ∧ ∃ f, j' = j.file f := by
  unfold compile at h
  split at h
  · cases h
  · rename_i e htokens
    have hnone : ∀ p globals, Compilation.compileTokens (Token.stream text) ≠ .ok (p, globals) := by
      intro p globals hok
      rw [htokens] at hok
      cases hok
    refine ⟨hnone, ?_⟩
    obtain ⟨f, hf⟩ := (Compilation.reported_of_compileTokens htokens).exists_finding ⟨text, name⟩
    rw [hf] at h
    cases h
    exact ⟨f, rfl⟩

end Compile

namespace Store

/-- The source file can be read, and its text stands for the program. -/
def Compiles (s : Store) (o : Options) (p : Program) : Prop :=
  ∃ text, s.text? (Path.ofText o.program) = .ok text ∧
    ∃ globals, Compilation.compileTokens (Token.stream text) = .ok (p, globals)

theorem Compiles.unique {s : Store} {o : Options} {p p' : Program} (h : s.Compiles o p)
    (h' : s.Compiles o p') : p = p' := by
  obtain ⟨text, htext, globals, hp⟩ := h
  obtain ⟨text', htext', globals', hp'⟩ := h'
  rw [htext] at htext'
  cases htext'
  rw [hp] at hp'
  cases hp'
  rfl

/-! ## Running a listing -/

section Running

variable {s : Store} {path : Path} {j : Journal}

theorem silent_of_readsInput {p : Program} (h : readsInput p = false) : Machine.Silent p := by
  intro i hi hmnemonic
  have hany : readsInput p = true := by
    rw [readsInput, Array.any_eq_true']
    exact ⟨i, hi, decide_eq_true hmnemonic⟩
  rw [h] at hany
  cases hany

/-- The run of a file takes the course of the program that it lists, on the same input. -/
theorem execution_of_listing {p : Program} {text : String} (htext : s.text? path = .ok text)
    (hread : Program.read? text = .ok p) (hj : Fresh j) (input : String) (bound : Nat) :
    ∃ j', s.execution input bound path j =
        .ok ((Machine.course bound (Machine.load p input).started).outcome,
          (Machine.course bound (Machine.load p input).started).machine, j') ∧
      (j'.findings = [] ↔ (Machine.course bound (Machine.load p input).started).fault = none) := by
  rw [execution, htext]
  dsimp only
  rw [hread]
  dsimp only
  cases hreads : readsInput p with
  | true =>
    have htakes := Machine.run_eq_course (m := .load p input) hj.room bound
    have hfindings := htakes.findings_eq_nil_iff hj.findings
    rw [if_pos rfl, ← htakes.outcome, ← htakes.machine]
    exact ⟨_, rfl, hfindings⟩
  | false =>
    have htakes := Machine.run_eq_course (m := .load p "") hj.room bound
    have hfindings := htakes.findings_eq_nil_iff hj.findings
    have hcourse := Machine.course_withInput (m := (Machine.load p "").started)
      (silent_of_readsInput hreads) (.ofText input) bound
    change Machine.course bound (Machine.load p input).started = _ at hcourse
    rw [if_neg (by decide), hcourse]
    dsimp only
    rw [← htakes.outcome, ← htakes.machine]
    exact ⟨_, rfl, hfindings⟩

/-- What comes of running a file that lists a program. -/
theorem listed_of_listing {p : Program} {text : String} (htext : s.text? path = .ok text)
    (hread : Program.read? text = .ok p) (hj : Fresh j) (input : String) (bound : Nat) :
    ∃ j', s.listed input bound path j =
        ⟨verdict (Machine.course bound (Machine.load p input).started).machine.output j',
          some ((Machine.course bound (Machine.load p input).started).outcome,
            (Machine.course bound (Machine.load p input).started).machine), s⟩ ∧
      (j'.findings = [] ↔ (Machine.course bound (Machine.load p input).started).fault = none) := by
  obtain ⟨j', hexecution, hfindings⟩ := execution_of_listing htext hread hj input bound
  rw [listed, hexecution]
  exact ⟨j', rfl, hfindings⟩

/-- What is filed about a run is no more than one finding. -/
theorem length_findings_execution {input : String} {bound : Nat} {r : Option Outcome × Machine × Journal}
    (hj : Fresh j) (h : s.execution input bound path j = .ok r) : r.2.2.findings.length ≤ 1 := by
  have hlength (m : Machine) : (m.run bound j).2.2.findings.length ≤ 1 := by
    have hrun := Machine.length_findings_run (m := m) hj.room bound
    rwa [hj.findings] at hrun
  unfold execution at h
  split at h
  · cases h
  · split at h
    · cases h
    · split at h
      · cases h
        exact hlength _
      · cases h
        exact hlength _

theorem fair_listed (hj : Fresh j) (input : String) (bound : Nat) :
    (s.listed input bound path j).verdict.Fair := by
  unfold listed
  split
  · exact verdict_fair (hj.file _) _
  · rename_i hexecution
    exact verdict_fair (length_findings_execution hj hexecution) _

/-- A listing that has been written is there as a text. -/
theorem text?_of_write {s' : Store} {p : Program} (hlisted : ∀ i ∈ p, i.IsListed)
    (h : s.write path p.render.toUTF8.toList = .ok s') : s'.text? path = .ok p.render := by
  obtain ⟨cs, hdecode, htext⟩ := Program.decode_render hlisted
  rw [text?, read_of_write h]
  dsimp only
  rw [hdecode, ← htext]

end Running

/-! ## What the work can come to -/

/-- The listing of a program, in bytes. -/
abbrev bytes (p : Program) : List UInt8 := p.render.toUTF8.toList

/-- What the work can come to: the run of a listing that is there; nothing but a verdict; a listing that
has been written; or its run as well. -/
inductive Comes (s : Store) (input : String) (bound : Nat) (o : Options) : Session → Prop
  | resumed {j : Journal} : o.bytecode = true → Fresh j →
      Comes s input bound o (s.listed input bound (Path.ofText o.program) j)
  | stopped {printed : String} {j : Journal} : o.bytecode = false → j.findings.length ≤ 1 →
      (∀ p s', o.listing = false → s.Compiles o p → s.write (objectPath o) (bytes p) ≠ .ok s') →
      ((∀ p, ¬ s.Compiles o p) → j.findings ≠ []) →
      Comes s input bound o ⟨verdict printed j, none, s⟩
  | checked {p : Program} {j : Journal} {s' : Store} : o.bytecode = false → o.listing = false →
      o.check = true → s.Compiles o p → s.write (objectPath o) (bytes p) = .ok s' → Fresh j →
      Comes s input bound o ⟨verdict "" j, none, s'⟩
  | executed {p : Program} {j : Journal} {s' : Store} : o.bytecode = false → o.listing = false →
      o.check = false → s.Compiles o p → s.write (objectPath o) (bytes p) = .ok s' → Fresh j →
      Comes s input bound o (s'.listed input bound (objectPath o) j)

theorem session_comes (s : Store) (input : String) (bound : Nat) (o : Options) :
    s.Comes input bound o (s.session input bound o) := by
  have hstart := Fresh.start o.verbosity
  unfold session
  dsimp only
  cases hb : o.bytecode with
  | true =>
    rw [if_pos rfl]
    exact .resumed hb hstart
  | false =>
    rw [if_neg (by decide)]
    obtain ⟨r, s', hrun, htranslates⟩ := s.compileFile_run o { verbosity := o.verbosity }
    rw [hrun]
    cases htranslates with
    | unread htext =>
      refine .stopped hb (hstart.file _) ?_ fun _ => by simp
      rintro p s' - ⟨text, htext', -⟩
      rw [htext] at htext'
      cases htext'
    | rejected htext hcompile =>
      obtain ⟨hnone, f, rfl⟩ := compile_eq_none hcompile
      refine .stopped hb (hstart.file _) ?_ fun _ => by simp
      rintro p s' - ⟨text, htext', globals, hp⟩
      rw [htext] at htext'
      cases htext'
      exact absurd hp (hnone p globals)
    | shown htext hcompile hlisting =>
      obtain ⟨hp, hkeeps⟩ := compile_eq_some hcompile
      refine .stopped hb (by rw [(hstart.of_keeps hkeeps).findings]; simp) ?_ ?_
      · intro p s' hnot
        rw [hlisting] at hnot
        cases hnot
      · intro hnone
        exact absurd ⟨_, htext, hp⟩ (hnone _)
    | unwritten htext hcompile hlisting hwrite =>
      obtain ⟨hp, hkeeps⟩ := compile_eq_some hcompile
      refine .stopped hb ((hstart.of_keeps hkeeps).file _) ?_ fun _ => by simp
      intro p' s' _ hp' hwrite'
      rw [hp'.unique ⟨_, htext, hp⟩, hwrite] at hwrite'
      cases hwrite'
    | written htext hcompile hlisting hwrite =>
      obtain ⟨hp, hkeeps⟩ := compile_eq_some hcompile
      have hfresh := (hstart.of_keeps hkeeps).of_keeps
        (.say 1 ("Wrote " ++ (objectPath o).text))
      dsimp only
      cases hcheck : o.check with
      | true =>
        rw [if_pos rfl]
        exact .checked hb hlisting hcheck ⟨_, htext, hp⟩ hwrite hfresh
      | false =>
        rw [if_neg (by decide)]
        exact .executed hb hlisting hcheck ⟨_, htext, hp⟩ hwrite hfresh

/-! ## The promise -/

/-- What the command does when it goes on to execute the program whose listing it has written: the same,
up to what is left of the input, as a run of the program in memory, whatever journal is kept of it; and
the same as stopping after the listing has been written and running that later. -/
structure Executes (s : Store) (input : String) (bound : Nat) (o : Options) (p : Program) (s' : Store)
    (w : Session) : Prop where
  store : w.store = s'
  memory : ∃ outcome m, w.run = some (outcome, m) ∧ w.verdict.printed = m.output ∧
    ∀ j, Fresh j → (Machine.run bound (.load p input) j).1 = outcome ∧
      (Machine.run bound (.load p input) j).2.1 = m ∧
      ((Machine.run bound (.load p input) j).2.2.findings = [] ↔ w.verdict.status = 0)
  checked : (s.session input bound { o with check := true }).store = s' ∧
    (s.session input bound { o with check := true }).run = none ∧
    (s.session input bound { o with check := true }).verdict.status = 0 ∧
    (s.session input bound { o with check := true }).verdict.printed = ""
  resumed : ∀ o' : Options, o'.bytecode = true → Path.ofText o'.program = objectPath o →
    (s'.session input bound o').store = s' ∧ (s'.session input bound o').run = w.run ∧
    (s'.session input bound o').verdict.printed = w.verdict.printed ∧
    (s'.session input bound o').verdict.status = w.verdict.status

/-- What is promised of all that the command does with these options. -/
structure Contract (s : Store) (input : String) (bound : Nat) (o : Options) (w : Session) : Prop where
  current : w.store.current = s.current
  /-- Nothing changes but at the place of the object file. -/
  elsewhere : ∀ place, s.place (objectPath o) ≠ .ok place → w.store.lookup place = s.lookup place
  /-- If that changes, it holds the listing of the program that the source stands for. -/
  written : w.store = s ∨ o.bytecode = false ∧ o.listing = false ∧ ∃ p, s.Compiles o p ∧
    s.write (objectPath o) (bytes p) = .ok w.store ∧ w.store.read (objectPath o) = .ok (bytes p)
  /-- A source that cannot be read or compiled leaves all files as they are, and is complained about. -/
  rejected : (∀ p, ¬ s.Compiles o p) → w.store = s ∧ (o.bytecode = false → w.verdict.status = 1)
  /-- The exit status tells whether a finding has been filed, of which there is one at most. -/
  fair : w.verdict.Fair
  /-- A program is run at once only where its listing has been written. -/
  started : w.run ≠ none → o.bytecode = false → o.listing = false ∧ o.check = false ∧
    ∃ p, s.Compiles o p ∧ s.write (objectPath o) (bytes p) = .ok w.store
  /-- Then it is, unless its addresses are too long to be read back. -/
  executes : ∀ p s', o.bytecode = false → o.listing = false → o.check = false → s.Compiles o p →
    s.write (objectPath o) (bytes p) = .ok s' → p.size < Number.tenTo Number.digitLimit →
    Executes s input bound o p s' w

section Contract

variable {s s' : Store} {input : String} {bound : Nat} {o : Options} {p : Program} {w : Session} {j : Journal}

/-- What stays as it is when the listing is written. -/
theorem Contract.of_write (hb : o.bytecode = false) (hlisting : o.listing = false) (hp : s.Compiles o p)
    (hwrite : s.write (objectPath o) (bytes p) = .ok s') (hstore : w.store = s') (hfair : w.verdict.Fair)
    (hrun : w.run ≠ none → o.check = false)
    (hexecutes : o.check = false → p.size < Number.tenTo Number.digitLimit →
      Executes s input bound o p s' w) : Contract s input bound o w := by
  subst hstore
  refine
    { current := current_of_write hwrite
      elsewhere := fun place hplace => lookup_of_write hwrite hplace
      written := .inr ⟨hb, hlisting, p, hp, hwrite, read_of_write hwrite⟩
      rejected := fun hnone => absurd hp (hnone p)
      fair := hfair
      started := fun hsome _ => ⟨hlisting, hrun hsome, p, hp, hwrite⟩
      executes := ?_ }
  intro p' s' _ _ hcheck hp' hwrite' hsize
  obtain rfl := hp.unique hp'
  rw [hwrite] at hwrite'
  cases hwrite'
  exact hexecutes hcheck hsize

/-- Where the files are not touched. -/
theorem Contract.of_untouched (hstore : w.store = s) (hfair : w.verdict.Fair)
    (hstatus : (∀ p, ¬ s.Compiles o p) → o.bytecode = false → w.verdict.status = 1)
    (hrun : o.bytecode = false → w.run = none)
    (hwrite : ∀ p s', o.bytecode = false → o.listing = false → s.Compiles o p →
      s.write (objectPath o) (bytes p) ≠ .ok s') : Contract s input bound o w where
  current := by rw [hstore]
  elsewhere := fun _ _ => by rw [hstore]
  written := .inl hstore
  rejected := fun hnone => ⟨hstore, hstatus hnone⟩
  fair := hfair
  started := fun hsome hb => absurd (hrun hb) hsome
  executes := fun p s' hb hlisting _ hp h => absurd h (hwrite p s' hb hlisting hp)

/-- Checking writes the listing and does nothing else. -/
theorem session_check (hb : o.bytecode = false) (hlisting : o.listing = false) (hcheck : o.check = true)
    (hp : s.Compiles o p) (hwrite : s.write (objectPath o) (bytes p) = .ok s') :
    (s.session input bound o).store = s' ∧ (s.session input bound o).run = none ∧
      (s.session input bound o).verdict.status = 0 ∧ (s.session input bound o).verdict.printed = "" := by
  have hcomes := s.session_comes input bound o
  generalize s.session input bound o = w at hcomes ⊢
  cases hcomes with
  | resumed hb' =>
    rw [hb] at hb'
    cases hb'
  | stopped _ _ hnot => exact absurd hwrite (hnot p s' hlisting hp)
  | checked _ _ _ hp' hwrite' hfresh =>
    obtain rfl := hp.unique hp'
    rw [hwrite] at hwrite'
    cases hwrite'
    exact ⟨rfl, rfl, (verdict_status ..).mpr hfresh.findings, rfl⟩
  | executed _ _ hcheck' =>
    rw [hcheck] at hcheck'
    cases hcheck'

theorem status_verdict (printed : String) (j : Journal) (fault : Option Fault)
    (h : j.findings = [] ↔ fault = none) :
    (verdict printed j).status = if fault = none then 0 else 1 := by
  by_cases hnone : fault = none
  · rw [if_pos hnone]
    exact (verdict_status ..).mpr (h.mpr hnone)
  · have hne : j.findings ≠ [] := mt h.mp hnone
    rw [if_neg hnone]
    simp [verdict, Journal.isClean, hne]

/-- Running the listing that has been written is running the program. -/
theorem executes_of_write (hb : o.bytecode = false) (hlisting : o.listing = false)
    (hp : s.Compiles o p) (hwrite : s.write (objectPath o) (bytes p) = .ok s')
    (hsize : p.size < Number.tenTo Number.digitLimit) (hj : Fresh j) :
    Executes s input bound o p s' (s'.listed input bound (objectPath o) j) := by
  obtain ⟨text, -, globals, htokens⟩ := id hp
  obtain ⟨source, hexplains, -⟩ := Compilation.exists_explains htokens
  have htext : s'.text? (objectPath o) = .ok p.render := text?_of_write hexplains.isListed hwrite
  have hread : Program.read? p.render = .ok p := Program.read?_render_of_writable (hexplains.writable hsize)
  set c := Machine.course bound (Machine.load p input).started with hc
  obtain ⟨j₁, hlisted, hfault⟩ := listed_of_listing htext hread hj input bound
  rw [hlisted]
  refine
    { store := rfl
      memory := ⟨c.outcome, c.machine, rfl, rfl, ?_⟩
      checked := session_check hb hlisting rfl hp hwrite
      resumed := ?_ }
  · intro j' hj'
    have htakes := Machine.run_eq_course (m := .load p input) hj'.room bound
    refine ⟨htakes.outcome, htakes.machine, ?_⟩
    rw [htakes.findings_eq_nil_iff hj'.findings, ← hc, ← hfault]
    exact (verdict_status ..).symm
  · intro o' hb' hpath
    obtain ⟨j₂, hlisted', hfault'⟩ :=
      listed_of_listing htext hread (Fresh.start o'.verbosity) input bound
    have hsession : s'.session input bound o' =
        s'.listed input bound (objectPath o) { verbosity := o'.verbosity } := by
      rw [session, hb', hpath]
      rfl
    rw [hsession, hlisted']
    refine ⟨rfl, rfl, rfl, ?_⟩
    exact (status_verdict _ _ _ hfault').trans (status_verdict _ _ _ hfault).symm

end Contract

/-- All that the command does on a store of files, with any options that are understood, is what is
promised. -/
theorem work_contract (s : Store) (input : String) (bound : Nat) (o : Options) :
    (work files (pure input) bound o).run s =
        ((s.session input bound o).verdict, (s.session input bound o).store) ∧
      (∀ arguments, Request.ofArguments arguments = .ok (.options o) →
        s.command input bound arguments =
          (⟨some (s.session input bound o).verdict.status, (s.session input bound o).verdict.printed,
            (s.session input bound o).verdict.journal.console⟩, (s.session input bound o).store)) ∧
      Path.ofText (objectPath o).text = objectPath o ∧
      Contract s input bound o (s.session input bound o) := by
  refine ⟨s.work_run input bound o, ?_, ofText_text_objectPath o, ?_⟩
  · intro arguments harguments
    have hsome : arguments.isEmpty = false := by
      cases arguments with
      | nil => cases harguments
      | cons _ _ => rfl
    unfold command Command.command
    rw [hsome, harguments]
    exact run_bind_of_run (s.work_run input bound o)
  · have hcomes := s.session_comes input bound o
    generalize s.session input bound o = w at hcomes ⊢
    cases hcomes with
    | resumed hb hfresh =>
      have hnot : o.bytecode ≠ false := by simp [hb]
      exact .of_untouched (store_listed ..) (fair_listed hfresh input bound)
        (fun _ h => absurd h hnot) (fun h => absurd h hnot) fun _ _ h => absurd h hnot
    | stopped hb hlength hnot hcomplaint =>
      have hfair := verdict_fair hlength
      refine .of_untouched rfl (hfair _) ?_ (fun _ => rfl) fun p s' _ => hnot p s'
      intro hnone _
      rw [(hfair _).status, if_neg]
      change ¬ (Journal.complain _).findings = []
      rw [Journal.findings_complain]
      exact hcomplaint hnone
    | checked hb hlisting hcheck hp hwrite hfresh =>
      refine .of_write hb hlisting hp hwrite rfl (verdict_fair (by simp [hfresh.findings]) _)
        (fun h => absurd rfl h) fun h => ?_
      rw [hcheck] at h
      cases h
    | executed hb hlisting hcheck hp hwrite hfresh =>
      exact .of_write hb hlisting hp hwrite (store_listed ..) (fair_listed hfresh input bound)
        (fun _ => hcheck) fun _ hsize => executes_of_write hb hlisting hp hwrite hsize hfresh

/-- One source file, in the root, which is the current directory as well. -/
def lonelyStore : Store := { nodes := [(["one.src"], .file "print(1)".toUTF8.toList)] }

/-- The program in it. -/
def lonelyProgram : Program :=
  #[.of .start none, .of .constant (some (.float 1.0)), .of .print none, .of .halt none]

/-- The file is compiled, its listing is put next to it, and the program is run from there. -/
theorem work_contract_lonely :
    ∃ s', lonelyStore.Compiles { program := "one.src" } lonelyProgram ∧
      objectPath { program := "one.src" } = Path.ofText "one.obj" ∧
      lonelyStore.write (Path.ofText "one.obj") (bytes lonelyProgram) = .ok s' ∧
      Executes lonelyStore "" 9 { program := "one.src" } lonelyProgram s'
        (lonelyStore.session "" 9 { program := "one.src" }) := by
  have htext : lonelyStore.text? (Path.ofText "one.src") = .ok "print(1)" := by decide +kernel
  have htokens : Compilation.compileTokens (Token.stream "print(1)") = .ok (lonelyProgram, 0) := by
    decide +kernel
  have hpath : objectPath { program := "one.src" } = Path.ofText "one.obj" := by decide +kernel
  have hwrite : ∃ s', lonelyStore.write (Path.ofText "one.obj") (bytes lonelyProgram) = .ok s' := ⟨_, rfl⟩
  have hp : lonelyStore.Compiles { program := "one.src" } lonelyProgram := ⟨_, htext, 0, htokens⟩
  obtain ⟨s', hwrite⟩ := hwrite
  have hcontract := (work_contract lonelyStore "" 9 { program := "one.src" }).2.2.2
  have hsize : lonelyProgram.size < Number.tenTo Number.digitLimit := by
    rw [Number.tenTo_eq]
    exact (by decide : 4 < 10 ^ 1).trans_le (Nat.pow_le_pow_right (by decide) (by decide))
  exact ⟨s', hp, hpath, hwrite, hcontract.executes _ _ rfl rfl rfl hp (by rw [hpath]; exact hwrite) hsize⟩

end Store

end Command

end StackPrimer

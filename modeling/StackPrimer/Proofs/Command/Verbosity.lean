import StackPrimer.Proofs.Command.Contract

/-!
# How much is said

Verbosity decides how much is said about the work while it goes on, and whether a fault is told with a
traceback or without. Nothing else looks at it: two journals in which the same has been filed stay so through
compiling, running and the command as a whole, and all that is not the journal is the same to the last bit.

Results:
* `compile_alike`: compiling gives the same program, or files the same finding.
* `runWithin_alike`, `run_alike`: a run goes the same way, however it is followed.
* `session_alike`, `command_alike`: so does the whole work.
* `announced`: of whatever is shown about an instruction on the way, nothing is too long to be shown.
* `verbosity_changes_nothing`: all of this.
-/

namespace StackPrimer

/-! ## Findings and journals that are alike -/

/-- The findings are the same, but a fault may be told with a traceback in one and without in the other. -/
inductive Finding.Alike : Finding → Finding → Prop
  | same (f : Finding) : Alike f f
  | fault (verbose verbose' : Bool) (address : Int) (i : Option Instruction) (kind message : String) :
      Alike (.fault verbose address i kind message) (.fault verbose' address i kind message)

theorem Finding.Alike.intro {f f' : Finding} (h : f.Alike f') : f'.intro = f.intro := by
  cases h <;> rfl

namespace Journal

/-- The same has been filed in both journals, and they have the same limit. How much is to be said, and what
has been said, does not matter. -/
structure Alike (j j' : Journal) : Prop where
  limit : j'.limit = j.limit
  findings : List.Forall₂ Finding.Alike j.findings j'.findings

/-- The findings of the journal, by what they say first. -/
def intros (j : Journal) : List String := j.findings.map (·.intro)

namespace Alike

variable {j j' k k' : Journal}

theorem start (verbosity verbosity' : Int) : Alike { verbosity } { verbosity := verbosity' } := ⟨rfl, .nil⟩

/-- There are as many findings, with the same introductions. -/
theorem intros (h : j.Alike j') : j'.intros = j.intros := by
  have hfindings := h.findings
  rw [Journal.intros, Journal.intros]
  generalize j.findings = fs, j'.findings = fs' at hfindings
  induction hfindings with
  | nil => rfl
  | cons hfirst _ ih => rw [List.map_cons, List.map_cons, hfirst.intro, ih]

theorem isClean (h : j.Alike j') : j'.isClean = j.isClean := by
  have hfindings := h.findings
  rw [Journal.isClean, Journal.isClean]
  generalize j.findings = fs, j'.findings = fs' at hfindings
  cases hfindings <;> rfl

theorem isFull (h : j.Alike j') : j'.isFull = j.isFull := by
  rw [Journal.isFull, Journal.isFull, h.isClean, h.limit, h.findings.length_eq]

/-- Whatever has been said since then, the journals are alike. -/
theorem of_keeps (h : j.Alike j') (hk : j.Keeps k) (hk' : j'.Keeps k') : k.Alike k' := by
  refine ⟨by rw [hk.limit, hk'.limit, h.limit], ?_⟩
  rw [hk.findings, hk'.findings]
  exact h.findings

theorem say (h : j.Alike j') (level : Int) (message : String) :
    (j.say level message).Alike (j'.say level message) :=
  h.of_keeps (.say ..) (.say ..)

theorem file (h : j.Alike j') {f f' : Finding} (hf : f.Alike f') : (j.file f).Alike (j'.file f') :=
  ⟨h.limit, List.rel_append h.findings (.cons hf .nil)⟩

theorem complain (h : j.Alike j') : j.complain.Alike j'.complain :=
  h.of_keeps j.complain_keeps j'.complain_keeps

end Alike

end Journal

/-! ## Compiling -/

/-- A text stands for the same program, or the same is filed about it. -/
theorem compile_alike (text : String) (name : Option String) {j j' : Journal} (h : j.Alike j') :
    (compile text name j').1 = (compile text name j).1 ∧
      (compile text name j).2.Alike (compile text name j').2 ∧
      ∃ filed : List Finding, (compile text name j).2.findings = j.findings ++ filed ∧
        (compile text name j').2.findings = j'.findings ++ filed := by
  unfold compile
  split
  · exact ⟨rfl, h.say .., [], by simp, by simp⟩
  · split
    · exact ⟨rfl, h.file (.same _), [_], rfl, rfl⟩
    · exact ⟨rfl, h, [], by simp, by simp⟩

/-! ## Running -/

namespace Machine

/-- Two runs have come to the same: their outcomes are the same, and so are the machines with their memory,
their stacks, what they have printed and what they have left of their input; and the same has been filed. -/
structure RunsAlike (r r' : Option Outcome × Machine × Journal) : Prop where
  outcome : r'.1 = r.1
  machine : r'.2.1 = r.2.1
  journal : r.2.2.Alike r'.2.2

variable {m : Machine} {j j' : Journal}

theorem finding_alike (m : Machine) (j j' : Journal) (f : Fault) : (m.finding j f).Alike (m.finding j' f) :=
  .fault ..

/-- Following each instruction does not change where they lead. -/
theorem runWithin_alike (h : j.Alike j') (bound : Nat) (m : Machine) :
    RunsAlike (runWithin bound m j) (runWithin bound m j') := by
  induction bound generalizing m j j' with
  | zero => exact ⟨rfl, rfl, h⟩
  | succ bound ih =>
    have hannounced := h.of_keeps (m.announce_keeps j) (m.announce_keeps j')
    rw [runWithin, runWithin]
    split
    · dsimp only
      cases hstep : step m with
      | ok u next => exact ih hannounced next
      | error f next =>
        have hfiled := hannounced.file (next.finding_alike (m.announce j) (m.announce j') f)
        dsimp only
        rw [hfiled.isFull]
        split
        · exact ⟨rfl, rfl, hfiled⟩
        · exact ⟨rfl, rfl, hfiled⟩
    · exact ⟨rfl, rfl, h⟩

theorem run_alike (h : j.Alike j') (bound : Nat) (m : Machine) : RunsAlike (run bound m j) (run bound m j') := by
  have hruns := runWithin_alike
    (h.say 1 ("--- Loaded " ++ toString m.program.size ++ " instructions ---")) bound m.started
  rw [run_eq, run_eq]
  dsimp only
  refine ⟨hruns.outcome, hruns.machine, ?_⟩
  rw [hruns.outcome]
  split
  · exact hruns.journal.say ..
  · exact hruns.journal

/-- Of what is shown about an instruction that a run of a listing comes to, nothing is too long to be shown: the
address is one of the program, the instruction can be written, and the frame begins in memory. -/
theorem announced {text : String} {p : Program} (hread : Program.read? text = .ok p) {input : String}
    (hreaches : (load p input).started.Reaches m) {i : Instruction} (hi : m.instruction? = some i) :
    i.Writable ∧ 0 ≤ m.ip ∧ m.ip < p.size ∧ m.frame ≤ memoryLimit := by
  have hprogram : m.program = p := hreaches.program
  have hframed : m.space.Framed := hreaches.framed ⟨.nil, by simp [space, started, load], le_rfl, Nat.zero_le _⟩
  have hmem := mem_program_of_instruction? hi
  rw [hprogram] at hmem
  refine ⟨Program.writable_of_read? hread i hmem, ?_⟩
  have hplace := hi
  unfold instruction? at hplace
  split at hplace
  · rename_i hpositive
    obtain ⟨hsize, -⟩ := Array.getElem?_eq_some_iff.mp hplace
    rw [hprogram] at hsize
    exact ⟨hpositive, by omega, hframed.frame_le.trans hframed.size_le⟩
  · cases hplace

end Machine

/-! ## The command -/

namespace Command

theorem verdict_alike (printed : String) {j j' : Journal} (h : j.Alike j') :
    (verdict printed j').status = (verdict printed j).status ∧
      (verdict printed j).journal.Alike (verdict printed j').journal := by
  refine ⟨?_, h.complain⟩
  rw [verdict, verdict, h.isClean]

/-- Two times the work has come to the same: the same run has been made, if any, with the same machine in the
end; the files are the same; so are the exit status and what has been printed; and the same has been filed. -/
structure SessionsAlike (w w' : Session) : Prop where
  run : w'.run = w.run
  store : w'.store = w.store
  status : w'.verdict.status = w.verdict.status
  printed : w'.verdict.printed = w.verdict.printed
  journal : w.verdict.journal.Alike w'.verdict.journal

namespace Store

variable {s : Store} {j j' : Journal}

theorem sessionsAlike (h : j.Alike j') (printed : String) (r : Option (Option Outcome × Machine)) (s : Store) :
    SessionsAlike ⟨verdict printed j, r, s⟩ ⟨verdict printed j', r, s⟩ :=
  ⟨rfl, rfl, (verdict_alike printed h).1, rfl, (verdict_alike printed h).2⟩

/-- Running a file comes to the same. -/
theorem listed_alike (h : j.Alike j') (s : Store) (input : String) (bound : Nat) (path : Path) :
    SessionsAlike (s.listed input bound path j) (s.listed input bound path j') := by
  rw [listed, listed, execution, execution]
  cases s.text? path with
  | error f => exact sessionsAlike (h.file (.same _)) ..
  | ok text =>
    dsimp only
    cases Program.read? text with
    | error e => exact sessionsAlike (h.file (.same _)) ..
    | ok p =>
      dsimp only
      cases readsInput p with
      | true =>
        have hruns := Machine.run_alike h bound (.load p input)
        rw [if_pos rfl, if_pos rfl]
        dsimp only
        rw [hruns.outcome, hruns.machine]
        exact sessionsAlike hruns.journal ..
      | false =>
        have hruns := Machine.run_alike h bound (.load p "")
        rw [if_neg (by decide), if_neg (by decide)]
        dsimp only
        rw [hruns.outcome, hruns.machine]
        exact sessionsAlike hruns.journal ..

/-- Writing a listing comes to the same. -/
theorem writeListing_alike (h : j.Alike j') (s : Store) (path : Path) (p : Program) :
    ∃ written k k' s', (writeListing files path p j).run s = ((written, k), s') ∧
      (writeListing files path p j').run s = ((written, k'), s') ∧ k.Alike k' := by
  rcases s.writeListing_run path p j with ⟨e, hwrite, hrun⟩ | ⟨s', hwrite, hrun⟩
  · rcases s.writeListing_run path p j' with ⟨e', hwrite', hrun'⟩ | ⟨s'', hwrite', -⟩
    · rw [hwrite] at hwrite'
      cases hwrite'
      exact ⟨_, _, _, _, hrun, hrun', h.file (.same _)⟩
    · rw [hwrite] at hwrite'
      cases hwrite'
  · rcases s.writeListing_run path p j' with ⟨e', hwrite', -⟩ | ⟨s'', hwrite', hrun'⟩
    · rw [hwrite] at hwrite'
      cases hwrite'
    · rw [hwrite] at hwrite'
      cases hwrite'
      exact ⟨_, _, _, _, hrun, hrun', h.say ..⟩

/-- Compiling a file comes to the same. -/
theorem compileFile_alike (h : j.Alike j') (s : Store) (o : Options) :
    ∃ path printed k k' s', (compileFile files o j).run s = ((path, printed, k), s') ∧
      (compileFile files o j').run s = ((path, printed, k'), s') ∧ k.Alike k' := by
  rw [compileFile, compileFile, run_bind_of_run (s.readText_run _), run_bind_of_run (s.readText_run _)]
  cases s.text? (Path.ofText o.program) with
  | error f => exact ⟨_, _, _, _, _, rfl, rfl, h.file (.same f)⟩
  | ok text =>
    obtain ⟨hprogram, hjournal, -⟩ := compile_alike text (some (Path.ofText o.program).text) h
    dsimp only
    generalize compile text _ j = r, compile text _ j' = r' at hprogram hjournal
    obtain ⟨p, k⟩ := r
    obtain ⟨p', k'⟩ := r'
    obtain rfl : p' = p := hprogram
    cases p' with
    | none => exact ⟨_, _, _, _, _, rfl, rfl, hjournal⟩
    | some p =>
      dsimp only
      cases o.listing with
      | true => exact ⟨_, _, _, _, _, rfl, rfl, hjournal⟩
      | false =>
        obtain ⟨written, l, l', s', hrun, hrun', hwritten⟩ := writeListing_alike hjournal s (objectPath o) p
        exact ⟨written, "", l, l', s', run_bind_of_run hrun, run_bind_of_run hrun', hwritten⟩

/-- How much is to be said does not change what the work comes to. -/
theorem session_alike (s : Store) (input : String) (bound : Nat) (o : Options) (verbosity : Nat) :
    SessionsAlike (s.session input bound o) (s.session input bound { o with verbosity }) := by
  have hstart := Journal.Alike.start o.verbosity verbosity
  have hsame (j : Journal) : compileFile files { o with verbosity } j = compileFile files o j := rfl
  rw [session, session]
  dsimp only
  by_cases hb : o.bytecode = true
  · rw [if_pos hb, if_pos hb]
    exact listed_alike hstart s input bound _
  · obtain ⟨path, printed, k, k', s', hrun, hrun', hk⟩ := compileFile_alike hstart s o
    rw [if_neg hb, if_neg hb, hsame, hrun, hrun']
    cases path with
    | none => exact sessionsAlike hk ..
    | some path =>
      dsimp only
      split
      · exact sessionsAlike hk ..
      · exact listed_alike hk s' input bound path

/-- What the command answers, and the store that it leaves, where its arguments can be made sense of. -/
theorem command_of_options {arguments : List String} {o : Options}
    (h : Request.ofArguments arguments = .ok (.options o)) (s : Store) (input : String) (bound : Nat) :
    s.command input bound arguments =
      (⟨some (s.session input bound o).verdict.status, (s.session input bound o).verdict.printed,
        (s.session input bound o).verdict.journal.console⟩, (s.session input bound o).store) := by
  have hsome : arguments.isEmpty = false := by
    cases arguments with
    | nil => cases h
    | cons a rest => rfl
  rw [command, Command.command, hsome, if_neg (by decide), h]
  exact run_bind_of_run (s.work_run input bound o)

/-- Two command lines that ask for the same, but for how much is to be said. -/
theorem command_alike {arguments arguments' : List String} {o : Options} {verbosity : Nat}
    (h : Request.ofArguments arguments = .ok (.options o))
    (h' : Request.ofArguments arguments' = .ok (.options { o with verbosity }))
    (s : Store) (input : String) (bound : Nat) :
    (s.command input bound arguments').1.status = (s.command input bound arguments).1.status ∧
      (s.command input bound arguments').1.printed = (s.command input bound arguments).1.printed ∧
      (s.command input bound arguments').2 = (s.command input bound arguments).2 := by
  have hsessions := s.session_alike input bound o verbosity
  rw [command_of_options h, command_of_options h']
  exact ⟨congrArg some hsessions.status, hsessions.printed, hsessions.store⟩

/-- How much is to be said changes nothing but what is said. Whatever the text, the same program is compiled or
the same is filed. Whatever the program and the machine, however long it runs and whatever has been filed
before, the run ends in the same way, with the same machine, memory and stacks, output and input that is left
included, and as many findings with the same introductions. Whatever the files and the options, the work
makes the same run, leaves the same files, and gives the same exit status and output; and so does the command,
from its arguments. And what is shown on the way about an instruction of a listing can always be shown. -/
theorem verbosity_changes_nothing {j j' : Journal} (h : j.Alike j') :
    (∀ text name, (compile text name j').1 = (compile text name j).1 ∧
      ∃ filed : List Finding, (compile text name j).2.findings = j.findings ++ filed ∧
        (compile text name j').2.findings = j'.findings ++ filed) ∧
      (∀ (m : Machine) (bound : Nat), Machine.RunsAlike (m.run bound j) (m.run bound j') ∧
        (m.run bound j').2.2.intros = (m.run bound j).2.2.intros) ∧
      (∀ (s : Store) (input : String) (bound : Nat) (o : Options) (verbosity : Nat),
        let w := s.session input bound o
        let w' := s.session input bound { o with verbosity }
        SessionsAlike w w' ∧ w'.verdict.journal.intros = w.verdict.journal.intros) ∧
      (∀ (arguments arguments' : List String) (o : Options) (verbosity : Nat),
        Request.ofArguments arguments = .ok (.options o) →
        Request.ofArguments arguments' = .ok (.options { o with verbosity }) →
        ∀ (s : Store) (input : String) (bound : Nat),
          (s.command input bound arguments').1.status = (s.command input bound arguments).1.status ∧
          (s.command input bound arguments').1.printed = (s.command input bound arguments).1.printed ∧
          (s.command input bound arguments').2 = (s.command input bound arguments).2) ∧
      ∀ (text : String) (p : Program) (input : String) (m : Machine) (i : Instruction),
        Program.read? text = .ok p → (Machine.load p input).started.Reaches m → m.instruction? = some i →
        i.Writable ∧ 0 ≤ m.ip ∧ m.ip < p.size ∧ m.frame ≤ memoryLimit := by
  refine ⟨?_, ?_, ?_, ?_, ?_⟩
  · intro text name
    obtain ⟨hprogram, -, hfiled⟩ := compile_alike text name h
    exact ⟨hprogram, hfiled⟩
  · intro m bound
    have hruns := Machine.run_alike h bound m
    exact ⟨hruns, hruns.journal.intros⟩
  · intro s input bound o verbosity
    have hsessions := s.session_alike input bound o verbosity
    exact ⟨hsessions, hsessions.journal.intros⟩
  · intro arguments arguments' o verbosity hargs hargs' s input bound
    exact command_alike hargs hargs' s input bound
  · intro text p input m i hread hreaches hi
    exact Machine.announced hread hreaches hi

/-- One listing, of a program that fails at its third instruction. -/
def strayStore : Store := { nodes := [(["stray.obj"], .file "CRCT 2.5\nIMPR\nRTPR\n".toUTF8.toList)] }

/-- Nothing is said but the finding, or each instruction is followed and the finding closes with a traceback. -/
theorem verbosity_changes_nothing_stray :
    let quiet := strayStore.session "" 9 { program := "stray.obj", bytecode := true }
    let verbose := strayStore.session "" 9 { program := "stray.obj", bytecode := true, verbosity := 2 }
    SessionsAlike quiet verbose ∧ quiet.verdict.status = 1 ∧ verbose.verdict.status = 1 ∧
      quiet.verdict.journal.intros = verbose.verdict.journal.intros ∧
      quiet.verdict.journal.findings ≠ verbose.verdict.journal.findings ∧
      (strayStore.command "" 9 ["-b", "-vv", "stray.obj"]).1.printed =
        (strayStore.command "" 9 ["-b", "stray.obj"]).1.printed := by
  intro quiet verbose
  have halike := verbosity_changes_nothing (Journal.Alike.start 0 2)
  obtain ⟨-, -, hsessions, hcommands, -⟩ := halike
  obtain ⟨hwork, hintros⟩ := hsessions strayStore "" 9 { program := "stray.obj", bytecode := true } 2
  have hstatus : quiet.verdict.status = 1 := by decide +kernel
  have hargs : Request.ofArguments ["-b", "stray.obj"] =
      .ok (.options { program := "stray.obj", bytecode := true }) := by decide +kernel
  have hargs' : Request.ofArguments ["-b", "-vv", "stray.obj"] =
      .ok (.options { program := "stray.obj", bytecode := true, verbosity := 2 }) := by decide +kernel
  exact ⟨hwork, hstatus, hwork.status.trans hstatus, hintros.symm, by decide +kernel,
    (hcommands _ _ _ 2 hargs hargs' strayStore "" 9).2.1⟩

end Store

end Command

end StackPrimer

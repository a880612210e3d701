import StackPrimer.Command.Store
import StackPrimer.Proofs.Machine.Course

/-!
# The command as a function of the store

On a store of files the command is a function. Beside the verdict and the store that is left it is told
which run has been made, if any: how it ended, and the machine then, with what is left of the input. A
program that never reads does not ask for the input, all of which is left then.

Results:
* `readText_run`, `runFile_run`, `compileFile_run`: the parts of the command as functions.
* `work_run`: so is all that it does.
* `execution_of_listing`: a run from a listing goes as the run of the program without a file.
-/

namespace StackPrimer.Command

/-- What the work comes to: the verdict, the run that has been made, if any, and the store. -/
structure Session where
  verdict : Verdict
  run : Option (Option Outcome × Machine)
  store : Store

namespace Store

theorem run_bind_of_run {α β : Type} {x : StateM Store α} {f : α → StateM Store β} {s s' : Store} {a : α}
    (h : x.run s = (a, s')) : (x >>= f).run s = (f a).run s' := by
  rw [StateT.run_bind, h]
  rfl

theorem get_run (s : Store) : (get : StateM Store Store).run s = (s, s) := rfl

/-! ## Reading -/

/-- The text of a file, with its line breaks written as line feeds, or what is wrong with it. -/
def text? (s : Store) (p : Path) : Except Finding String :=
  match s.read p with
  | .error .notFound => .error (.noSuchFile p.text)
  | .error e => .error (.brokenFile p.text (e.message p))
  | .ok bytes =>
    match Text.decode bytes with
    | .error e => .error (.brokenFile p.text e.message)
    | .ok cs => .ok (String.ofList (Text.unifyBreaks cs))

theorem readText_run (s : Store) (p : Path) : (readText files p).run s = (s.text? p, s) := by
  have hfile : (files.read p).run s = (s.read p, s) := rfl
  rw [readText, run_bind_of_run hfile, text?]
  cases hread : s.read p with
  | error e => cases e <;> rfl
  | ok bytes =>
    dsimp only
    cases hdecode : Text.decode bytes <;> rfl

/-! ## Running -/

/-- The run of the program that a file lists, and the journal behind it, or what is wrong with the file. -/
def execution (s : Store) (input : String) (bound : Nat) (p : Path) (j : Journal) :
    Except Finding (Option Outcome × Machine × Journal) :=
  match s.text? p with
  | .error f => .error f
  | .ok text =>
    match Program.read? text with
    | .error e => .error (.badListing p.text e.number e.text e.cause.text)
    | .ok program =>
      if readsInput program then .ok (Machine.run bound (.load program input) j)
      else
        let (outcome, m, j) := Machine.run bound (.load program "") j
        .ok (outcome, m.withInput (.ofText input), j)

/-- What comes of running a file. -/
def listed (s : Store) (input : String) (bound : Nat) (p : Path) (j : Journal) : Session :=
  match s.execution input bound p j with
  | .error f => ⟨verdict "" (j.file f), none, s⟩
  | .ok (outcome, m, j) => ⟨verdict m.output j, some (outcome, m), s⟩

theorem runFile_run (s : Store) (input : String) (bound : Nat) (p : Path) (j : Journal) :
    (runFile files (pure input) bound p j).run s = ((s.listed input bound p j).verdict, s) := by
  rw [runFile, run_bind_of_run (s.readText_run p), listed, execution]
  cases htext : s.text? p with
  | error f => rfl
  | ok text =>
    dsimp only
    cases hread : Program.read? text with
    | error e => rfl
    | ok program =>
      dsimp only
      cases hreads : readsInput program <;> rfl

theorem store_listed (s : Store) (input : String) (bound : Nat) (p : Path) (j : Journal) :
    (s.listed input bound p j).store = s := by
  unfold listed
  split <;> rfl

/-! ## Compiling -/

/-- What compiling a source file can come to: the path of the listing, if one has been written, what is
printed, the journal, and the store. -/
inductive Translates (s : Store) (o : Options) (j : Journal) : Option Path × String × Journal → Store → Prop
  | unread {f : Finding} : s.text? (Path.ofText o.program) = .error f → Translates s o j (none, "", j.file f) s
  | rejected {text : String} {j' : Journal} : s.text? (Path.ofText o.program) = .ok text →
      compile text (some (Path.ofText o.program).text) j = (none, j') → Translates s o j (none, "", j') s
  | shown {text : String} {p : Program} {j' : Journal} : s.text? (Path.ofText o.program) = .ok text →
      compile text (some (Path.ofText o.program).text) j = (some p, j') → o.listing = true →
      Translates s o j (none, p.addressed ++ "\n", j') s
  | unwritten {text : String} {p : Program} {j' : Journal} {e : FileError} :
      s.text? (Path.ofText o.program) = .ok text →
      compile text (some (Path.ofText o.program).text) j = (some p, j') → o.listing = false →
      s.write (objectPath o) p.render.toUTF8.toList = .error e →
      Translates s o j (none, "", j'.file (.brokenFile (objectPath o).text (e.message (objectPath o)))) s
  | written {text : String} {p : Program} {j' : Journal} {s' : Store} :
      s.text? (Path.ofText o.program) = .ok text →
      compile text (some (Path.ofText o.program).text) j = (some p, j') → o.listing = false →
      s.write (objectPath o) p.render.toUTF8.toList = .ok s' →
      Translates s o j (some (objectPath o), "", j'.say 1 ("Wrote " ++ (objectPath o).text)) s'

theorem writeListing_run (s : Store) (path : Path) (p : Program) (j : Journal) :
    (∃ e, s.write path p.render.toUTF8.toList = .error e ∧ (writeListing files path p j).run s =
      ((none, j.file (.brokenFile path.text (e.message path))), s)) ∨
    ∃ s', s.write path p.render.toUTF8.toList = .ok s' ∧ (writeListing files path p j).run s =
      ((some path, j.say 1 ("Wrote " ++ path.text)), s') := by
  cases hwrite : s.write path p.render.toUTF8.toList with
  | error e =>
    have hfile : (files.write path p.render).run s = (.error e, s) :=
      (run_bind_of_run (s.get_run)).trans (by rw [hwrite]; rfl)
    exact .inl ⟨e, rfl, run_bind_of_run hfile⟩
  | ok s' =>
    have hfile : (files.write path p.render).run s = (.ok (), s') :=
      (run_bind_of_run (s.get_run)).trans (by rw [hwrite]; rfl)
    exact .inr ⟨s', rfl, run_bind_of_run hfile⟩

theorem compileFile_run (s : Store) (o : Options) (j : Journal) :
    ∃ r s', (compileFile files o j).run s = (r, s') ∧ s.Translates o j r s' := by
  rw [compileFile, run_bind_of_run (s.readText_run _)]
  cases htext : s.text? (Path.ofText o.program) with
  | error f => exact ⟨_, _, rfl, .unread htext⟩
  | ok text =>
    rcases hcompile : compile text (some (Path.ofText o.program).text) j with ⟨_ | p, j'⟩
    · dsimp only
      rw [hcompile]
      exact ⟨_, _, rfl, .rejected htext hcompile⟩
    · dsimp only
      rw [hcompile]
      cases hlisting : o.listing with
      | true => exact ⟨_, _, rfl, .shown htext hcompile hlisting⟩
      | false =>
        rcases s.writeListing_run (objectPath o) p j' with ⟨e, hwrite, hrun⟩ | ⟨s', hwrite, hrun⟩
        · exact ⟨_, _, run_bind_of_run hrun, .unwritten htext hcompile hlisting hwrite⟩
        · exact ⟨_, _, run_bind_of_run hrun, .written htext hcompile hlisting hwrite⟩

/-! ## The whole work -/

/-- All that the command does. -/
def session (s : Store) (input : String) (bound : Nat) (o : Options) : Session :=
  let j : Journal := { verbosity := o.verbosity }
  if o.bytecode then s.listed input bound (Path.ofText o.program) j
  else
    match (compileFile files o j).run s with
    | ((none, printed, j), s) => ⟨verdict printed j, none, s⟩
    | ((some path, printed, j), s) =>
      if o.check then ⟨verdict printed j, none, s⟩ else s.listed input bound path j

theorem work_run (s : Store) (input : String) (bound : Nat) (o : Options) :
    (work files (pure input) bound o).run s =
      ((s.session input bound o).verdict, (s.session input bound o).store) := by
  rw [work, session]
  cases hb : o.bytecode with
  | true =>
    rw [if_pos rfl, if_pos rfl, store_listed]
    exact s.runFile_run ..
  | false =>
    obtain ⟨⟨path, printed, j⟩, s', hrun, -⟩ := s.compileFile_run o { verbosity := o.verbosity }
    rw [if_neg (by decide), if_neg (by decide), run_bind_of_run hrun, hrun]
    cases path with
    | none => rfl
    | some path =>
      dsimp only
      cases hcheck : o.check with
      | true => rfl
      | false =>
        rw [if_neg (by decide), if_neg (by decide), store_listed]
        exact s'.runFile_run ..

end Store

end StackPrimer.Command

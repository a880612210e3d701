import Mathlib.Data.Finmap
import StackPrimer.Names.AddressBook
import StackPrimer.Proofs.Grammar.Names

/-!
# A directory of names

What an address book is for can be said without counters and layers: it is a list of global names,
inside a function a second list of local ones, and a finite map of function entries. A directory is
just that. Requests are put to it one after the other; a request that is refused changes nothing,
and the next one is answered as if it had not been made.

Results:
* `Directory.perform_refused_iff`: which requests are refused.
* `Separate.filter_transcript`: a part of the requests that reads and changes only a part of the
  state is answered as if the other requests had not been made.
* `Directory.separate_variables`, `Directory.separate_functions`: variables and functions are two
  such parts.
* `Directory.names_function`: behind a function the variables are those in front of it.
-/

namespace StackPrimer.Naming

open Grammar (Names)

/-! ## Requests and answers -/

/-- What can be asked of a table of names. -/
inductive Request
  /-- The address of a variable, which is added to the current scope if it is new there. -/
  | addVariable (m : Mention)
  /-- What the name of a variable means. -/
  | find (x : String)
  /-- Whether the current scope has a variable of the name. -/
  | declares (x : String)
  /-- How many globals there are. -/
  | globalCount
  | enter
  | exit
  /-- A function of the name begins at the entry address. -/
  | addFunction (m : Mention) (entry : Int)
  /-- Where the function of the name begins. -/
  | entry (f : String)
  deriving DecidableEq, Repr

/-- What may come back. -/
inductive Answer
  | address (a : Int)
  | found (place : Option (Scope × Int))
  | declared (known : Bool)
  | count (n : Nat)
  | entry (a : Option Int)
  | granted
  | refused (e : BookError)
  deriving DecidableEq, Repr

/-- Whether the request is about functions. The others are about variables and their scopes. -/
def Request.onFunctions : Request → Bool
  | addFunction .. | entry _ => true
  | _ => false

/-- Whether the request is about variables. -/
def Request.onVariables (r : Request) : Bool := !r.onFunctions

section Transcript

variable {σ τ : Type} (perform : σ → Request → Answer × σ)

/-- The state behind requests made one after the other. -/
def behind (s : σ) (rs : List Request) : σ := rs.foldl (fun s r => (perform s r).2) s

/-- Requests made one after the other, each with its answer. -/
def transcript : σ → List Request → List (Request × Answer)
  | _, [] => []
  | s, r :: rs => (r, (perform s r).1) :: transcript (perform s r).2 rs

@[simp] theorem behind_cons (s : σ) (r : Request) (rs : List Request) :
    behind perform s (r :: rs) = behind perform (perform s r).2 rs := rfl

theorem behind_append (s : σ) (rs later : List Request) :
    behind perform s (rs ++ later) = behind perform (behind perform s rs) later :=
  List.foldl_append

/-- The requests of a part are answered from one view of the state, and no other request changes
that view. -/
structure Separate (part : Request → Bool) (view : σ → τ) : Prop where
  keeps : ∀ s r, part r = false → view (perform s r).2 = view s
  reads : ∀ s s' r, part r = true → view s = view s' →
    (perform s r).1 = (perform s' r).1 ∧ view (perform s r).2 = view (perform s' r).2

variable {perform}

/-- The answers to a part of the requests are those that it gets when nothing else is asked. -/
theorem Separate.filter_transcript {part : Request → Bool} {view : σ → τ}
    (h : Separate perform part view) {s s' : σ} (hview : view s = view s') (rs : List Request) :
    (transcript perform s rs).filter (fun a => part a.1) =
      transcript perform s' (rs.filter part) := by
  induction rs generalizing s s' with
  | nil => rfl
  | cons r rs ih =>
    cases hr : part r with
    | false =>
      have hnext : view (perform s r).2 = view s' := (h.keeps s r hr).trans hview
      simpa [transcript, hr] using ih hnext
    | true =>
      obtain ⟨hanswer, hnext⟩ := h.reads s s' r hr hview
      simpa [transcript, hr, hanswer] using ih hnext

/-- States with the same view answer the requests of the part in the same way. -/
theorem Separate.filter_transcript_congr {part : Request → Bool} {view : σ → τ}
    (h : Separate perform part view) {s s' : σ} (hview : view s = view s') (rs : List Request) :
    (transcript perform s rs).filter (fun a => part a.1) =
      (transcript perform s' rs).filter (fun a => part a.1) :=
  (h.filter_transcript hview rs).trans (h.filter_transcript rfl rs).symm

end Transcript

/-! ## The directory -/

theorem home_eq_function_iff {n : Names} : n.home = .function ↔ n.locals.isSome := by
  rcases n with ⟨globals, _ | locals⟩ <;> simp [Names.home]

/-- Binding a name lists no name twice. -/
theorem nodup_bind {n : Names} (hglobals : n.globals.Nodup) (hinner : n.inner.Nodup) (x : String) :
    (n.bind x).globals.Nodup ∧ (n.bind x).inner.Nodup := by
  rcases n with ⟨globals, _ | locals⟩
  · exact ⟨Names.nodup_extend hglobals x, hinner⟩
  · exact ⟨hglobals, Names.nodup_extend hinner x⟩

/-- The global names, inside a function the local names, and the functions with their entry
addresses. No name is listed twice in a scope. -/
structure Directory where
  names : Names := {}
  functions : Finmap fun _ : String => Int := ∅
  globals_nodup : names.globals.Nodup := by exact List.nodup_nil
  locals_nodup : names.inner.Nodup := by exact List.nodup_nil

namespace Directory

/-- The directory with the name at the end of the current list, unless it is there. -/
def bind (d : Directory) (x : String) : Directory where
  names := d.names.bind x
  functions := d.functions
  globals_nodup := (nodup_bind d.globals_nodup d.locals_nodup x).1
  locals_nodup := (nodup_bind d.globals_nodup d.locals_nodup x).2

/-- The directory with an empty list of locals. -/
def enter (d : Directory) : Directory where
  names := { d.names with locals := some [] }
  functions := d.functions
  globals_nodup := d.globals_nodup

/-- The directory without the list of locals. -/
def exit (d : Directory) : Directory where
  names := { d.names with locals := none }
  functions := d.functions
  globals_nodup := d.globals_nodup

/-- The directory with one more function. -/
def register (d : Directory) (f : String) (entry : Int) : Directory where
  names := d.names
  functions := d.functions.insert f entry
  globals_nodup := d.globals_nodup
  locals_nodup := d.locals_nodup

/-- How a request is answered, and the directory behind it. -/
def perform (d : Directory) : Request → Answer × Directory
  | .addVariable m => (.address ((d.bind m.text).names.address d.names.home m.text), d.bind m.text)
  | .find x => (.found ((d.names.scope? x).map fun s => (s, (d.names.address s x : Int))), d)
  | .declares x => (.declared (d.names.binds x), d)
  | .globalCount => (.count d.names.globals.length, d)
  | .enter =>
    match d.names.home with
    | .global => (.granted, d.enter)
    | .function => (.refused .nested, d)
  | .exit =>
    match d.names.home with
    | .global => (.refused .notInside, d)
    | .function => (.granted, d.exit)
  | .addFunction m entry =>
    if m.text ∈ d.functions then (.refused (.alreadyExists m.text), d)
    else (.granted, d.register m.text entry)
  | .entry f => (.entry (d.functions.lookup f), d)

/-- A function is refused inside a function, its end outside of one, and a second function of the
same name. -/
def Refuses (d : Directory) : Request → BookError → Prop
  | .enter, e => d.names.home = .function ∧ e = .nested
  | .exit, e => d.names.home = .global ∧ e = .notInside
  | .addFunction m _, e => m.text ∈ d.functions ∧ e = .alreadyExists m.text
  | _, _ => False

/-- Nothing else is refused. -/
theorem perform_refused_iff (d : Directory) (r : Request) (e : BookError) :
    (d.perform r).1 = .refused e ↔ d.Refuses r e := by
  cases r with
  | enter => cases h : d.names.home <;> simp [perform, Refuses, h, eq_comm]
  | exit => cases h : d.names.home <;> simp [perform, Refuses, h, eq_comm]
  | addFunction m entry => by_cases h : m.text ∈ d.functions <;> simp [perform, Refuses, h, eq_comm]
  | _ => simp [perform, Refuses]

/-! ## Variables and functions -/

/-- What is asked about variables is answered from the lists of names. -/
theorem separate_variables : Separate perform Request.onVariables names where
  keeps d r hr := by
    cases r with
    | addFunction m entry => by_cases h : m.text ∈ d.functions <;> simp [perform, h, register]
    | entry f => rfl
    | _ => cases hr
  reads d d' r hr h := by
    cases r with
    | addFunction m entry => cases hr
    | entry f => cases hr
    | enter => cases hhome : d'.names.home <;> simp [perform, h, hhome, enter]
    | exit => cases hhome : d'.names.home <;> simp [perform, h, hhome, exit]
    | _ => simp [perform, h, bind]

/-- What is asked about functions is answered from the map of entries. -/
theorem separate_functions : Separate perform Request.onFunctions functions where
  keeps d r hr := by
    cases r with
    | addFunction m entry => cases hr
    | entry f => cases hr
    | enter => cases h : d.names.home <;> simp [perform, h, enter]
    | exit => cases h : d.names.home <;> simp [perform, h, exit]
    | _ => rfl
  reads d d' r hr h := by
    cases r with
    | addFunction m entry =>
      by_cases hm : m.text ∈ d'.functions <;> simp [perform, h, hm, register]
    | entry f => simp [perform, h]
    | _ => cases hr

/-! ## A function from its beginning to its end -/

/-- Inside a function no request but its end touches the globals. -/
theorem perform_inside {d : Directory} (h : d.names.home = .function) {r : Request}
    (hr : r ≠ .exit) :
    (d.perform r).2.names.home = .function ∧ (d.perform r).2.names.globals = d.names.globals := by
  cases r with
  | addVariable m => exact ⟨(Names.home_bind ..).trans h, Names.globals_bind h m.text⟩
  | enter => simp [perform, h]
  | exit => exact absurd rfl hr
  | addFunction m entry => by_cases hm : m.text ∈ d.functions <;> simp [perform, hm, register, h]
  | _ => exact ⟨h, rfl⟩

theorem behind_inside {d : Directory} (h : d.names.home = .function) {inner : List Request}
    (hinner : .exit ∉ inner) :
    (behind perform d inner).names.home = .function ∧
      (behind perform d inner).names.globals = d.names.globals := by
  induction inner generalizing d with
  | nil => exact ⟨h, rfl⟩
  | cons r rs ih =>
    rw [List.mem_cons, not_or] at hinner
    obtain ⟨hhome, hglobals⟩ := perform_inside h (Ne.symm hinner.1)
    obtain ⟨hhome', hglobals'⟩ := ih hhome hinner.2
    exact ⟨hhome', hglobals'.trans hglobals⟩

/-- Behind a function the variables are those in front of it, whatever was asked inside. -/
theorem names_function {d : Directory} (h : d.names.home = .global) {inner : List Request}
    (hinner : .exit ∉ inner) :
    (behind perform d (.enter :: inner ++ [.exit])).names = d.names := by
  have henter : (d.perform .enter).2 = d.enter := by simp [perform, h]
  obtain ⟨hhome, hglobals⟩ := behind_inside (d := d.enter) rfl hinner
  have hexit : ((behind perform d.enter inner).perform .exit).2 =
      (behind perform d.enter inner).exit := by simp [perform, hhome]
  have hlocals : d.names.locals = none := by simpa [Names.home] using h
  calc
    (behind perform d (.enter :: inner ++ [.exit])).names
    _ = ((behind perform d.enter inner).perform .exit).2.names := by
      rw [List.cons_append, behind_cons, henter, behind_append]
      rfl
    _ = ⟨d.names.globals, none⟩ := by
      rw [hexit]
      exact congrArg (Names.mk · none) hglobals
    _ = d.names := by rw [← hlocals]

end Directory

end StackPrimer.Naming

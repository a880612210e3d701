import StackPrimer.Proofs.Naming.Directory
import StackPrimer.Proofs.OnePass.Book

/-!
# The address book is a directory

Two counters, two layers, the scope and what is visible are what an address book keeps, and all of
it has to stay in step. No answer ever shows more than a directory would: whatever is asked, in
whatever order, and no matter how much of it is refused, the book answers as the directory does. What
is true of directories is true of books, then: variables and functions do not meet, and nothing of a
function is seen behind it but the functions that were registered.

Results:
* `Represents.perform`: one request keeps a book and a directory in step, with the same answer.
* `Represents.run`: so do requests one after the other.
* `refines_directory`: all that follows for the requests made of a new book.
-/

namespace StackPrimer

open Naming
open Grammar (Names)

namespace AddressBook

/-! ## Requests put to the book -/

/-- A change that is refused leaves the book as it is. -/
def settle (book : AddressBook) : Except BookError AddressBook → Answer × AddressBook
  | .ok book' => (.granted, book')
  | .error e => (.refused e, book)

/-- How a request is answered, and the book behind it. -/
def perform (book : AddressBook) : Request → Answer × AddressBook
  | .addVariable m => (.address (book.addVariable m).1, (book.addVariable m).2)
  | .find x => (.found ((book.find? x).map fun v => (v.scope, v.address)), book)
  | .declares x => (.declared (book.declares x), book)
  | .globalCount => (.count book.nextGlobal, book)
  | .enter => book.settle book.enter
  | .exit => book.settle book.exit
  | .addFunction m entry => book.settle (book.addFunction m entry)
  | .entry f => (.entry (book.entry? f), book)

theorem perform_refused {book : AddressBook} {r : Request} {e : BookError}
    (h : (book.perform r).1 = .refused e) : (book.perform r).2 = book := by
  have settled : ∀ change, (book.settle change).1 = .refused e → (book.settle change).2 = book := by
    rintro (e' | book') hchange
    · rfl
    · cases hchange
  cases r with
  | enter => exact settled _ h
  | exit => exact settled _ h
  | addFunction m entry => exact settled _ h
  | _ => cases h

/-! ## In step with a directory -/

variable {book : AddressBook}

/-- The book and the directory know the same names, with the same meanings. -/
structure Represents (book : AddressBook) (d : Directory) : Prop where
  sound : book.variablesOnly.Sound
  names : book.names = d.names
  entries : ∀ f, book.entry? f = d.functions.lookup f

namespace Represents

variable {d : Directory}

/-- A new book is an empty directory. -/
theorem empty : Represents {} {} := ⟨sound_empty, rfl, fun _ => rfl⟩

theorem scope_eq (h : Represents book d) : book.scope = d.names.home := by
  rw [← h.names, home_names]

theorem nextGlobal_eq (h : Represents book d) : book.nextGlobal = d.names.globals.length := by
  have hnext : book.nextGlobal = book.globals.entries.length := h.sound.nextGlobal
  rw [hnext, ← h.names]
  exact (List.length_map ..).symm

/-- A function is known to both or to neither. -/
theorem contains_eq (h : Represents book d) (f : String) :
    book.functions.contains f = decide (f ∈ d.functions) := by
  rw [Layer.contains_eq_isSome, ← Option.isSome_map (f := (·.entry))]
  change (book.entry? f).isSome = _
  rw [h.entries, Bool.eq_iff_iff, Finmap.lookup_isSome, decide_eq_true_iff]

theorem find (h : Represents book d) (x : String) :
    (book.find? x).map (fun v => (v.scope, v.address)) =
      (d.names.scope? x).map fun s => (s, (d.names.address s x : Int)) := by
  have hfind := find?_eq h.sound x
  rw [find?_variablesOnly, names_variablesOnly, h.names] at hfind
  cases hscope : d.names.scope? x with
  | none =>
    rw [hscope] at hfind
    rw [hfind]
    rfl
  | some scope =>
    rw [hscope] at hfind
    obtain ⟨v, hv, rfl, haddress⟩ := hfind
    rw [hv, Option.map_some, Option.map_some, haddress]

theorem addVariable (h : Represents book d) (m : Mention) :
    (book.addVariable m).1 = (d.bind m.text).names.address d.names.home m.text ∧
      Represents (book.addVariable m).2 (d.bind m.text) := by
  have hadded := addVariable_eq h.sound m
  rw [addVariable_variablesOnly] at hadded
  have haddress := hadded.address
  have hnames := hadded.names
  rw [names_variablesOnly, h.names] at haddress
  rw [names_variablesOnly, names_variablesOnly, h.names] at hnames
  refine ⟨haddress, hadded.sound, hnames, fun f => ?_⟩
  rw [AddressBook.entry?, functions_addVariable]
  exact h.entries f

theorem enter (h : Represents book d) :
    (book.settle book.enter).1 = (d.perform .enter).1 ∧
      Represents (book.settle book.enter).2 (d.perform .enter).2 := by
  have hhome := h.scope_eq
  cases hscope : book.scope with
  | function => simpa [settle, AddressBook.enter, Directory.perform, hscope, ← hhome] using h
  | global =>
    have hok : book.enter =
        .ok { book with scope := .function, locals := {}, nextLocal := 0 } := by
      rw [AddressBook.enter, hscope]
    obtain ⟨-, hnames, -, hsound⟩ := enter_ok h.sound (enter_variablesOnly hok)
    rw [names_variablesOnly, names_variablesOnly, h.names] at hnames
    simp only [settle, hok, Directory.perform, hscope, ← hhome, true_and]
    exact ⟨hsound, hnames, h.entries⟩

theorem exit (h : Represents book d) :
    (book.settle book.exit).1 = (d.perform .exit).1 ∧
      Represents (book.settle book.exit).2 (d.perform .exit).2 := by
  have hhome := h.scope_eq
  cases hscope : book.scope with
  | global => simpa [settle, AddressBook.exit, Directory.perform, hscope, ← hhome] using h
  | function =>
    have hok : book.exit = .ok { book with scope := .global } := by
      rw [AddressBook.exit, hscope]
    obtain ⟨hnames, -, hsound⟩ := exit_ok h.sound (exit_variablesOnly hok)
    rw [names_variablesOnly, names_variablesOnly, h.names] at hnames
    simp only [settle, hok, Directory.perform, hscope, ← hhome, true_and]
    exact ⟨hsound, hnames, h.entries⟩

theorem addFunction (h : Represents book d) (m : Mention) (entry : Int) :
    (book.settle (book.addFunction m entry)).1 = (d.perform (.addFunction m entry)).1 ∧
      Represents (book.settle (book.addFunction m entry)).2
        (d.perform (.addFunction m entry)).2 := by
  have hcontains := h.contains_eq m.text
  by_cases hm : m.text ∈ d.functions
  · rw [decide_eq_true hm] at hcontains
    simpa [settle, AddressBook.addFunction, Layer.mount, Directory.perform, hcontains, hm] using h
  · rw [decide_eq_false hm] at hcontains
    have hfresh : m.text ∉ book.functions.names := by
      rw [Layer.contains_eq] at hcontains
      exact of_decide_eq_false hcontains
    simp only [settle, AddressBook.addFunction, Layer.mount, Directory.perform, hcontains, hm,
      if_false, Bool.false_eq_true, true_and]
    refine ⟨h.sound, h.names, fun f => ?_⟩
    rw [AddressBook.entry?, Layer.find?_append _ hfresh, Directory.register]
    by_cases hf : f = m.text
    · subst hf
      simp
    · rw [if_neg hf, Finmap.lookup_insert_of_ne _ hf]
      exact h.entries f

/-- One request keeps the book and the directory in step, with the same answer. -/
theorem perform (h : Represents book d) (r : Request) :
    (book.perform r).1 = (d.perform r).1 ∧ Represents (book.perform r).2 (d.perform r).2 := by
  cases r with
  | addVariable m => exact ⟨congrArg Answer.address (h.addVariable m).1, (h.addVariable m).2⟩
  | find x => exact ⟨congrArg Answer.found (h.find x), h⟩
  | declares x =>
    refine ⟨congrArg Answer.declared ?_, h⟩
    rw [declares_eq, h.names]
  | globalCount => exact ⟨congrArg Answer.count h.nextGlobal_eq, h⟩
  | enter => exact h.enter
  | exit => exact h.exit
  | addFunction m entry => exact h.addFunction m entry
  | entry f => exact ⟨congrArg Answer.entry (h.entries f), h⟩

/-- Requests one after the other keep the book and the directory in step, with the same answers. -/
theorem run (h : Represents book d) (rs : List Request) :
    transcript AddressBook.perform book rs = transcript Directory.perform d rs ∧
      Represents (behind AddressBook.perform book rs) (behind Directory.perform d rs) := by
  induction rs generalizing book d with
  | nil => exact ⟨rfl, h⟩
  | cons r rs ih =>
    obtain ⟨hanswer, hnext⟩ := h.perform r
    obtain ⟨hanswers, hbehind⟩ := ih hnext
    exact ⟨by rw [transcript, transcript, hanswer, hanswers], hbehind⟩

/-- A part of the requests that a directory answers by itself is answered by itself. -/
theorem filter_transcript (h : Represents book d) {τ : Type} {part : Request → Bool}
    {view : Directory → τ} (hpart : Separate Directory.perform part view) (rs : List Request) :
    (transcript AddressBook.perform book rs).filter (fun a => part a.1) =
      transcript AddressBook.perform book (rs.filter part) := by
  rw [(h.run rs).1, hpart.filter_transcript rfl rs, (h.run (rs.filter part)).1]

/-- Behind a function everything about variables is answered as it was in front of it. -/
theorem filter_transcript_function (h : Represents book d) (hscope : book.scope = .global)
    {inner : List Request} (hinner : .exit ∉ inner) (later : List Request) :
    (transcript AddressBook.perform (behind AddressBook.perform book (.enter :: inner ++ [.exit]))
        later).filter (fun a => a.1.onVariables) =
      (transcript AddressBook.perform book later).filter (fun a => a.1.onVariables) := by
  have hnames := Directory.names_function (h.scope_eq ▸ hscope) hinner
  have hbehind := (h.run (.enter :: inner ++ [.exit])).2
  rw [(hbehind.run later).1, (h.run later).1]
  exact Directory.separate_variables.filter_transcript_congr hnames later

end Represents

/-- Requests made of a new book, refused ones among them, are answered as a directory answers them,
and the book has as many globals as the directory and is inside a function whenever that has
locals. What a directory refuses is refused, and leaves the book as it is. Variables and functions
are answered without regard to each other. What is asked inside a function, up to its end, makes no
difference to what is asked about variables behind it. -/
theorem refines_directory (rs : List Request) :
    let book := behind AddressBook.perform {} rs
    let d := behind Directory.perform {} rs
    transcript AddressBook.perform {} rs = transcript Directory.perform {} rs ∧
      (book.nextGlobal = d.names.globals.length ∧
        (book.scope = .function ↔ d.names.locals.isSome)) ∧
      (∀ r e, ((book.perform r).1 = .refused e ↔ d.Refuses r e) ∧
        ((book.perform r).1 = .refused e → (book.perform r).2 = book)) ∧
      ((transcript AddressBook.perform {} rs).filter (fun a => a.1.onVariables) =
          transcript AddressBook.perform {} (rs.filter Request.onVariables) ∧
        (transcript AddressBook.perform {} rs).filter (fun a => a.1.onFunctions) =
          transcript AddressBook.perform {} (rs.filter Request.onFunctions)) ∧
      ∀ inner later, book.scope = .global → .exit ∉ inner →
        (transcript AddressBook.perform
            (behind AddressBook.perform {} (rs ++ .enter :: inner ++ [.exit])) later).filter
            (fun a => a.1.onVariables) =
          (transcript AddressBook.perform book later).filter (fun a => a.1.onVariables) := by
  intro book d
  obtain ⟨hanswers, hbook⟩ := Represents.empty.run rs
  refine ⟨hanswers, ⟨hbook.nextGlobal_eq, ?_⟩, fun r e => ⟨?_, perform_refused⟩,
    ⟨Represents.empty.filter_transcript Directory.separate_variables rs,
      Represents.empty.filter_transcript Directory.separate_functions rs⟩,
    fun inner later hscope hinner => ?_⟩
  · rw [hbook.scope_eq]
    exact home_eq_function_iff
  · rw [(hbook.perform r).1]
    exact d.perform_refused_iff r e
  · rw [List.append_assoc, behind_append]
    exact hbook.filter_transcript_function hscope hinner later

/-- A local shadows a global, a function does not nest, and behind the function the global is what
it was. -/
theorem refines_directory_shadowed :
    let rs : List Request := [.addVariable ⟨"b", none⟩, .addVariable ⟨"a", none⟩]
    let inner : List Request := [.addVariable ⟨"a", none⟩, .find "a", .enter]
    let later : List Request := [.find "a", .globalCount]
    (transcript perform {} (rs ++ .enter :: inner ++ [.exit] ++ later)).map (·.2) =
        [.address 0, .address 1, .granted, .address 0, .found (some (.function, 0)),
          .refused .nested, .granted, .found (some (.global, 1)), .count 2] ∧
      (transcript perform (behind perform {} (rs ++ .enter :: inner ++ [.exit])) later).filter
          (fun a => a.1.onVariables) =
        (transcript perform (behind perform {} rs) later).filter (fun a => a.1.onVariables) :=
  ⟨by decide, (refines_directory _).2.2.2.2 _ _ rfl (by decide)⟩

end AddressBook

end StackPrimer

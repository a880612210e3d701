import StackPrimer.Proofs.InStep.Stream
import StackPrimer.Proofs.OnePass.Book

/-!
# Address books under new names

Two address books correspond if the second one knows the names of the first one under new names, in
the same order and with the same entry addresses. New names that differ where the old ones do never
change an address.

Results:
* `Pairing.Books.find?`: what a name denotes is the same cell under its new name.
* `Pairing.Books.addVariable`, `Pairing.Books.addFunction`: books that correspond stay so.
-/

namespace StackPrimer

namespace Grammar.Names

variable {f : String → String}

/-- The names under new names. -/
def rename (f : String → String) (n : Names) : Names := ⟨n.globals.map f, n.locals.map (List.map f)⟩

theorem mem_map_rename (hf : Function.Injective f) {xs : List String} {x : String} :
    f x ∈ xs.map f ↔ x ∈ xs :=
  List.mem_map_of_injective hf

theorem idxOf_map (hf : Function.Injective f) (xs : List String) (x : String) :
    (xs.map f).idxOf (f x) = xs.idxOf x := by
  induction xs with
  | nil => rfl
  | cons y ys ih =>
    by_cases h : y = x
    · simp [h]
    · rw [List.map_cons, List.idxOf_cons_ne _ h, List.idxOf_cons_ne _ fun h' => h (hf h'), ih]

theorem extend_map (hf : Function.Injective f) (xs : List String) (x : String) :
    extend (xs.map f) (f x) = (extend xs x).map f := by
  by_cases h : x ∈ xs
  · rw [extend, extend, if_pos h, if_pos ((mem_map_rename hf).mpr h)]
  · rw [extend, extend, if_neg h, if_neg fun h' => h ((mem_map_rename hf).mp h')]
    simp

@[simp] theorem home_rename (n : Names) : (n.rename f).home = n.home := by
  rcases n with ⟨globals, _ | locals⟩ <;> rfl

theorem inner_rename (n : Names) : (n.rename f).inner = n.inner.map f := by
  rcases n with ⟨globals, _ | locals⟩ <;> rfl

theorem inScope_rename (n : Names) (scope : Scope) :
    (n.rename f).inScope scope = (n.inScope scope).map f := by
  cases scope with
  | global => rfl
  | function => exact inner_rename n

theorem scope?_rename (hf : Function.Injective f) (n : Names) (x : String) :
    (n.rename f).scope? (f x) = n.scope? x := by
  have hglobals : f x ∈ (n.rename f).globals ↔ x ∈ n.globals := mem_map_rename hf
  simp only [scope?, inner_rename, mem_map_rename hf, hglobals]

theorem address_rename (hf : Function.Injective f) (n : Names) (scope : Scope) (x : String) :
    (n.rename f).address scope (f x) = n.address scope x := by
  rw [address, inScope_rename, idxOf_map hf, address]

theorem binds_rename (hf : Function.Injective f) (n : Names) (x : String) :
    (n.rename f).binds (f x) = n.binds x := by
  simp only [binds, home_rename, inScope_rename, mem_map_rename hf]

theorem bind_rename (hf : Function.Injective f) (n : Names) (x : String) :
    (n.rename f).bind (f x) = (n.bind x).rename f := by
  rcases n with ⟨globals, _ | locals⟩ <;> simp [rename, bind, extend_map hf]

end Grammar.Names

namespace AddressBook

variable {book : AddressBook} {m : Mention}

theorem addFunction_of_mem (h : m.text ∈ book.functionNames) (entry : Int) :
    book.addFunction m entry = .error (.alreadyExists m.text) := by
  have hmem : m.text ∈ book.functions.names := h
  rw [addFunction, Layer.mount, Layer.contains_eq, decide_eq_true hmem]
  rfl

theorem exists_addFunction (h : m.text ∉ book.functionNames) (entry : Int) :
    ∃ after, book.addFunction m entry = .ok after := by
  have hmem : m.text ∉ book.functions.names := h
  rw [addFunction, Layer.mount, Layer.contains_eq, decide_eq_false hmem]
  exact ⟨_, rfl⟩

/-- Entry addresses are natural numbers. -/
theorem Sound.entry?_eq (h : book.Sound) (f : String) :
    book.entry? f = (book.entries f).map Nat.cast := by
  cases hf : book.entry? f with
  | none => simp [AddressBook.entries, hf]
  | some a =>
    obtain ⟨n, rfl⟩ := Int.eq_ofNat_of_zero_le (h.entries f a hf)
    simp [AddressBook.entries, hf]

end AddressBook

namespace Compilation

open Grammar (Names)

/-- The second book knows under new names what the first one knows. -/
structure Pairing.Books (c : Pairing) (book book' : AddressBook) : Prop where
  left : book.Sound
  right : book'.Sound
  names : book'.names = book.names.rename c.rename
  functionNames : book'.functionNames = book.functionNames.map c.rename
  entries (f : String) : book'.entries (c.rename f) = book.entries f

namespace Pairing.Books

variable {c : Pairing} {book book' : AddressBook} {m m' : Mention}

theorem empty (c : Pairing) : c.Books {} {} :=
  ⟨AddressBook.sound_empty, AddressBook.sound_empty, rfl, rfl, fun _ => rfl⟩

/-- What a name denotes is the same cell under its new name. -/
theorem find? (h : c.Books book book') (x : String) :
    book.find? x = none ∧ book'.find? (c.rename x) = none ∨
      ∃ v v', book.find? x = some v ∧ book'.find? (c.rename x) = some v' ∧
        v'.scope = v.scope ∧ v'.address = v.address := by
  have hfind := book.find?_eq h.left x
  have hfind' := book'.find?_eq h.right (c.rename x)
  rw [h.names, Names.scope?_rename c.injective] at hfind'
  cases hscope : book.names.scope? x with
  | none =>
    rw [hscope] at hfind hfind'
    exact .inl ⟨hfind, hfind'⟩
  | some scope =>
    rw [hscope] at hfind hfind'
    obtain ⟨v, hv, hs, ha⟩ := hfind
    obtain ⟨v', hv', hs', ha'⟩ := hfind'
    rw [Names.address_rename c.injective] at ha'
    exact .inr ⟨v, v', hv, hv', hs'.trans hs.symm, ha'.trans ha.symm⟩

theorem entry? (h : c.Books book book') (f : String) :
    book'.entry? (c.rename f) = book.entry? f := by
  rw [h.right.entry?_eq, h.left.entry?_eq, h.entries]

theorem declares (h : c.Books book book') (x : String) :
    book'.declares (c.rename x) = book.declares x := by
  rw [AddressBook.declares_eq, AddressBook.declares_eq, h.names, Names.binds_rename c.injective]

theorem scope_eq (h : c.Books book book') : book'.scope = book.scope := by
  rw [← AddressBook.home_names, ← AddressBook.home_names, h.names, Names.home_rename]

/-- Where no function is added, the books still correspond if their names do. -/
theorem of_names {after after' : AddressBook} (h : c.Books book book') (hsound : after.Sound)
    (hsound' : after'.Sound) (hnames : after'.names = after.names.rename c.rename)
    (hfunctions : after.functions = book.functions)
    (hfunctions' : after'.functions = book'.functions) : c.Books after after' where
  left := hsound
  right := hsound'
  names := hnames
  functionNames := by
    simpa [AddressBook.functionNames, hfunctions, hfunctions'] using h.functionNames
  entries f := by
    simpa [AddressBook.entries, AddressBook.entry?, hfunctions, hfunctions'] using h.entries f

/-- A variable gets the same address under its new name. -/
theorem addVariable (h : c.Books book book') (hm : m'.text = c.rename m.text) :
    (book'.addVariable m').1 = (book.addVariable m).1 ∧
      c.Books (book.addVariable m).2 (book'.addVariable m').2 := by
  have hadded := AddressBook.addVariable_eq h.left m
  have hadded' := AddressBook.addVariable_eq h.right m'
  have hnames : (book'.addVariable m').2.names = (book.addVariable m).2.names.rename c.rename := by
    rw [hadded'.names, hadded.names, h.names, hm, Names.bind_rename c.injective]
  refine ⟨?_, h.of_names hadded.sound hadded'.sound hnames hadded.functions hadded'.functions⟩
  rw [hadded'.address, hadded.address, h.names, hm, Names.bind_rename c.injective,
    Names.home_rename, Names.address_rename c.injective]

/-- A function is refused in both books or added to both. -/
theorem addFunction (h : c.Books book book') (hm : m'.text = c.rename m.text) (entry : Nat) :
    book.addFunction m entry = .error (.alreadyExists m.text) ∧
        book'.addFunction m' entry = .error (.alreadyExists m'.text) ∨
      ∃ after after', book.addFunction m entry = .ok after ∧
        book'.addFunction m' entry = .ok after' ∧ c.Books after after' := by
  have hiff : m'.text ∈ book'.functionNames ↔ m.text ∈ book.functionNames := by
    rw [hm, h.functionNames, Names.mem_map_rename c.injective]
  by_cases hmem : m.text ∈ book.functionNames
  · exact .inl ⟨AddressBook.addFunction_of_mem hmem _,
      AddressBook.addFunction_of_mem (hiff.mpr hmem) _⟩
  · obtain ⟨after, hafter⟩ := AddressBook.exists_addFunction hmem entry
    obtain ⟨after', hafter'⟩ :=
      AddressBook.exists_addFunction (fun h' => hmem (hiff.mp h')) entry
    obtain ⟨-, hnames, hfunctions, hentries, hsound, -⟩ := AddressBook.addFunction_ok h.left hafter
    obtain ⟨-, hnames', hfunctions', hentries', hsound', -⟩ := AddressBook.addFunction_ok h.right hafter'
    refine .inr ⟨after, after', hafter, hafter', hsound, hsound', ?_, ?_, fun f => ?_⟩
    · rw [hnames', hnames, h.names]
    · rw [hfunctions', hfunctions, h.functionNames, hm, List.map_append, List.map_singleton]
    · simp only [hentries, hentries', hm, c.injective.eq_iff, h.entries]

theorem enter (h : c.Books book book') :
    book.enter = .error .nested ∧ book'.enter = .error .nested ∨
      ∃ after after', book.enter = .ok after ∧ book'.enter = .ok after' ∧ c.Books after after' := by
  have hscope := h.scope_eq
  cases hs : book.scope with
  | function =>
    rw [hs] at hscope
    exact .inl ⟨AddressBook.enter_eq_error_iff.mpr ⟨hs, rfl⟩,
      AddressBook.enter_eq_error_iff.mpr ⟨hscope, rfl⟩⟩
  | global =>
    rw [hs] at hscope
    obtain ⟨after, hafter⟩ : ∃ after, book.enter = .ok after := by
      rw [AddressBook.enter, hs]
      exact ⟨_, rfl⟩
    obtain ⟨after', hafter'⟩ : ∃ after', book'.enter = .ok after' := by
      rw [AddressBook.enter, hscope]
      exact ⟨_, rfl⟩
    obtain ⟨-, hnames, hfunctions, hsound⟩ := AddressBook.enter_ok h.left hafter
    obtain ⟨-, hnames', hfunctions', hsound'⟩ := AddressBook.enter_ok h.right hafter'
    refine .inr ⟨after, after', hafter, hafter',
      h.of_names hsound hsound' ?_ hfunctions hfunctions'⟩
    rw [hnames', hnames, h.names]
    rfl

theorem exit (h : c.Books book book') :
    book.exit = .error .notInside ∧ book'.exit = .error .notInside ∨
      ∃ after after', book.exit = .ok after ∧ book'.exit = .ok after' ∧ c.Books after after' := by
  have hscope := h.scope_eq
  cases hs : book.scope with
  | global =>
    rw [hs] at hscope
    exact .inl ⟨AddressBook.exit_eq_error_iff.mpr ⟨hs, rfl⟩,
      AddressBook.exit_eq_error_iff.mpr ⟨hscope, rfl⟩⟩
  | function =>
    rw [hs] at hscope
    obtain ⟨after, hafter⟩ : ∃ after, book.exit = .ok after := by
      rw [AddressBook.exit, hs]
      exact ⟨_, rfl⟩
    obtain ⟨after', hafter'⟩ : ∃ after', book'.exit = .ok after' := by
      rw [AddressBook.exit, hscope]
      exact ⟨_, rfl⟩
    obtain ⟨hnames, hfunctions, hsound⟩ := AddressBook.exit_ok h.left hafter
    obtain ⟨hnames', hfunctions', hsound'⟩ := AddressBook.exit_ok h.right hafter'
    refine .inr ⟨after, after', hafter, hafter',
      h.of_names hsound hsound' ?_ hfunctions hfunctions'⟩
    rw [hnames', hnames, h.names]
    rfl

end Pairing.Books

end Compilation

end StackPrimer

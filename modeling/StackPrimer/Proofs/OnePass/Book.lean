import StackPrimer.Names.AddressBook
import StackPrimer.Proofs.Grammar.Code

/-!
# The address book as lists of names

All that the address book knows about variables are the names of each scope in the order in which
they came, because the address of a variable is its place in that order.

Results:
* `AddressBook.find?_eq`: looking up a name is finding its place.
* `AddressBook.addVariable_eq`: adding a name is binding it.
* `AddressBook.find?_variablesOnly`, `AddressBook.addVariable_variablesOnly`: functions make no
  difference to variables.
-/

namespace StackPrimer

open Grammar (Names Entries)

/-! ## Layers of variables -/

namespace Layer

variable {α : Type}

/-- The names of a layer. -/
def names (l : Layer α) : List String := l.entries.map (·.1)

theorem find?_eq (l : Layer α) (x : String) :
    l.find? x = (l.entries[l.names.idxOf x]?).map (·.2) := by
  rcases l with ⟨entries⟩
  induction entries with
  | nil => rfl
  | cons e es ih =>
    by_cases h : e.1 = x
    · simp [find?, names, h]
    · simp only [find?, names] at ih
      simp [find?, names, List.idxOf_cons_ne _ h, h, ih]

theorem find?_eq_none_iff (l : Layer α) (x : String) : l.find? x = none ↔ x ∉ l.names := by
  rw [find?_eq, Option.map_eq_none_iff, List.getElem?_eq_none_iff, ← List.length_map (·.1)]
  change l.names.length ≤ _ ↔ _
  rw [← List.idxOf_lt_length_iff, Nat.not_lt]

theorem contains_eq (l : Layer α) (x : String) : l.contains x = decide (x ∈ l.names) := by
  rw [contains_eq_isSome]
  by_cases h : x ∈ l.names
  · simp only [h, decide_true, Option.isSome_iff_ne_none, ne_eq, find?_eq_none_iff]
    simp
  · simp [(find?_eq_none_iff l x).mpr h, h]

@[simp] theorem names_append (l : Layer α) (x : String) (a : α) :
    (l.append x a).names = l.names ++ [x] := by
  simp [names, append]

/-- A new name means what it is given, and every other name what it meant before. -/
theorem find?_append (l : Layer α) {x : String} (hx : x ∉ l.names) (a : α) (y : String) :
    (l.append x a).find? y = if y = x then some a else l.find? y := by
  by_cases hy : y = x
  · have hnone := (find?_eq_none_iff l x).mpr hx
    simp only [find?, Option.map_eq_none_iff] at hnone
    simp [find?, append, List.find?_append, hy, hnone]
  · cases hf : l.entries.find? fun e => e.1 = y <;>
      simp [find?, append, List.find?_append, hf, hy, Ne.symm hy]

/-- The variables of the layer live in this scope, each at its place. -/
def Numbered (l : Layer Variable) (scope : Scope) : Prop :=
  ∀ (i : Nat) (e : String × Variable), l.entries[i]? = some e →
    e.2.address = i ∧ e.2.scope = scope

theorem Numbered.find? {l : Layer Variable} {scope : Scope} (h : l.Numbered scope) {x : String}
    (hx : x ∈ l.names) :
    ∃ v, l.find? x = some v ∧ v.address = l.names.idxOf x ∧ v.scope = scope := by
  cases hv : l.find? x with
  | none => exact absurd hx ((find?_eq_none_iff l x).mp hv)
  | some v =>
    rw [find?_eq, Option.map_eq_some_iff] at hv
    obtain ⟨e, he, rfl⟩ := hv
    exact ⟨e.2, rfl, h _ e he⟩

theorem Numbered.append {l : Layer Variable} {scope : Scope} (h : l.Numbered scope) (x : String)
    {v : Variable} (hv : v.address = l.entries.length) (hs : v.scope = scope) :
    (l.append x v).Numbered scope := by
  intro i e he
  rw [Layer.append, List.getElem?_append] at he
  split at he
  · exact h i e he
  · rename_i hi
    rw [List.getElem?_singleton] at he
    split at he
    · cases he
      exact ⟨by rw [hv]; omega, hs⟩
    · cases he

end Layer

/-! ## The book -/

namespace AddressBook

/-- The names that the book knows, in the order in which they came. -/
def names (book : AddressBook) : Names where
  globals := book.globals.names
  locals :=
    match book.scope with
    | .global => none
    | .function => some book.locals.names

/-- The functions that the book knows. -/
def functionNames (book : AddressBook) : List String := book.functions.names

/-- The entry addresses that the book knows. -/
def entries (book : AddressBook) : Entries := fun f => (book.entry? f).map Int.toNat

/-- What has an entry address is a function. -/
theorem mem_functionNames {book : AddressBook} {f : String} {a : Int}
    (h : book.entry? f = some a) : f ∈ book.functionNames := by
  by_contra hmem
  rw [AddressBook.entry?, (Layer.find?_eq_none_iff _ _).mpr hmem] at h
  cases h

/-- Every address is the place of its name, and entry addresses are not negative. -/
structure Sound (book : AddressBook) : Prop where
  globals : book.globals.Numbered .global
  nextGlobal : book.nextGlobal = book.globals.entries.length
  locals : book.scope = .function → book.locals.Numbered .function
  nextLocal : book.scope = .function → book.nextLocal = book.locals.entries.length
  entries : ∀ f a, book.entry? f = some a → 0 ≤ a

/-- An empty book is sound. -/
theorem sound_empty : Sound {} where
  globals := by simp [Layer.Numbered]
  nextGlobal := rfl
  locals := by simp
  nextLocal := by simp
  entries := by simp [Layer.find?, entry?]

variable {book book' : AddressBook}

@[simp] theorem home_names (book : AddressBook) : book.names.home = book.scope := by
  cases h : book.scope <;> simp [names, Names.home, h]

theorem inScope_names (book : AddressBook) :
    book.names.inScope book.scope = (book.layers book.scope).names := by
  cases h : book.scope <;> simp [names, Names.inScope, Names.inner, layers, h]

/-- Looking up a name is finding its place. -/
theorem find?_eq (h : book.Sound) (x : String) :
    match book.names.scope? x with
    | none => book.find? x = none
    | some scope =>
      ∃ v, book.find? x = some v ∧ v.scope = scope ∧ v.address = book.names.address scope x := by
  have hglobal : ∀ hx : x ∈ book.globals.names, ∃ v, book.globals.find? x = some v ∧
      v.scope = .global ∧ v.address = book.globals.names.idxOf x := by
    intro hx
    obtain ⟨v, hv, ha, hs⟩ := h.globals.find? hx
    exact ⟨v, hv, hs, ha⟩
  have hmiss := (Layer.find?_eq_none_iff book.globals x).mpr
  cases hscope : book.scope with
  | global =>
    by_cases hx : x ∈ book.globals.names
    · simpa [find?, visible, names, hscope, Overlay.find?, layers, Names.scope?, Names.inner, hx,
        Names.address, Names.inScope] using hglobal hx
    · simpa [find?, visible, names, hscope, Overlay.find?, layers, Names.scope?, Names.inner, hx]
        using hmiss hx
  | function =>
    by_cases hl : x ∈ book.locals.names
    · obtain ⟨v, hv, ha, hs⟩ := (h.locals hscope).find? hl
      simp [find?, visible, names, hscope, Overlay.find?, layers, Names.scope?, Names.inner, hl,
        Names.address, Names.inScope, hv, ha, hs]
    · have hnone := (Layer.find?_eq_none_iff book.locals x).mpr hl
      by_cases hx : x ∈ book.globals.names
      · simpa [find?, visible, names, hscope, Overlay.find?, layers, Names.scope?, Names.inner, hl,
          hx, Names.address, Names.inScope, hnone] using hglobal hx
      · simpa [find?, visible, names, hscope, Overlay.find?, layers, Names.scope?, Names.inner, hl,
          hx, hnone] using hmiss hx

/-- A name is declared in the current scope if it is bound there. -/
theorem declares_eq (book : AddressBook) (x : String) :
    book.declares x = book.names.binds x := by
  rw [declares, Layer.contains_eq, ← inScope_names, Names.binds, home_names]

/-! ## Changes of the book -/

/-- What the book is like after a name has been added. -/
structure Added (book book' : AddressBook) (x : String) (address : Int) : Prop where
  address : address = (book.names.bind x).address book.names.home x
  names : book'.names = book.names.bind x
  functions : book'.functions = book.functions
  sound : book'.Sound

/-- The next free address is behind the names there are. -/
theorem next_eq (h : book.Sound) : book.next = (book.names.inScope book.names.home).length := by
  rw [home_names, inScope_names]
  cases hscope : book.scope with
  | global => simp [next, hscope, layers, Layer.names, h.nextGlobal]
  | function => simp [next, hscope, layers, Layer.names, h.nextLocal hscope]

theorem names_allocate (book : AddressBook) {m : Mention}
    (hm : m.text ∉ book.names.inScope book.names.home) :
    (book.allocate m).names = book.names.bind m.text := by
  rw [home_names, inScope_names] at hm
  cases hscope : book.scope with
  | global =>
    simp only [hscope, layers] at hm
    simp [allocate, names, hscope, Names.bind, Names.extend, hm]
  | function =>
    simp only [hscope, layers] at hm
    simp [allocate, names, hscope, Names.bind, Names.extend, hm]

theorem Sound.allocate (h : book.Sound) (m : Mention) : (book.allocate m).Sound := by
  cases hscope : book.scope with
  | global =>
    refine ⟨?_, ?_, ?_, ?_, ?_⟩
    · simp only [AddressBook.allocate, hscope]
      exact h.globals.append _ (by simp [next, hscope, h.nextGlobal]) rfl
    · simp [AddressBook.allocate, hscope, Layer.append, h.nextGlobal]
    · simp [AddressBook.allocate, hscope]
    · simp [AddressBook.allocate, hscope]
    · simpa [AddressBook.allocate, hscope, entry?] using h.entries
  | function =>
    refine ⟨?_, ?_, ?_, ?_, ?_⟩
    · simpa [AddressBook.allocate, hscope] using h.globals
    · simpa [AddressBook.allocate, hscope] using h.nextGlobal
    · intro _
      simp only [AddressBook.allocate, hscope]
      exact (h.locals hscope).append _ (by simp [next, hscope, h.nextLocal hscope]) rfl
    · simp [AddressBook.allocate, hscope, Layer.append, h.nextLocal hscope]
    · simpa [AddressBook.allocate, hscope, entry?] using h.entries

/-- Adding a name is binding it. -/
theorem addVariable_eq (h : book.Sound) (m : Mention) :
    Added book (book.addVariable m).2 m.text (book.addVariable m).1 := by
  have hlayer : (book.layers book.scope).Numbered book.scope := by
    cases hscope : book.scope with
    | global => exact h.globals
    | function => exact h.locals hscope
  by_cases hm : m.text ∈ book.names.inScope book.names.home
  · have hbind : book.names.bind m.text = book.names := by
      rcases hn : book.names with ⟨globals, _ | locals⟩ <;>
        simp_all [Names.bind, Names.extend, Names.inScope, Names.home, Names.inner]
    have hm' := hm
    rw [home_names, inScope_names] at hm'
    obtain ⟨v, hv, ha, -⟩ := hlayer.find? hm'
    rw [addVariable, hv]
    refine ⟨?_, hbind.symm, rfl, h⟩
    rw [hbind, home_names, Names.address, inScope_names]
    exact ha
  · have hm' := hm
    rw [home_names, inScope_names] at hm'
    rw [addVariable, (Layer.find?_eq_none_iff _ _).mpr hm']
    refine ⟨?_, names_allocate book hm, ?_, h.allocate m⟩
    · rw [Names.address, Names.inScope_bind, Names.extend, if_neg hm, next_eq h,
        List.idxOf_append_of_notMem hm]
      simp
    · cases hscope : book.scope <;> simp [allocate, hscope]

/-- Adding a variable has nothing to do with functions. -/
theorem addVariable_functions (book : AddressBook) (functions : Layer Function) (m : Mention) :
    ({ book with functions } : AddressBook).addVariable m =
      ((book.addVariable m).1, { (book.addVariable m).2 with functions }) := by
  have hlayers : ({ book with functions } : AddressBook).layers = book.layers := rfl
  have hallocate : ({ book with functions } : AddressBook).allocate m =
      { book.allocate m with functions } := by
    cases hscope : book.scope <;> simp [allocate, hscope, next]
  simp only [addVariable, hlayers, hallocate]
  cases (book.layers book.scope).find? m.text <;> rfl

theorem functions_addVariable (book : AddressBook) (m : Mention) :
    (book.addVariable m).2.functions = book.functions :=
  congrArg (·.2.functions) (addVariable_functions book book.functions m)

/-- A function is added if there is none of its name. -/
theorem addFunction_ok {m : Mention} {entry : Nat} (h : book.Sound)
    (hok : book.addFunction m entry = .ok book') :
    m.text ∉ book.functionNames ∧ book'.names = book.names ∧
      book'.functionNames = book.functionNames ++ [m.text] ∧
      book'.entries = (fun g => if g = m.text then some entry else book.entries g) ∧
      book'.Sound ∧ book'.scope = book.scope := by
  unfold addFunction Layer.mount at hok
  by_cases hm : m.text ∈ book.functions.names
  · rw [Layer.contains_eq, decide_eq_true hm] at hok
    cases hok
  · rw [Layer.contains_eq, decide_eq_false hm] at hok
    cases hok
    have hentry := Layer.find?_append book.functions hm ⟨m, (entry : Int)⟩
    refine ⟨hm, rfl, Layer.names_append .., ?_, ⟨h.globals, h.nextGlobal, h.locals, h.nextLocal, ?_⟩,
      rfl⟩
    · funext g
      simp only [entries, entry?, hentry]
      split <;> simp
    · intro f a ha
      simp only [hentry, entry?] at ha
      split at ha
      · simp only [Option.map_some, Option.some.injEq] at ha
        omega
      · exact h.entries f a ha

/-- A function begins outside of functions and without variables of its own. -/
theorem enter_ok (h : book.Sound) (hok : book.enter = .ok book') :
    book.names.home = .global ∧ book'.names = { book.names with locals := some [] } ∧
      book'.functions = book.functions ∧ book'.Sound := by
  cases hscope : book.scope with
  | global =>
    simp only [enter, hscope] at hok
    cases hok
    refine ⟨by simp [hscope], by simp [names, Layer.names], rfl,
      ⟨h.globals, h.nextGlobal, ?_, by simp, h.entries⟩⟩
    simp [Layer.Numbered]
  | function =>
    simp only [enter, hscope] at hok
    cases hok

/-- Behind a function its variables are forgotten. -/
theorem exit_ok (h : book.Sound) (hok : book.exit = .ok book') :
    book'.names = { book.names with locals := none } ∧ book'.functions = book.functions ∧
      book'.Sound := by
  cases hscope : book.scope with
  | global =>
    simp only [exit, hscope] at hok
    cases hok
  | function =>
    simp only [exit, hscope] at hok
    cases hok
    exact ⟨by simp [names], rfl, ⟨h.globals, h.nextGlobal, by simp, by simp, h.entries⟩⟩

/-! ## The variables alone -/

/-- The book with its variables alone. -/
def variablesOnly (book : AddressBook) : AddressBook := { book with functions := {} }

/-- Without the functions the same variables are found. -/
theorem find?_variablesOnly (book : AddressBook) (name : String) :
    book.variablesOnly.find? name = book.find? name := rfl

theorem names_variablesOnly (book : AddressBook) : book.variablesOnly.names = book.names := rfl

/-- Whether the functions are there or not, a variable is added at the same address. -/
theorem addVariable_variablesOnly (book : AddressBook) (m : Mention) :
    book.variablesOnly.addVariable m =
      ((book.addVariable m).1, (book.addVariable m).2.variablesOnly) :=
  addVariable_functions book {} m

theorem addFunction_variablesOnly {m : Mention} {entry : Int}
    (h : book.addFunction m entry = .ok book') : book'.variablesOnly = book.variablesOnly := by
  unfold addFunction at h
  split at h
  · cases h
    rfl
  · cases h

theorem enter_variablesOnly (h : book.enter = .ok book') :
    book.variablesOnly.enter = .ok book'.variablesOnly := by
  cases hscope : book.scope with
  | global =>
    simp only [enter, hscope] at h
    cases h
    simp [enter, variablesOnly, hscope]
  | function =>
    simp only [enter, hscope] at h
    cases h

theorem exit_variablesOnly (h : book.exit = .ok book') :
    book.variablesOnly.exit = .ok book'.variablesOnly := by
  cases hscope : book.scope with
  | global =>
    simp only [exit, hscope] at h
    cases h
  | function =>
    simp only [exit, hscope] at h
    cases h
    simp [exit, variablesOnly, hscope]

end AddressBook

end StackPrimer

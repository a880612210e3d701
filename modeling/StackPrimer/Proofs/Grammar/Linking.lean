import StackPrimer.Proofs.Grammar.Code

/-!
# Functions and their calls

What a function stands for is fixed by its declaration, together with the names that are bound at
that point. The code of a function refers to the functions declared before and to itself; as no
function is declared twice, it makes no difference if it refers to the entry addresses behind all
declarations instead.

Results:
* `Source.listed`: the code of the declarations, with entry addresses that are the same throughout.
-/

namespace StackPrimer.Grammar

/-! ## Definitions -/

/-- What a call executes: the block, with the names at its beginning. -/
structure Definition where
  parameters : List String
  body : Block
  inside : Names

/-- The functions that there are. -/
abbrev Definitions := String → Option Definition

/-- How many parameters a function has. -/
def Definitions.arity (defs : Definitions) (f : String) : Option Nat :=
  (defs f).map (·.parameters.length)

/-- The functions behind a declaration. -/
def Declaration.definitions (defs : Definitions) (n : Names) : Declaration → Definitions
  | assign .. => defs
  | define f parameters body =>
    fun g => if g = f then some ⟨parameters, body, n.enter parameters⟩ else defs g

/-- The functions behind declarations one after the other. -/
def definitionsBehind (defs : Definitions) (n : Names) : List Declaration → Definitions
  | [] => defs
  | d :: ds => definitionsBehind (d.definitions defs n) (d.names n) ds

/-- No function is defined yet. -/
def noDefinitions : Definitions := fun _ => none

/-- The functions of a program. -/
def Source.definitions (source : Source) : Definitions :=
  definitionsBehind noDefinitions {} source.declarations

/-- The entry addresses of the functions of a program. -/
def Source.entries (source : Source) : Entries := entriesBehind noEntries {} 1 source.declarations

/-- The names bound behind the declarations of a program. -/
def Source.names (source : Source) : Names := namesBehind {} source.declarations

/-! ## Calls with the right number of arguments -/

mutual

/-- Every call passes as many arguments as the function has parameters. -/
def Statement.CallsMatch (arity : String → Option Nat) : Statement → Prop
  | .print _ => True
  | .assign .. => True
  | .call f arguments => arity f = some arguments.length
  | .choice _ yes => yes.CallsMatch arity
  | .alternative _ yes no => yes.CallsMatch arity ∧ no.CallsMatch arity
  | .loop _ body => body.CallsMatch arity

/-- The same for statements one after the other. -/
def Block.CallsMatch (arity : String → Option Nat) : Block → Prop
  | .nil => True
  | .cons s rest => s.CallsMatch arity ∧ rest.CallsMatch arity

end

/-- The same for a declaration. -/
def Declaration.CallsMatch (arity : String → Option Nat) : Declaration → Prop
  | assign .. => True
  | define _ _ body => body.CallsMatch arity

/-- Every call of the program passes as many arguments as the function has parameters. -/
def Source.CallsMatch (source : Source) : Prop :=
  (∀ d ∈ source.declarations, d.CallsMatch source.definitions.arity) ∧
    source.statements.CallsMatch source.definitions.arity

/-! ## Entry addresses that are the same throughout -/

section Congruence

variable {entries entries' : Entries} {functions : List String}

mutual

/-- The code of a statement depends on the entries of the functions that it may call. -/
theorem Statement.code_congr (h : ∀ f ∈ functions, entries f = entries' f) {n : Names} :
    ∀ {s : Statement} {start : Nat}, s.Scoped functions n →
      s.code entries n start = s.code entries' n start
  | .print _, _, _ => rfl
  | .assign .., _, _ => rfl
  | .call f arguments, start, hs => by
    rw [Statement.Scoped] at hs
    simp only [Statement.code, h f hs.1]
  | .choice c yes, start, hs => by
    rw [Statement.Scoped] at hs
    simp only [Statement.code, Block.code_congr h hs.2]
  | .alternative c yes no, start, hs => by
    rw [Statement.Scoped] at hs
    simp only [Statement.code, Block.code_congr h hs.2.1, Block.code_congr h hs.2.2]
  | .loop c body, start, hs => by
    rw [Statement.Scoped] at hs
    simp only [Statement.code, Block.code_congr h hs.2]

/-- The same for statements one after the other. -/
theorem Block.code_congr (h : ∀ f ∈ functions, entries f = entries' f) {n : Names} :
    ∀ {b : Block} {start : Nat}, b.Scoped functions n →
      b.code entries n start = b.code entries' n start
  | .nil, _, _ => rfl
  | .cons s rest, start, hb => by
    rw [Block.Scoped] at hb
    simp only [Block.code, Statement.code_congr h hb.1, Block.code_congr h hb.2]

end

end Congruence

section Monotonicity

variable {functions functions' : List String}

mutual

/-- What may be called remains so when there are more functions. -/
theorem Statement.Scoped.mono (h : functions ⊆ functions') {n : Names} :
    ∀ {s : Statement}, s.Scoped functions n → s.Scoped functions' n
  | .print _, hs => hs
  | .assign .., hs => hs
  | .call .., hs => ⟨h hs.1, hs.2⟩
  | .choice .., hs => ⟨hs.1, Block.Scoped.mono h hs.2⟩
  | .alternative .., hs => ⟨hs.1, Block.Scoped.mono h hs.2.1, Block.Scoped.mono h hs.2.2⟩
  | .loop .., hs => ⟨hs.1, Block.Scoped.mono h hs.2⟩

/-- The same for statements one after the other. -/
theorem Block.Scoped.mono (h : functions ⊆ functions') {n : Names} :
    ∀ {b : Block}, b.Scoped functions n → b.Scoped functions' n
  | .nil, hb => hb
  | .cons .., hb => ⟨Statement.Scoped.mono h hb.1, Block.Scoped.mono h hb.2⟩

end

end Monotonicity

/-- Behind a declaration there are the functions that were there before. -/
theorem Declaration.subset_functions (d : Declaration) (functions : List String) :
    functions ⊆ d.functions functions := by
  cases d with
  | assign x e => exact List.Subset.refl functions
  | define f parameters body => exact List.subset_append_left ..

/-- Behind more declarations a function still has its entry, because it is not declared again. -/
theorem entriesBehind_of_mem {functions : List String} {n : Names} {ds : List Declaration}
    (h : DeclarationsScoped functions n ds) {f : String} (hf : f ∈ functions) (entries : Entries)
    (start : Nat) : entriesBehind entries n start ds f = entries f := by
  induction ds generalizing functions n entries start with
  | nil => rfl
  | cons d ds ih =>
    rw [DeclarationsScoped] at h
    rw [entriesBehind, ih h.2 (d.subset_functions functions hf)]
    cases d with
    | assign x e => rfl
    | define g parameters body =>
      have hne : f ≠ g := by
        rintro rfl
        exact h.1.1 hf
      simp [Declaration.entries, hne]

/-- The same for what it stands for. -/
theorem definitionsBehind_of_mem {functions : List String} {n : Names} {ds : List Declaration}
    (h : DeclarationsScoped functions n ds) {f : String} (hf : f ∈ functions)
    (defs : Definitions) : definitionsBehind defs n ds f = defs f := by
  induction ds generalizing functions n defs with
  | nil => rfl
  | cons d ds ih =>
    rw [DeclarationsScoped] at h
    rw [definitionsBehind, ih h.2 (d.subset_functions functions hf)]
    cases d with
    | assign x e => rfl
    | define g parameters body =>
      have hne : f ≠ g := by
        rintro rfl
        exact h.1.1 hf
      simp [Declaration.definitions, hne]

/-- The code of a function behind the jump around it. -/
def Definition.code (entries : Entries) (d : Definition) (start : Nat) : List Instruction :=
  plain .enter :: parametersCode d.inside d.parameters ++
    d.body.code entries d.inside (start + 1 + d.parameters.length) ++ [plain .leave]

/-- The code of declarations, from the names and the address in front of them, with the same functions,
entries and definitions throughout. -/
inductive Listed (functions : List String) (entries : Entries) (defs : Definitions) :
    Names → Nat → List Declaration → List Instruction → Prop
  | nil {n : Names} {start : Nat} : Listed functions entries defs n start [] []
  | assign {n : Names} {start : Nat} {x : String} {e : Expression} {ds : List Declaration}
      {is rest : List Instruction} : e.Scoped (n.bind x) →
      is = withInt .allocate 1 :: e.code (n.bind x) ++ [(n.bind x).store x] →
      Listed functions entries defs (n.bind x) (start + is.length) ds rest →
      Listed functions entries defs n start (.assign x e :: ds) (is ++ rest)
  | define {n : Names} {start : Nat} {f : String} {parameters : List String} {body : Block}
      {ds : List Declaration} {is rest : List Instruction} :
      defs f = some ⟨parameters, body, n.enter parameters⟩ → entries f = some (start + 1) →
      body.Scoped functions (n.enter parameters) →
      is = withInt .jump (start + 1 +
          (Definition.code entries ⟨parameters, body, n.enter parameters⟩ (start + 1)).length) ::
        Definition.code entries ⟨parameters, body, n.enter parameters⟩ (start + 1) →
      Listed functions entries defs n (start + is.length) ds rest →
      Listed functions entries defs n start (.define f parameters body :: ds) (is ++ rest)

theorem subset_functionsBehind (functions : List String) (ds : List Declaration) :
    functions ⊆ functionsBehind functions ds := by
  induction ds generalizing functions with
  | nil => exact List.Subset.refl functions
  | cons d ds ih => exact List.Subset.trans (d.subset_functions functions) (ih _)

theorem listed_of_scoped {functions : List String} {n : Names} {ds : List Declaration}
    (entries : Entries) (defs : Definitions) (start : Nat) (h : DeclarationsScoped functions n ds) :
    Listed (functionsBehind functions ds) (entriesBehind entries n start ds)
      (definitionsBehind defs n ds) n start ds (declarationsCode entries n start ds) := by
  induction ds generalizing functions entries defs n start with
  | nil => exact .nil
  | cons d ds ih =>
    rw [DeclarationsScoped] at h
    have hrest := ih (d.entries entries start) (d.definitions defs n)
      (start + (d.code entries n start).length) h.2
    cases d with
    | assign x e => exact .assign h.1.2 rfl hrest
    | define f parameters body =>
      have hf : f ∈ functions ++ [f] := by simp
      have hentry := entriesBehind_of_mem h.2 hf
        ((Declaration.define f parameters body).entries entries start)
        (start + ((Declaration.define f parameters body).code entries n start).length)
      have hdef := definitionsBehind_of_mem h.2 hf
        ((Declaration.define f parameters body).definitions defs n)
      have hbody : ∀ first, body.code ((Declaration.define f parameters body).entries entries start)
          (n.enter parameters) first = body.code (entriesBehind entries n start
            (.define f parameters body :: ds)) (n.enter parameters) first := by
        intro first
        refine Block.code_congr ?_ h.1.2
        intro g hg
        exact (entriesBehind_of_mem h.2 hg _ _).symm
      refine .define ?_ ?_ (h.1.2.mono (subset_functionsBehind ..)) ?_ hrest
      · rw [definitionsBehind, hdef]
        simp [Declaration.definitions]
      · rw [entriesBehind, hentry]
        simp [Declaration.entries]
      · have hbegin : start + 1 + 1 + parameters.length = start + 2 + parameters.length := by omega
        have hlength : (parametersCode (n.enter parameters) parameters).length =
            parameters.length := by
          simp [parametersCode]
        simp only [Declaration.code, Definition.code, hbody, hbegin, hlength, List.length_cons,
          List.length_append, List.length_nil, List.cons_append]
        congr 2
        omega

/-- The code of the declarations of a program, with entry addresses that are the same throughout. -/
theorem Source.listed {source : Source} (h : source.Scoped) :
    Listed (functionsBehind [] source.declarations) source.entries source.definitions {} 1
      source.declarations (declarationsCode noEntries {} 1 source.declarations) :=
  listed_of_scoped noEntries noDefinitions 1 h.1

end StackPrimer.Grammar

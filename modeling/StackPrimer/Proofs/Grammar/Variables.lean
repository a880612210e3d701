import StackPrimer.Proofs.Grammar.Code
import StackPrimer.Proofs.Grammar.Front

/-!
# Declarations of variables as statements

A declaration of a variable is written like an assignment. If its name is new, it also means the same:
a cell is reserved, and the value is stored there. What cannot be said with a statement is that a name
gets one more cell.

Results:
* `Source.same_of_assignments`: moving declarations of new variables from the end of the declarations
  to the front of the statements changes neither the code nor the names.
-/

namespace StackPrimer.Grammar

open Compilation (Place)

/-- Names with the expressions that they are set to. -/
abbrev Settings := List (String × Expression)

namespace Settings

/-- Declared, one after the other. -/
def declarations (xs : Settings) : List Declaration := xs.map fun (x, e) => .assign x e

/-- Assigned, one after the other. -/
def statements : Settings → Block
  | [] => .nil
  | (x, e) :: xs => .cons (.assign x e) (statements xs)

/-- The terminals of either. -/
def terminals (xs : Settings) : List Terminal :=
  xs.flatMap fun (x, e) => (Declaration.assign x e).terminals

/-- None of the names is bound where it is set. -/
def AllNew (n : Names) : Settings → Prop
  | [] => True
  | (x, _) :: xs => n.binds x = false ∧ AllNew (n.bind x) xs

/-! ## Readings -/

theorem declarations_reading (xs : Settings) (behind : List Terminal) :
    DeclarationsReading xs.declarations xs.terminals behind := by
  induction xs with
  | nil => exact .nil
  | cons p xs ih => exact .cons (.assign p.1 p.2 _) ih

theorem statements_reading (xs : Settings) (k : Nat) :
    xs.statements.Reading .topLevel (indents k ++ xs.terminals) [.mark .finish] := by
  have hnone (j : Nat) : Block.nil.Reading .topLevel (indents j) [.mark .finish] :=
    .nil (by simp) fun _ => rfl
  induction xs generalizing k with
  | nil => simpa [terminals, statements] using hnone k
  | cons p xs ih =>
    change (Block.cons (.assign p.1 p.2) (statements xs)).Reading .topLevel
      (indents k ++ ((Statement.assign p.1 p.2).terminals ++ terminals xs)) _
    rw [← List.append_assoc]
    exact .cons (by simp) (.assign p.1 p.2 _) (ih 0)

/-! ## Names and code -/

@[simp] theorem functionsBehind_declarations (xs : Settings) (functions : List String) :
    functionsBehind functions xs.declarations = functions := by
  induction xs with
  | nil => rfl
  | cons p xs ih => exact ih

theorem entriesBehind_declarations (xs : Settings) (entries : Entries) (n : Names) (start : Nat) :
    entriesBehind entries n start xs.declarations = entries := by
  induction xs generalizing n start with
  | nil => rfl
  | cons p xs ih => exact ih ..

theorem names_statements (xs : Settings) (n : Names) :
    xs.statements.names n = namesBehind n xs.declarations := by
  induction xs generalizing n with
  | nil => rfl
  | cons p xs ih => exact ih _

theorem scoped_statements {xs : Settings} {functions : List String} {n : Names}
    (h : DeclarationsScoped functions n xs.declarations) : xs.statements.Scoped functions n := by
  induction xs generalizing n with
  | nil => trivial
  | cons p xs ih => exact ⟨h.1.2, ih h.2⟩

/-- New variables have the same code either way. -/
theorem code_statements {xs : Settings} {n : Names} (h : AllNew n xs) (entries : Entries)
    (start : Nat) : xs.statements.code entries n start =
      declarationsCode entries n start xs.declarations := by
  induction xs generalizing n start with
  | nil => rfl
  | cons p xs ih =>
    have hcode : (Statement.assign p.1 p.2).code entries n start =
        (Declaration.assign p.1 p.2).code entries n start := by
      simp [Statement.code, Declaration.code, Names.reserve, h.1]
    have hrest := ih h.2 (start + ((Declaration.assign p.1 p.2).code entries n start).length)
    change (Statement.assign p.1 p.2).code entries n start ++ _ =
      (Declaration.assign p.1 p.2).code entries n start ++ _
    rw [hcode]
    exact congrArg _ hrest

end Settings

/-! ## Declarations in two parts -/

theorem declarationsCode_append (entries : Entries) (n : Names) (start : Nat)
    (ds es : List Declaration) : declarationsCode entries n start (ds ++ es) =
      declarationsCode entries n start ds ++
        declarationsCode (entriesBehind entries n start ds) (namesBehind n ds)
          (start + (declarationsCode entries n start ds).length) es := by
  induction ds generalizing entries n start with
  | nil => rfl
  | cons d ds ih =>
    simp only [List.cons_append, declarationsCode, ih, List.append_assoc, List.length_append,
      Nat.add_assoc]
    rfl

theorem entriesBehind_append (entries : Entries) (n : Names) (start : Nat)
    (ds es : List Declaration) : entriesBehind entries n start (ds ++ es) =
      entriesBehind (entriesBehind entries n start ds) (namesBehind n ds)
        (start + (declarationsCode entries n start ds).length) es := by
  induction ds generalizing entries n start with
  | nil => rfl
  | cons d ds ih =>
    simp only [List.cons_append, entriesBehind, ih, declarationsCode, List.length_append,
      Nat.add_assoc]
    rfl

theorem DeclarationsReading.append {ds es : List Declaration} {us vs behind : List Terminal}
    (h : DeclarationsReading ds us (vs ++ behind)) (h' : DeclarationsReading es vs behind) :
    DeclarationsReading (ds ++ es) (us ++ vs) behind := by
  generalize hafter : vs ++ behind = after at h
  induction h with
  | nil => exact h'
  | @cons d ds ts us after hd hds ih =>
    subst hafter
    rw [List.append_assoc]
    exact .cons (by simpa using hd) (ih rfl)

theorem declarationsScoped_append {functions : List String} {n : Names} {ds es : List Declaration} :
    DeclarationsScoped functions n (ds ++ es) ↔ DeclarationsScoped functions n ds ∧
      DeclarationsScoped (functionsBehind functions ds) (namesBehind n ds) es := by
  induction ds generalizing functions n with
  | nil => simp [DeclarationsScoped, functionsBehind, namesBehind]
  | cons d ds ih =>
    simp only [List.cons_append, DeclarationsScoped, ih, and_assoc]
    rfl

/-! ## Programs -/

/-- The programs have the same code and the same names. -/
structure Source.Same (source source' : Source) : Prop where
  code : source'.code = source.code
  names : source'.statements.names (namesBehind {} source'.declarations) =
    source.statements.names (namesBehind {} source.declarations)
  functionNames : functionsBehind [] source'.declarations = functionsBehind [] source.declarations
  entries : entriesBehind noEntries {} 1 source'.declarations =
    entriesBehind noEntries {} 1 source.declarations

theorem Source.Same.refl (source : Source) : source.Same source := ⟨rfl, rfl, rfl, rfl⟩

theorem Source.Same.symm {source source' : Source} (h : source.Same source') :
    source'.Same source :=
  ⟨h.code.symm, h.names.symm, h.functionNames.symm, h.entries.symm⟩

/-- New variables may be declared at the end of the declarations or set in front of the statements. -/
theorem Source.same_of_assignments {ds : List Declaration} {xs : Settings}
    (h : Settings.AllNew (namesBehind {} ds) xs) :
    Source.Same ⟨ds ++ xs.declarations, .nil⟩ ⟨ds, xs.statements⟩ where
  code := by
    simp only [Source.code, declarationsCode_append, Settings.code_statements h, Block.code,
      List.append_nil, List.append_assoc, List.cons_append]
  names := by
    rw [Settings.names_statements]
    simp [Block.names, namesBehind]
  functionNames := by
    rw [functionsBehind, functionsBehind, List.foldl_append]
    exact (Settings.functionsBehind_declarations ..).symm
  entries := by rw [entriesBehind_append, Settings.entriesBehind_declarations]

/-- Either way every name denotes what it is used for. -/
theorem Source.Scoped.of_declarations {ds : List Declaration} {xs : Settings}
    (h : Source.Scoped ⟨ds ++ xs.declarations, .nil⟩) : Source.Scoped ⟨ds, xs.statements⟩ := by
  obtain ⟨hds, hxs⟩ := declarationsScoped_append.mp h.1
  exact ⟨hds, Settings.scoped_statements hxs⟩

/-- A declaration of a variable ends with no block. -/
theorem Settings.leavesOpen_declarations {ds : List Declaration} (xs : Settings)
    (h : ds.getLast?.any Declaration.leavesOpen = false) :
    (ds ++ xs.declarations).getLast?.any Declaration.leavesOpen = false := by
  rw [List.getLast?_append]
  cases hlast : xs.declarations.getLast? with
  | none => simpa using h
  | some d =>
    obtain ⟨p, -, rfl⟩ := List.mem_map.mp (List.mem_of_getLast? hlast)
    rfl

/-- Neither do assignments. -/
theorem Settings.leavesOpen_statements (xs : Settings) : xs.statements.leavesOpen = false := by
  induction xs with
  | nil => rfl
  | cons p xs ih =>
    cases xs with
    | nil => rfl
    | cons q xs => exact ih

end StackPrimer.Grammar

import Mathlib.Data.List.Chain
import Mathlib.Data.List.Dedup
import Mathlib.Data.List.Infix
import StackPrimer.Proofs.Grammar.Linking

/-!
# What is around an instruction

Two things are said of the place that an instruction of the code has in the text. The names bound at
that place are a list beside the code, one entry for each instruction. The functions are stretches
of the code, from the instruction that opens a frame to the one that closes it.

Results:
* `Statement.rising`, `rising_declarations`, `Source.rising`: what is bound around an instruction is
  bound around all that follow.
* `Block.names_eq`: the names behind statements are those in front and those assigned.
* `Names.length_inner`: the variables of a function are counted by its parameters and the names
  that it assigns, each one once.
-/

namespace StackPrimer.Grammar

/-! ## Names -/

mutual

/-- The names bound around each instruction of a statement. The name that an assignment binds is
bound from the cell that is reserved for it on. -/
def Statement.surroundings (n : Names) : Statement → List Names
  | .print e => List.replicate ((e.code n).length + 1) n
  | .assign x e =>
    List.replicate ((n.reserve x).length + (e.code (n.bind x)).length + 1) (n.bind x)
  | .call _ arguments => List.replicate ((argumentsCode n arguments).length + 2) n
  | .choice c yes => List.replicate ((c.code n).length + 1) n ++ yes.surroundings n
  | .alternative c yes no =>
    List.replicate ((c.code n).length + 1) n ++ yes.surroundings n ++
      yes.names n :: no.surroundings (yes.names n)
  | .loop c body =>
    List.replicate ((c.code n).length + 1) n ++ body.surroundings n ++ [body.names n]

/-- The same for statements one after the other. -/
def Block.surroundings (n : Names) : Block → List Names
  | .nil => []
  | .cons s rest => s.surroundings n ++ rest.surroundings (s.names n)

end

/-- The same for a declaration. The jump around a function stands outside of it. -/
def Declaration.surroundings (n : Names) : Declaration → List Names
  | assign x e => List.replicate ((e.code (n.bind x)).length + 2) (n.bind x)
  | define _ parameters body =>
    let inside := n.enter parameters
    n :: List.replicate (parameters.length + 1) inside ++ body.surroundings inside ++
      [body.names inside]

/-- The same for declarations one after the other. -/
def declarationsSurroundings (n : Names) : List Declaration → List Names
  | [] => []
  | d :: ds => d.surroundings n ++ declarationsSurroundings (d.names n) ds

/-- The names bound at the end of a program. -/
def Source.finalNames (source : Source) : Names := source.statements.names source.names

/-- The names bound around each instruction of a program. -/
def Source.surroundings (source : Source) : List Names :=
  {} :: declarationsSurroundings {} source.declarations ++
    source.statements.surroundings source.names ++ [source.finalNames]

/-! ## Functions -/

mutual

/-- The names that a statement assigns, in the order of the text. -/
def Statement.assigned : Statement → List String
  | .print _ => []
  | .assign x _ => [x]
  | .call .. => []
  | .choice _ yes => yes.assigned
  | .alternative _ yes no => yes.assigned ++ no.assigned
  | .loop _ body => body.assigned

/-- The same for statements one after the other. -/
def Block.assigned : Block → List String
  | .nil => []
  | .cons s rest => s.assigned ++ rest.assigned

end

/-- A function in the code of a program. -/
structure Region where
  name : String
  /-- The address of the instruction that opens the frame. -/
  entry : Nat
  /-- The address of the instruction that closes the frame. -/
  leave : Nat
  /-- How many variables there are: parameters and names assigned, each one once. -/
  variableCount : Nat
  entry_lt_leave : entry < leave
  deriving DecidableEq

/-- The address is one of the function. -/
def Region.Contains (r : Region) (a : Nat) : Prop := r.entry ≤ a ∧ a ≤ r.leave

instance (r : Region) (a : Nat) : Decidable (r.Contains a) :=
  inferInstanceAs (Decidable (_ ∧ _))

/-- The functions in the code of a declaration. -/
def Declaration.regions (entries : Entries) (n : Names) (start : Nat) (d : Declaration) :
    List Region :=
  match d with
  | assign .. => []
  | define f parameters body =>
    let first := start + 2 + parameters.length
    let block := body.code (d.entries entries start) (n.enter parameters) first
    [⟨f, start + 1, first + block.length, (parameters ++ body.assigned).dedup.length, by omega⟩]

/-- The functions in the code of declarations one after the other. -/
def declarationsRegions (entries : Entries) (n : Names) (start : Nat) :
    List Declaration → List Region
  | [] => []
  | d :: ds =>
    d.regions entries n start ++ declarationsRegions (d.entries entries start) (d.names n)
      (start + (d.code entries n start).length) ds

/-- The functions in the code of a program. -/
def Source.regions (source : Source) : List Region :=
  declarationsRegions noEntries {} 1 source.declarations

/-! ## Names only come to be -/

/-- Each of these, from the first on to the last, is related to the next. -/
def Rising {α : Type} (R : α → α → Prop) (first : α) (as : List α) (last : α) : Prop :=
  (first :: as ++ [last]).IsChain R

namespace Rising

variable {α : Type} {R : α → α → Prop} {a b c : α} {as bs : List α}

theorem nil (h : R a b) : Rising R a [] b := by simpa [Rising] using h

theorem append [IsTrans α R] (h : Rising R a as b) (h' : Rising R b bs c) :
    Rising R a (as ++ bs) c := by
  have hboth : (a :: as ++ b :: (bs ++ [c])).IsChain R := List.isChain_split.mpr ⟨h, h'⟩
  refine hboth.sublist ?_
  simp

theorem cons (h : R a b) (h' : Rising R b bs c) : Rising R a (b :: bs) c :=
  List.IsChain.cons_cons h h'

theorem replicate (h : R a a) (k : Nat) : Rising R a (List.replicate k a) a := by
  induction k with
  | zero => exact nil h
  | succ k ih => exact cons h ih

/-- Each one is related to the last. -/
theorem behind [IsTrans α R] (h : Rising R a as b) {x : α} (hx : x ∈ as) : R x b := by
  have hpairs := List.isChain_iff_pairwise.mp h
  exact (List.pairwise_append.mp hpairs).2.2 x (List.mem_cons_of_mem a hx) b (by simp)

/-- Each one is related to all that follow. -/
theorem pairwise [IsTrans α R] (h : Rising R a as b) : as.Pairwise R := by
  have hpairs := List.isChain_iff_pairwise.mp h
  exact (List.pairwise_append.mp hpairs).1.of_cons

theorem map {β : Type} {S : β → β → Prop} (f : α → β) (hf : ∀ x y, R x y → S (f x) (f y))
    (h : Rising R a as b) : Rising S (f a) (as.map f) (f b) := by
  have hmap := List.isChain_map_of_isChain f hf h
  simpa [Rising] using hmap

end Rising

instance : IsTrans Names Names.Le := ⟨fun _ _ _ => Names.Le.trans⟩

mutual

/-- Around the instructions of a statement, names only come to be. -/
theorem Statement.rising (n : Names) :
    ∀ s : Statement, Rising Names.Le n (s.surroundings n) (s.names n)
  | .print _ => .replicate (.refl n) _
  | .assign x _ => .cons (Names.le_bind n x) (.replicate (Names.Le.refl _) _)
  | .call .. => .replicate (.refl n) _
  | .choice _ yes => (Rising.replicate (Names.Le.refl n) _).append (yes.rising n)
  | .alternative _ yes no =>
    ((Rising.replicate (Names.Le.refl n) _).append (yes.rising n)).append
      (.cons (.refl _) (no.rising (yes.names n)))
  | .loop _ body =>
    ((Rising.replicate (Names.Le.refl n) _).append (body.rising n)).append
      (.cons (.refl _) (.nil (.refl _)))

/-- The same for statements one after the other. -/
theorem Block.rising (n : Names) :
    ∀ b : Block, Rising Names.Le n (b.surroundings n) (b.names n)
  | .nil => .nil (.refl n)
  | .cons s rest => (s.rising n).append (rest.rising (s.names n))

end

/-- The variables of a program, as a function of names. -/
abbrev RisingGlobals (n : Names) (ns : List Names) (n' : Names) : Prop :=
  Rising (· <+: ·) n.globals (ns.map Names.globals) n'.globals

theorem Declaration.rising (n : Names) (d : Declaration) :
    RisingGlobals n (d.surroundings n) (d.names n) := by
  cases d with
  | assign x e =>
    have hrising : Rising Names.Le n (List.replicate ((e.code (n.bind x)).length + 2) (n.bind x))
        (n.bind x) := .cons (Names.le_bind n x) (.replicate (Names.Le.refl _) _)
    exact hrising.map Names.globals fun _ _ => Names.Le.globals
  | define f parameters body =>
    have henter := Names.globals_enter n parameters
    have hleave : (body.names (n.enter parameters)).globals = n.globals :=
      (body.globals_names (Names.home_enter n parameters)).trans henter
    have hbody : Rising Names.Le (n.enter parameters)
        (List.replicate (parameters.length + 1) (n.enter parameters) ++
          body.surroundings (n.enter parameters) ++ [body.names (n.enter parameters)])
        (body.names (n.enter parameters)) :=
      ((Rising.replicate (Names.Le.refl _) _).append (body.rising _)).append
        (.cons (.refl _) (.nil (.refl _)))
    have hglobals := hbody.map Names.globals fun _ _ => Names.Le.globals
    rw [henter, hleave] at hglobals
    exact .cons List.prefix_rfl (by simpa [Declaration.names] using hglobals)

theorem rising_declarations (n : Names) (ds : List Declaration) :
    RisingGlobals n (declarationsSurroundings n ds) (namesBehind n ds) := by
  induction ds generalizing n with
  | nil => exact .nil List.prefix_rfl
  | cons d ds ih =>
    rw [RisingGlobals, declarationsSurroundings, List.map_append]
    exact (d.rising n).append (ih (d.names n))

/-- Around the instructions of a program, variables of the program only come to be. -/
theorem Source.rising (source : Source) :
    RisingGlobals {} source.surroundings source.finalNames := by
  have hds := rising_declarations {} source.declarations
  have hb := (source.statements.rising source.names).map Names.globals fun _ _ => Names.Le.globals
  have hall := (hds.append hb).append (.cons List.prefix_rfl (.nil List.prefix_rfl))
  refine .cons List.prefix_rfl ?_
  simpa [Source.finalNames] using hall

/-! ## Counting the variables of a function -/

mutual

/-- The names behind a statement are those in front and those that it assigns. -/
theorem Statement.names_eq (n : Names) : ∀ s : Statement, s.names n = s.assigned.foldl Names.bind n
  | .print _ => rfl
  | .assign _ _ => rfl
  | .call .. => rfl
  | .choice _ yes => yes.names_eq n
  | .alternative _ yes no => by
    rw [Statement.names, Statement.assigned, List.foldl_append, ← yes.names_eq, ← no.names_eq]
  | .loop _ body => body.names_eq n

/-- The same for statements one after the other. -/
theorem Block.names_eq (n : Names) : ∀ b : Block, b.names n = b.assigned.foldl Names.bind n
  | .nil => rfl
  | .cons s rest => by
    rw [Block.names, Block.assigned, List.foldl_append, ← s.names_eq, ← rest.names_eq]

end

namespace Names

theorem mem_extend_iff {names : List String} {x y : String} :
    y ∈ extend names x ↔ y ∈ names ∨ y = x := by
  unfold extend
  split
  · rename_i hx
    constructor
    · exact .inl
    · rintro (hy | rfl)
      · exact hy
      · exact hx
  · simp

theorem mem_foldl_extend_iff {names xs : List String} {y : String} :
    y ∈ xs.foldl extend names ↔ y ∈ names ∨ y ∈ xs := by
  induction xs generalizing names with
  | nil => simp
  | cons x xs ih => simp [ih, mem_extend_iff, or_assoc]

theorem nodup_foldl_extend {names : List String} (h : names.Nodup) (xs : List String) :
    (xs.foldl extend names).Nodup := by
  induction xs generalizing names with
  | nil => exact h
  | cons x xs ih => exact ih (nodup_extend h x)

/-- Extending adds each name once. -/
theorem length_foldl_extend (xs : List String) :
    (xs.foldl extend []).length = xs.dedup.length := by
  have hperm : List.Perm (xs.foldl extend []) xs.dedup := by
    refine (List.perm_ext_iff_of_nodup (nodup_foldl_extend List.nodup_nil xs) xs.nodup_dedup).mpr ?_
    intro y
    simp [mem_foldl_extend_iff]
  exact hperm.length_eq

theorem inner_foldl_bind (globals locals xs : List String) :
    (xs.foldl bind ⟨globals, some locals⟩).inner = xs.foldl extend locals := by
  induction xs generalizing locals with
  | nil => rfl
  | cons x xs ih => exact ih _

/-- The variables of a function are its parameters and the names that it assigns, each one once. -/
theorem length_inner (n : Names) (parameters : List String) (body : Block) :
    (body.names (n.enter parameters)).inner.length =
      (parameters ++ body.assigned).dedup.length := by
  rw [body.names_eq, enter, ← List.foldl_append, inner_foldl_bind, length_foldl_extend]

end Names

end StackPrimer.Grammar

import StackPrimer.Proofs.Confinement.Rule
import StackPrimer.Proofs.OnePass.Program

/-!
# The code of programs is closed

What is between functions is tidy, and so is what is inside of them. What is added are the
instructions around each function, and those at both ends of the program.

Results:
* `Defines.orderly`: the code of a function keeps to the rules, if other functions keep away from
  it.
* `declarations_orderly`, `Source.orderly`: so does the code of declarations, and that of a program.
* `compileTokens_closed`: what is compiled is closed, for every stream of tokens that is accepted.
-/

namespace StackPrimer

namespace Confinement

open Grammar
open Simulation (CodeAt)

/-! ## Declarations -/

section Declarations

variable {regions before : List Region} {globals functions : List String} {last start : Nat}
  {n : Names} {entries : Entries}

/-- The code of a function, with the jump around it, and where it is. -/
structure Defines (entries : Entries) (n : Names) (start : Nat) (f : String)
    (parameters : List String) (body : Block) (r : Region) : Prop where
  regions : (Declaration.define f parameters body).regions entries n start = [r]
  entry : r.entry = start + 1
  leave : r.leave = start + 2 + parameters.length +
    (body.code ((Declaration.define f parameters body).entries entries start) (n.enter parameters)
      (start + 2 + parameters.length)).length
  variableCount : r.variableCount = (body.names (n.enter parameters)).inner.length
  code : (Declaration.define f parameters body).code entries n start =
    withInt .jump (r.leave + 1) :: plain .enter ::
      (parametersCode (n.enter parameters) parameters ++
        body.code ((Declaration.define f parameters body).entries entries start)
          (n.enter parameters) (start + 2 + parameters.length) ++ [plain .leave])

theorem length_parametersCode (n : Names) (parameters : List String) :
    (parametersCode n parameters).length = parameters.length := by simp [parametersCode]

theorem exists_defines (entries : Entries) (n : Names) (start : Nat) (f : String)
    (parameters : List String) (body : Block) :
    ∃ r, Defines entries n start f parameters body r := by
  refine ⟨_, rfl, rfl, rfl, (Names.length_inner n parameters body).symm, ?_⟩
  simp [Declaration.code, length_parametersCode]

/-- The code of a function ends with the instruction that closes the frame. -/
theorem Defines.length {f : String} {parameters : List String} {body : Block} {r : Region}
    (h : Defines entries n start f parameters body r) :
    start + ((Declaration.define f parameters body).code entries n start).length = r.leave + 1 := by
  rw [h.code, h.leave]
  simp [length_parametersCode]
  omega

/-- The parameters are stored into variables of the function. -/
theorem stores_tidy {callable : Nat → Prop} {low high : Nat} (parameters : List String) :
    Tidy callable low high start (List.replicate parameters.length (n.enter parameters))
      (parametersCode (n.enter parameters) parameters) := by
  refine .replicate (length_parametersCode ..).symm ?_
  intro i hi
  obtain ⟨x, hx, rfl⟩ := List.mem_map.mp hi
  refine Satisfies.of_iff.mpr ⟨rfl, Names.home_enter n parameters, x, ?_, rfl⟩
  exact Names.mem_enter (List.mem_reverse.mp hx)

/-- The functions that may be called are some of these. -/
def Located (functions : List String) (entries : Entries) (regions : List Region) : Prop :=
  ∀ f ∈ functions, ∃ r ∈ regions, entries f = some r.entry

theorem Located.mono (h : Located functions entries before) (hsub : before ⊆ regions) :
    Located functions entries regions := by
  intro f hf
  obtain ⟨r, hr, hentry⟩ := h f hf
  exact ⟨r, hsub hr, hentry⟩

/-- Behind a declaration its function may be called too. -/
theorem Located.declare {d : Declaration} (h : Located functions entries before)
    (hd : d.Scoped functions n) :
    Located (d.functions functions) (d.entries entries start)
      (before ++ d.regions entries n start) := by
  cases d with
  | assign x e => exact h.mono (List.subset_append_left ..)
  | define f parameters body =>
    obtain ⟨r, hr⟩ := exists_defines entries n start f parameters body
    rw [hr.regions]
    intro g hg
    by_cases hgf : g = f
    · exact ⟨r, by simp, by simp [Declaration.entries, hgf, hr.entry]⟩
    · have hmem : g ∈ functions := by simpa [Declaration.functions, hgf] using hg
      obtain ⟨r', hr', hentry⟩ := h g hmem
      exact ⟨r', List.mem_append_left _ hr', by simp [Declaration.entries, hgf, hentry]⟩

/-- The names around the instructions between those that open and close the frame of a function. -/
def innerSurroundings (n : Names) (parameters : List String) (body : Block) : List Names :=
  List.replicate parameters.length (n.enter parameters) ++ body.surroundings (n.enter parameters)

theorem surroundings_define (n : Names) (f : String) (parameters : List String) (body : Block) :
    (Declaration.define f parameters body).surroundings n =
      n :: n.enter parameters :: (innerSurroundings n parameters body ++
        [body.names (n.enter parameters)]) := by
  simp [Declaration.surroundings, innerSurroundings, List.replicate_succ]

section Function

variable {f : String} {parameters : List String} {body : Block} {r : Region}

/-- Inside of a function the names are those of the function, of which there are no more than at its
end. -/
theorem Defines.suits (h : Defines entries n start f parameters body r) :
    ∀ m ∈ innerSurroundings n parameters body, Suits (some r) m := by
  have hrising : Rising Names.Le (n.enter parameters) (innerSurroundings n parameters body)
      (body.names (n.enter parameters)) :=
    (Rising.replicate (Names.Le.refl _) _).append (body.rising _)
  intro m hm
  have hle := hrising.behind hm
  constructor
  · rw [hle.home, ← (body.le_names _).home, Names.home_enter]
  · rw [h.variableCount]
    exact hle.inner.length_le

/-- Inside of a function the code is tidy. -/
theorem Defines.tidy (h : Defines entries n start f parameters body r)
    (hbody : body.Scoped functions (n.enter parameters))
    (hcalls : Located functions ((Declaration.define f parameters body).entries entries start)
      regions) :
    Tidy (fun entry => ∃ r ∈ regions, entry = r.entry) (start + 2) r.leave (start + 2)
      (innerSurroundings n parameters body)
      (parametersCode (n.enter parameters) parameters ++
        body.code ((Declaration.define f parameters body).entries entries start)
          (n.enter parameters) (start + 2 + parameters.length)) := by
  have hleave := h.leave
  refine (stores_tidy parameters).append ?_
  rw [length_parametersCode]
  refine Block.tidy ?_ hbody (by omega) (by omega)
  intro g hg
  obtain ⟨r', hr', hentry⟩ := hcalls g hg
  exact ⟨r'.entry, hentry, r', hr', rfl⟩

/-- The jump around a function leads out of it, and not into another. -/
theorem Defines.around (h : Defines entries n start f parameters body r)
    (havoids : ∀ r' ∈ regions, r' = r ∨ Avoids start (r.leave + 1) r')
    (hlast : r.leave + 1 ≤ last) :
    Rule regions globals last start n .jump (some (.int (r.leave + 1 : Nat))) := by
  have hentry := h.entry
  have hleave := h.leave
  refine ⟨_, rfl, by omega, hlast, fun r' hr' => ?_⟩
  have hlt := r'.entry_lt_leave
  rcases havoids r' hr' with rfl | havoid
  · unfold Region.Contains
    omega
  · unfold Avoids at havoid
    unfold Region.Contains
    omega

/-- The code of a function, with the jump around it, among those of other functions. -/
theorem Defines.orderly (h : Defines entries n start f parameters body r)
    (hbody : body.Scoped functions (n.enter parameters))
    (hcalls : Located functions ((Declaration.define f parameters body).entries entries start)
      regions)
    (hr : r ∈ regions) (havoids : ∀ r' ∈ regions, r' = r ∨ Avoids start (r.leave + 1) r')
    (hlast : r.leave + 1 ≤ last)
    (hglobals : ∀ m ∈ (Declaration.define f parameters body).surroundings n,
      m.globals <+: globals) :
    Orderly regions globals last start ((Declaration.define f parameters body).surroundings n)
      ((Declaration.define f parameters body).code entries n start) := by
  have hentry := h.entry
  have hleave := h.leave
  rw [surroundings_define] at hglobals ⊢
  set inner := parametersCode (n.enter parameters) parameters ++
    body.code ((Declaration.define f parameters body).entries entries start) (n.enter parameters)
      (start + 2 + parameters.length) with hinner
  have hend : start + 2 + inner.length = r.leave := by
    rw [hinner, List.length_append, length_parametersCode, hleave, ← Nat.add_assoc]
  have hlies : Lies regions (some r) (start + 2) r.leave := by
    refine lies_inside (fun r' hr' => ?_) (by omega) (Nat.le_refl _)
    refine (havoids r' hr').imp_right fun havoid => ?_
    unfold Avoids at havoid ⊢
    omega
  have hinside : Orderly regions globals last (start + 2) (innerSurroundings n parameters body)
      inner := by
    refine (h.tidy hbody hcalls).orderly hlies ?_ (by omega) (by omega) (fun _ => id)
      (Nat.le_refl _) (Nat.le_of_eq hend) h.suits fun m hm => hglobals m (by simp [hm])
    rintro r' ⟨⟩
    exact hr
  have hclose : Orderly regions globals last (start + 2 + inner.length)
      [body.names (n.enter parameters)] [plain .leave] := .cons rfl ⟨rfl, r, hr, hend⟩ .nil
  rw [h.code]
  exact .cons rfl (h.around havoids hlast)
    (.cons rfl ⟨rfl, r, hr, hentry.symm⟩ (hinside.append hclose))

end Function

/-- The functions in the code of a declaration are within it. -/
theorem Declaration.regions_bounds {d : Declaration} {r : Region}
    (hr : r ∈ d.regions entries n start) :
    r.entry = start + 1 ∧ r.leave + 1 = start + (d.code entries n start).length := by
  cases d with
  | assign x e => cases hr
  | define f parameters body =>
    obtain ⟨r', h⟩ := exists_defines entries n start f parameters body
    rw [h.regions, List.mem_singleton] at hr
    subst hr
    exact ⟨h.entry, h.length.symm⟩

/-- The code of a declaration among those of other functions. -/
theorem Declaration.orderly {d : Declaration} (hd : d.Scoped functions n)
    (hhome : n.home = .global) (hstart : 0 < start)
    (hcalls : Located (d.functions functions) (d.entries entries start) regions)
    (hmem : d.regions entries n start ⊆ regions)
    (havoids : ∀ r ∈ regions, r ∈ d.regions entries n start ∨
      Avoids start (start + (d.code entries n start).length) r)
    (hlast : start + (d.code entries n start).length ≤ last)
    (hglobals : ∀ m ∈ d.surroundings n, m.globals <+: globals) :
    Orderly regions globals last start (d.surroundings n) (d.code entries n start) := by
  cases d with
  | assign x e =>
    have htidy : Tidy (fun _ => False) start
        (start + ((Declaration.assign x e).code entries n start).length) start
        ((Declaration.assign x e).surroundings n)
        ((Declaration.assign x e).code entries n start) := by
      change Tidy _ _ _ _ (List.replicate _ _)
        ([withInt .allocate 1] ++ e.code (n.bind x) ++ [(n.bind x).store x])
      exact assign_tidy hd.2 (by simp) (by simp)
    have hlies : Lies regions none start
        (start + ((Declaration.assign x e).code entries n start).length) := by
      refine lies_outside fun r hr => ?_
      exact (havoids r hr).resolve_left (by simp [Declaration.regions])
    refine htidy.orderly hlies (by simp) hstart hlast (fun _ => False.elim) (Nat.le_refl _)
      (Nat.le_refl _) ?_ hglobals
    intro m hm
    rw [List.eq_of_mem_replicate hm]
    simpa [Suits] using hhome
  | define f parameters body =>
    obtain ⟨r, h⟩ := exists_defines entries n start f parameters body
    rw [h.regions] at hmem havoids
    rw [h.length] at hlast havoids
    refine h.orderly hd.2 hcalls (hmem (by simp)) ?_ hlast hglobals
    simpa using havoids

/-- The functions in the code of declarations are within it. -/
theorem declarationsRegions_bounds {ds : List Declaration} {r : Region}
    (hr : r ∈ declarationsRegions entries n start ds) :
    start < r.entry ∧ r.leave < start + (declarationsCode entries n start ds).length := by
  induction ds generalizing entries n start with
  | nil => cases hr
  | cons d ds ih =>
    rw [declarationsCode, List.length_append]
    rcases List.mem_append.mp hr with hr | hr
    · have h := Declaration.regions_bounds hr
      omega
    · have h := ih hr
      omega

/-- Between two functions there is the jump around the second. -/
theorem declarationsRegions_apart (entries : Entries) (n : Names) (start : Nat)
    (ds : List Declaration) :
    (declarationsRegions entries n start ds).Pairwise fun r r' => r.leave + 1 < r'.entry := by
  induction ds generalizing entries n start with
  | nil => exact .nil
  | cons d ds ih =>
    refine List.pairwise_append.mpr ⟨?_, ih .., ?_⟩
    · cases d <;> simp [Declaration.regions]
    · intro r hr r' hr'
      have h := Declaration.regions_bounds hr
      have h' := declarationsRegions_bounds hr'
      omega

/-- Every function is there, in the order of the declarations. -/
theorem names_declarationsRegions (functions : List String) (entries : Entries) (n : Names)
    (start : Nat) (ds : List Declaration) :
    functions ++ (declarationsRegions entries n start ds).map Region.name =
      functionsBehind functions ds := by
  induction ds generalizing functions entries n start with
  | nil => simp [declarationsRegions, functionsBehind]
  | cons d ds ih =>
    have hrest := ih (d.functions functions) (d.entries entries start) (d.names n)
      (start + (d.code entries n start).length)
    rw [functionsBehind, List.foldl_cons, ← functionsBehind, ← hrest, declarationsRegions]
    cases d <;> simp [Declaration.regions, Declaration.functions]

/-- Behind declarations every function may be called. -/
theorem Located.declarations {ds : List Declaration} (h : Located functions entries before)
    (hds : DeclarationsScoped functions n ds) :
    Located (functionsBehind functions ds) (entriesBehind entries n start ds)
      (before ++ declarationsRegions entries n start ds) := by
  induction ds generalizing functions entries n start before with
  | nil => exact h.mono (List.subset_append_left ..)
  | cons d ds ih =>
    rw [DeclarationsScoped] at hds
    rw [declarationsRegions, ← List.append_assoc]
    exact ih (h.declare hds.1) hds.2

/-- Behind a declaration new names are bound where they were in front of it. -/
theorem Declaration.home_names (h : n.home = .global) (d : Declaration) :
    (d.names n).home = .global := by
  cases d with
  | assign x e => rwa [Declaration.names, Names.home_bind]
  | define f parameters body => exact h

/-- The code of declarations, behind that of the functions declared before. -/
theorem declarations_orderly {ds : List Declaration} (hds : DeclarationsScoped functions n ds)
    (hhome : n.home = .global) (hstart : 0 < start) (hcalls : Located functions entries before)
    (hbefore : ∀ r ∈ before, r.leave < start)
    (hregions : before ++ declarationsRegions entries n start ds = regions)
    (hlast : start + (declarationsCode entries n start ds).length ≤ last)
    (hglobals : ∀ m ∈ declarationsSurroundings n ds, m.globals <+: globals) :
    Orderly regions globals last start (declarationsSurroundings n ds)
      (declarationsCode entries n start ds) := by
  induction ds generalizing functions entries n start before with
  | nil => exact .nil
  | cons d ds ih =>
    rw [DeclarationsScoped] at hds
    rw [declarationsCode, List.length_append] at hlast
    rw [declarationsSurroundings] at hglobals
    rw [declarationsRegions, ← List.append_assoc] at hregions
    have hdeclared : Located (d.functions functions) (d.entries entries start)
        (before ++ d.regions entries n start) := hcalls.declare hds.1
    set first := d.code entries n start with hfirst
    set rest := declarationsRegions (d.entries entries start) (d.names n) (start + first.length) ds
    have hd : Orderly regions globals last start (d.surroundings n) first := by
      refine Declaration.orderly hds.1 hhome hstart (hdeclared.mono ?_) ?_ ?_ ?_ ?_
      · rw [← hregions]
        exact List.subset_append_left ..
      · rw [← hregions, List.append_assoc]
        exact List.subset_append_of_subset_right _ (List.subset_append_left ..)
      · intro r hr
        rw [← hregions, List.append_assoc] at hr
        rcases List.mem_append.mp hr with hr | hr
        · exact .inr (.inl (hbefore r hr))
        · rcases List.mem_append.mp hr with hr | hr
          · exact .inl hr
          · exact .inr (.inr (declarationsRegions_bounds hr).1)
      · rw [← hfirst]
        omega
      · intro m hm
        exact hglobals m (List.mem_append_left _ hm)
    have hds' : Orderly regions globals last (start + first.length)
        (declarationsSurroundings (d.names n) ds)
        (declarationsCode (d.entries entries start) (d.names n) (start + first.length) ds) := by
      refine ih hds.2 (Declaration.home_names hhome d) (by omega) hdeclared ?_ hregions
        (by omega) ?_
      · intro r hr
        rcases List.mem_append.mp hr with hr | hr
        · have hlt := hbefore r hr
          omega
        · have h := Declaration.regions_bounds hr
          rw [← hfirst] at h
          omega
      · intro m hm
        exact hglobals m (List.mem_append_right _ hm)
    exact hd.append hds'

/-- A function is where it is said to be, behind the jump around it. -/
structure Framed (p : Program) (r : Region) : Prop where
  around : ∃ a, a + 1 = r.entry ∧ p[a]? = some (withInt .jump (r.leave + 1))
  enter : p[r.entry]? = some (plain .enter)
  leave : p[r.leave]? = some (plain .leave)

theorem Defines.framed {p : Program} {f : String} {parameters : List String} {body : Block}
    {r : Region} (h : Defines entries n start f parameters body r)
    (hp : CodeAt p start ((Declaration.define f parameters body).code entries n start)) :
    Framed p r := by
  have hleave := h.leave
  rw [h.code] at hp
  refine ⟨⟨start, h.entry.symm, hp.head⟩, ?_, ?_⟩
  · rw [h.entry]
    exact hp.tail.head
  · have hlast := hp.tail.tail.right.head
    rw [List.length_append, length_parametersCode] at hlast
    rwa [hleave, show start + 2 + parameters.length = start + 1 + 1 + parameters.length by omega,
      Nat.add_assoc]

theorem declarations_framed {p : Program} {ds : List Declaration}
    (hp : CodeAt p start (declarationsCode entries n start ds)) :
    ∀ r ∈ declarationsRegions entries n start ds, Framed p r := by
  induction ds generalizing entries n start with
  | nil => simp [declarationsRegions]
  | cons d ds ih =>
    rw [declarationsCode] at hp
    rw [declarationsRegions, List.forall_mem_append]
    refine ⟨?_, ih hp.right⟩
    cases d with
    | assign x e => simp [Declaration.regions]
    | define f parameters body =>
      obtain ⟨r, h⟩ := exists_defines entries n start f parameters body
      rw [h.regions, List.forall_mem_singleton]
      exact h.framed hp.left

end Declarations

/-! ## Programs -/

/-- The code of a program is closed. It begins with the start of the program and ends with its end.
Functions are stretches of it that lie apart, each behind a jump around it. What every instruction
refers to is there: the rules say so for the functions and the variables that there are, with the
names bound at the place of the instruction, and calls return behind themselves. -/
structure Closed (source : Grammar.Source) (p : Program) (globals : Nat) : Prop where
  begins : p[0]? = some (plain .start)
  ends : ∃ last, last + 1 = p.size ∧ p[last]? = some (plain .halt)
  /-- Every function that is declared is one of the stretches, in the order of the text. -/
  declared : source.regions.map Region.name = functionsBehind [] source.declarations
  framed : ∀ r ∈ source.regions, Framed p r
  apart : source.regions.Pairwise fun r r' => r.leave + 1 < r'.entry
  count : globals = source.finalNames.globals.length
  /-- Names are bound in the order of the text, so that what is bound at an address stays bound. -/
  bound : source.surroundings.length = p.size ∧
    (source.surroundings.map Names.globals).Pairwise (· <+: ·)
  rules : ∀ a i, p[a]? = some i → ∃ n, source.surroundings[a]? = some n ∧
    Satisfies (Rule source.regions source.finalNames.globals (p.size - 1) a n) i
  pushes : ∀ a operand, p[a]? = some (.of .pushReturn operand) → ∃ c, Calls p a c
  calls : ∀ c operand, p[c]? = some (.of .call operand) → ∃ a, Calls p a c

section Programs

variable {source : Grammar.Source}

theorem home_namesBehind {n : Names} (h : n.home = .global) (ds : List Declaration) :
    (namesBehind n ds).home = .global := by
  induction ds generalizing n with
  | nil => exact h
  | cons d ds ih => exact ih (Declaration.home_names h d)

/-- The code of a program. -/
theorem Source.orderly (hs : source.Scoped) :
    Orderly source.regions source.finalNames.globals (source.code.length - 1) 0 source.surroundings
      source.code := by
  set first := declarationsCode noEntries {} 1 source.declarations with hfirst
  set second := source.statements.code source.entries source.names (1 + first.length) with hsecond
  have hcode : source.code = plain .start :: first ++ second ++ [plain .halt] := rfl
  set last := source.code.length - 1 with hlast
  have hlength : last = 1 + first.length + second.length := by
    rw [hlast, hcode]
    simp
    omega
  have hglobals : ∀ m ∈ source.surroundings, m.globals <+: source.finalNames.globals := by
    intro m hm
    exact source.rising.behind (List.mem_map_of_mem hm)
  have hnone : Located [] noEntries [] := by simp [Located]
  have hlocated : Located (functionsBehind [] source.declarations) source.entries source.regions :=
    hnone.declarations hs.1
  have hds : Orderly source.regions source.finalNames.globals last 1
      (declarationsSurroundings {} source.declarations) first := by
    refine declarations_orderly hs.1 rfl (by omega) hnone (by simp) rfl (by rw [← hfirst]; omega) ?_
    intro m hm
    exact hglobals m (by simp [Grammar.Source.surroundings, hm])
  have hlies : Lies source.regions none (1 + first.length) last := by
    refine lies_outside fun r hr => .inl ?_
    exact (declarationsRegions_bounds hr).2
  have hb : Orderly source.regions source.finalNames.globals last (1 + first.length)
      (source.statements.surroundings source.names) second := by
    have htidy : Tidy (fun entry => ∃ r ∈ source.regions, entry = r.entry) (1 + first.length) last
        (1 + first.length) (source.statements.surroundings source.names) second := by
      refine Block.tidy ?_ hs.2 (Nat.le_refl _) (by rw [← hsecond]; omega)
      intro f hf
      obtain ⟨r, hr, hentry⟩ := hlocated f hf
      exact ⟨r.entry, hentry, r, hr, rfl⟩
    refine htidy.orderly hlies (by simp) (by omega) (Nat.le_refl _) (fun _ => id) (Nat.le_refl _)
      (by omega) ?_ ?_
    · intro m hm
      have hle := (source.statements.rising source.names).behind hm
      rw [Suits, hle.home, ← (source.statements.le_names source.names).home]
      exact home_namesBehind rfl source.declarations
    · intro m hm
      exact hglobals m (by simp [Grammar.Source.surroundings, hm])
  have hstart : Orderly source.regions source.finalNames.globals last 0
      ({} :: declarationsSurroundings {} source.declarations) (plain .start :: first) :=
    .cons rfl ⟨rfl, rfl⟩ hds
  have hmiddle : 0 + (plain .start :: first).length = 1 + first.length := by
    simp
    omega
  have hend : 0 + (plain .start :: first ++ second).length = last := by
    simp
    omega
  have hhalt : Orderly source.regions source.finalNames.globals last
      (0 + (plain .start :: first ++ second).length) [source.finalNames] [plain .halt] :=
    .cons rfl ⟨rfl, hend⟩ .nil
  rw [← hmiddle] at hb
  exact (hstart.append hb).append hhalt

end Programs

/-- The code of a tree is closed. -/
theorem closed_of_explains {source : Grammar.Source} {tokens : List Token} {p : Program}
    (h : source.Explains tokens p) : Closed source p source.finalNames.globals.length := by
  have hcode := h.code
  have horderly := Source.orderly h.wellScoped
  have hsize : source.code.length = p.size := by rw [← hcode, Array.length_toList]
  have hp : CodeAt p 0 source.code := by
    intro j i hi
    rw [Nat.zero_add, ← Array.getElem?_toList, hcode, hi]
  have hcalls : ∀ a op operand, p[a]? = some (.of op operand) → concernsCall op = true →
      ∃ b c, Calls p b c ∧ (a = b ∨ a = c) := by
    intro a op operand ha hop
    have hlt := (Array.getElem?_eq_some_iff.mp ha).1
    exact horderly.paired.exists_calls hp (Nat.zero_le a) (by omega) ha hop
  refine
    { begins := hp.left.left.head
      ends := ⟨_, ?_, hp.right.head⟩
      declared := names_declarationsRegions [] noEntries {} 1 source.declarations
      framed := declarations_framed hp.left.left.tail
      apart := declarationsRegions_apart noEntries {} 1 source.declarations
      count := rfl
      bound := ⟨horderly.along.length.trans hsize, source.rising.pairwise⟩
      rules := ?_
      pushes := ?_
      calls := ?_ }
  · rw [← hsize, Nat.zero_add]
    simp [Grammar.Source.code]
    omega
  · intro a i ha
    rw [← Array.getElem?_toList, hcode] at ha
    obtain ⟨n, hn, hrule⟩ := horderly.along.exists_names ha
    rw [Nat.zero_add, hsize] at hrule
    exact ⟨n, hn, hrule⟩
  · intro a operand ha
    obtain ⟨b, c, hbc, rfl | rfl⟩ := hcalls a _ operand ha rfl
    · exact ⟨c, hbc⟩
    · obtain ⟨entry, hc⟩ := hbc.call
      rw [ha, Option.some.injEq] at hc
      cases (Instruction.of_inj hc).1
  · intro c operand hc
    obtain ⟨a, b, hab, rfl | rfl⟩ := hcalls c _ operand hc rfl
    · have ha := hab.push
      rw [hc, Option.some.injEq] at ha
      cases (Instruction.of_inj ha).1
    · exact ⟨a, hab⟩

end Confinement

namespace Compilation

open Grammar Confinement

/-- What is compiled is the code of a tree, which is closed, and the globals are those that are
bound at its end. -/
theorem compileTokens_closed {tokens : List Token} {p : Program} {globals : Nat}
    (h : compileTokens tokens = .ok (p, globals)) :
    ∃ source : Grammar.Source, source.Explains tokens p ∧ Closed source p globals := by
  cases tokens with
  | nil => cases h
  | cons t rest =>
    rcases hrun : run (t :: rest) {} {} with ⟨result, book, log⟩
    rw [compileTokens, hrun] at h
    cases result with
    | error e => cases h
    | ok p' =>
      injection h with h
      injection h with hp hglobals
      subst hp hglobals
      obtain ⟨s', source, ts, hsource, rfl⟩ := run_reads hrun
      have hexplains := hsource.explains
      have hcount : s'.book.nextGlobal = source.finalNames.globals.length := by
        rw [hsource.sound.nextGlobal, Grammar.Source.finalNames, Grammar.Source.names,
          ← hsource.names]
        simp [AddressBook.names, Layer.names]
      refine ⟨source, hexplains, ?_⟩
      rw [hcount]
      exact closed_of_explains hexplains

/-- The function in this program has the addresses from 5 to 17 and one variable. -/
example : recursiveSource.regions.map (fun r => (r.entry, r.leave, r.variableCount)) =
    [(5, 17, 1)] := by
  decide

/-- A function with a choice inside and a call of itself. -/
theorem compileTokens_closed_recursive :
    compileTokens recursiveTokens = .ok (recursiveProgram, 1) ∧
      ∃ source : Grammar.Source, source.Explains recursiveTokens recursiveProgram ∧
        Closed source recursiveProgram 1 := by
  have h : compileTokens recursiveTokens = .ok (recursiveProgram, 1) := by decide +kernel
  exact ⟨h, compileTokens_closed h⟩

end Compilation

end StackPrimer

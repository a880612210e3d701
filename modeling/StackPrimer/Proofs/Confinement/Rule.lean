import StackPrimer.Proofs.Confinement.Statement

/-!
# Rules for a whole program

In the code of a whole program an instruction is held to rules that speak of the functions, which
are stretches of the code, and of the variables: where an operation may stand, where a jump may
lead, which addresses an operand may be.

Results:
* `Tidy.orderly`: a tidy piece keeps to the rules where it lies inside of one function or outside of
  all.
-/

namespace StackPrimer.Confinement

open Grammar

/-! ## The rules -/

/-- What an operation at address `a` is held to in a program with these functions and these
variables, whose last address is `last`, where the names around it are these. -/
def Rule (regions : List Region) (globals : List String) (last a : Nat) (n : Names) :
    Opcode → Option Operand → Prop
  | .start, operand => operand = none ∧ a = 0
  | .halt, operand => operand = none ∧ a = last
  | .enter, operand => operand = none ∧ ∃ r ∈ regions, a = r.entry
  | .leave, operand => operand = none ∧ ∃ r ∈ regions, a = r.leave
  | .jump, operand | .jumpIfZero, operand =>
    ∃ target : Nat, operand = some (.int target) ∧ 0 < target ∧ target ≤ last ∧
      ∀ r ∈ regions, (r.Contains target ↔ r.Contains a) ∧ target ≠ r.entry
  | .call, operand => ∃ r ∈ regions, operand = some (.int r.entry)
  | .loadGlobal, operand => ∃ x ∈ n.globals, operand = some (.int (globals.idxOf x : Nat))
  | .storeGlobal, operand =>
    (∀ r ∈ regions, ¬ r.Contains a) ∧
      ∃ address : Nat, operand = some (.int address) ∧ address < globals.length
  | .loadLocal, operand | .storeLocal, operand =>
    ∃ r ∈ regions, r.Contains a ∧
      ∃ address : Nat, operand = some (.int address) ∧ address < r.variableCount
  | _, _ => True

/-- Every instruction of the piece of code at `start` keeps to the rules, and calls return behind
themselves. -/
structure Orderly (regions : List Region) (globals : List String) (last start : Nat)
    (ns : List Names) (is : List Instruction) : Prop where
  along : Along (fun a n => Satisfies (Rule regions globals last a n)) start ns is
  paired : Paired start is

section Pieces

variable {regions : List Region} {globals : List String} {last start : Nat} {n : Names}
  {ns ms : List Names} {is js : List Instruction}

namespace Orderly

theorem nil : Orderly regions globals last start [] [] := ⟨.nil, .nil⟩

theorem append (h : Orderly regions globals last start ns is)
    (h' : Orderly regions globals last (start + is.length) ms js) :
    Orderly regions globals last start (ns ++ ms) (is ++ js) :=
  ⟨h.along.append h'.along, h.paired.append h'.paired⟩

/-- An instruction that has nothing to do with calls, in front of a piece. -/
theorem cons {op : Opcode} {operand : Option Operand} (hop : concernsCall op = false)
    (h : Rule regions globals last start n op operand)
    (h' : Orderly regions globals last (start + 1) ms js) :
    Orderly regions globals last start (n :: ms) (.of op operand :: js) :=
  ⟨.cons (Satisfies.of_iff.mpr h) h'.along, .other hop h'.paired⟩

end Orderly

/-! ## Where a piece lies -/

/-- No address of the function is one of those from `low` to `high`. -/
def Avoids (low high : Nat) (r : Region) : Prop := r.leave < low ∨ high < r.entry

/-- The addresses from `low` to `high` lie in this function if one is given, and else outside of
all; none of them is an entry. -/
def Lies (regions : List Region) (here : Option Region) (low high : Nat) : Prop :=
  ∀ a, low ≤ a → a ≤ high → ∀ r ∈ regions, (r.Contains a ↔ here = some r) ∧ a ≠ r.entry

theorem lies_outside {low high : Nat} (h : ∀ r ∈ regions, Avoids low high r) :
    Lies regions none low high := by
  intro a hlow hhigh r hr
  have havoids := h r hr
  have hlt := r.entry_lt_leave
  simp only [Avoids, Region.Contains, reduceCtorEq, iff_false] at havoids ⊢
  omega

theorem lies_inside {r : Region} {low high : Nat}
    (h : ∀ r' ∈ regions, r' = r ∨ Avoids low high r') (hlow : r.entry < low)
    (hhigh : high ≤ r.leave) : Lies regions (some r) low high := by
  intro a hlow' hhigh' r' hr'
  rcases h r' hr' with rfl | havoids
  · simp only [Region.Contains, iff_true]
    omega
  · have hne : r ≠ r' := by
      rintro rfl
      have hlt := r.entry_lt_leave
      unfold Avoids at havoids
      omega
    have hlt := r'.entry_lt_leave
    simp only [Avoids, Region.Contains, Option.some.injEq, hne, iff_false] at havoids ⊢
    omega

/-- Names fit for the code of this function, or for the code outside of functions. -/
def Suits : Option Region → Names → Prop
  | none, n => n.home = .global
  | some r, n => n.home = .function ∧ n.inner.length ≤ r.variableCount

/-- Where a tidy piece keeps to the rules. -/
theorem rule_of_demand {callable : Nat → Prop} {low high a : Nat} {here : Option Region}
    (hlies : Lies regions here low high) (hhere : ∀ r, here = some r → r ∈ regions)
    (hpos : 0 < low) (hlast : high ≤ last)
    (hcallable : ∀ entry, callable entry → ∃ r ∈ regions, entry = r.entry)
    (hlow : low ≤ a) (hhigh : a ≤ high) (hsuits : Suits here n) (hglobals : n.globals <+: globals)
    {op : Opcode} {operand : Option Operand} (h : Demand callable low high n op operand) :
    Rule regions globals last a n op operand := by
  have hjump : (∃ target : Nat, operand = some (.int target) ∧ low ≤ target ∧ target ≤ high) →
      ∃ target : Nat, operand = some (.int target) ∧ 0 < target ∧ target ≤ last ∧
        ∀ r ∈ regions, (r.Contains target ↔ r.Contains a) ∧ target ≠ r.entry := by
    rintro ⟨target, rfl, hl, hh⟩
    refine ⟨target, rfl, by omega, by omega, fun r hr => ?_⟩
    have ha := hlies a hlow hhigh r hr
    have ht := hlies target hl hh r hr
    exact ⟨ht.1.trans ha.1.symm, ht.2⟩
  have hlocal : (n.home = .function ∧
        ∃ x ∈ n.inner, operand = some (.int (n.inner.idxOf x : Nat))) →
      ∃ r ∈ regions, r.Contains a ∧
        ∃ address : Nat, operand = some (.int address) ∧ address < r.variableCount := by
    rintro ⟨hhome, x, hx, rfl⟩
    cases here with
    | none =>
      rw [Suits, hhome] at hsuits
      cases hsuits
    | some r =>
      have hr := hhere r rfl
      refine ⟨r, hr, (hlies a hlow hhigh r hr).1.mpr rfl, _, rfl, ?_⟩
      exact Nat.lt_of_lt_of_le (List.idxOf_lt_length_of_mem hx) hsuits.2
  cases op with
  | jump => exact hjump h
  | jumpIfZero => exact hjump h
  | loadLocal => exact hlocal h
  | storeLocal => exact hlocal h
  | call =>
    obtain ⟨entry, rfl, hentry⟩ := h
    obtain ⟨r, hr, rfl⟩ := hcallable entry hentry
    exact ⟨r, hr, rfl⟩
  | loadGlobal =>
    obtain ⟨x, hx, rfl⟩ := h
    refine ⟨x, hx, ?_⟩
    rw [Names.idxOf_of_prefix hglobals hx]
  | storeGlobal =>
    obtain ⟨hhome, x, hx, rfl⟩ := h
    refine ⟨fun r hr hcontains => ?_, _, rfl, ?_⟩
    · rw [(hlies a hlow hhigh r hr).1] at hcontains
      subst hcontains
      rw [hsuits.1] at hhome
      cases hhome
    · exact Nat.lt_of_lt_of_le (List.idxOf_lt_length_of_mem hx) hglobals.length_le
  | start => exact h.elim
  | halt => exact h.elim
  | enter => exact h.elim
  | leave => exact h.elim
  | _ => trivial

/-- A tidy piece is orderly where it lies. -/
theorem Tidy.orderly {callable : Nat → Prop} {low high : Nat} {here : Option Region}
    (h : Tidy callable low high start ns is) (hlies : Lies regions here low high)
    (hhere : ∀ r, here = some r → r ∈ regions) (hpos : 0 < low) (hlast : high ≤ last)
    (hcallable : ∀ entry, callable entry → ∃ r ∈ regions, entry = r.entry)
    (hlow : low ≤ start) (hhigh : start + is.length ≤ high)
    (hsuits : ∀ m ∈ ns, Suits here m) (hglobals : ∀ m ∈ ns, m.globals <+: globals) :
    Orderly regions globals last start ns is where
  along := h.along.imp fun a m i ha ha' hm hi => hi.imp fun _ _ =>
    rule_of_demand hlies hhere hpos hlast hcallable (by omega) (by omega) (hsuits m hm)
      (hglobals m hm)
  paired := h.paired

end Pieces

end StackPrimer.Confinement

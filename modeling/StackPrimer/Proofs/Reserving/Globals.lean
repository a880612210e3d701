import StackPrimer.Proofs.Confinement.Program

/-!
# How many variables a program has

Each variable of a program is stored into somewhere in its code, because a name is bound by an
assignment. So the code alone says how many variables there are.

Results:
* `Statement.stores`, `Block.stores`: what a statement binds is stored into by its code.
* `globals_eq_of_explains`: the variables counted with a program are those of each of its trees.
-/

namespace StackPrimer.Reserving

open Grammar Confinement
open Compilation (compileTokens)

section Stores

variable {entries : Entries} {n : Names}

/-- A variable that is assigned is stored into. -/
theorem store_of_bind {x : String} {g : Nat} (h : n.home = .global) (hlow : n.globals.length ≤ g)
    (hhigh : g < (n.bind x).globals.length) : (n.bind x).store x = withInt .storeGlobal g := by
  rcases n with ⟨globals, _ | locals⟩
  · by_cases hx : x ∈ globals
    · simp [Names.bind, Names.extend, hx] at hlow hhigh
      omega
    · obtain rfl : g = globals.length := by
        simp [Names.bind, Names.extend, hx] at hlow hhigh
        omega
      simp [Names.bind, Names.extend, hx, Names.store, Names.home, Names.address, Names.inScope,
        List.idxOf_append_of_notMem]
  · cases h

mutual

/-- What a statement of the program binds is stored into by its code. -/
theorem Statement.stores :
    ∀ {s : Statement} {n : Names} {start g : Nat}, n.home = .global → n.globals.length ≤ g →
      g < (s.names n).globals.length → withInt .storeGlobal g ∈ s.code entries n start
  | .print _, _, _, _, _, hlow, hhigh => absurd hhigh (Nat.not_lt.mpr hlow)
  | .assign x e, n, start, g, h, hlow, hhigh => by
    have hstore : (n.bind x).store x = withInt .storeGlobal g := store_of_bind h hlow hhigh
    simp [Statement.code, hstore]
  | .call .., _, _, _, _, hlow, hhigh => absurd hhigh (Nat.not_lt.mpr hlow)
  | .choice c yes, n, start, g, h, hlow, hhigh => by
    have hyes : withInt .storeGlobal g ∈ yes.code entries n (start + (c.code n).length + 1) :=
      Block.stores h hlow hhigh
    simp [Statement.code, hyes]
  | .alternative c yes no, n, start, g, h, hlow, hhigh => by
    have hhome : (yes.names n).home = .global := by rw [← (yes.le_names n).home, h]
    rcases Nat.lt_or_ge g (yes.names n).globals.length with hlt | hge
    · have hyes : withInt .storeGlobal g ∈ yes.code entries n (start + (c.code n).length + 1) :=
        Block.stores h hlow hlt
      simp [Statement.code, hyes]
    · have hno : ∀ start, withInt .storeGlobal g ∈ no.code entries (yes.names n) start :=
        fun start => Block.stores hhome hge hhigh
      simp [Statement.code, hno]
  | .loop c body, n, start, g, h, hlow, hhigh => by
    have hbody : withInt .storeGlobal g ∈ body.code entries n (start + (c.code n).length + 1) :=
      Block.stores h hlow hhigh
    simp [Statement.code, hbody]

/-- The same for statements one after the other. -/
theorem Block.stores :
    ∀ {b : Block} {n : Names} {start g : Nat}, n.home = .global → n.globals.length ≤ g →
      g < (b.names n).globals.length → withInt .storeGlobal g ∈ b.code entries n start
  | .nil, _, _, _, _, hlow, hhigh => absurd hhigh (Nat.not_lt.mpr hlow)
  | .cons s rest, n, start, g, h, hlow, hhigh => by
    have hhome : (s.names n).home = .global := by rw [← (s.le_names n).home, h]
    rw [Block.code, List.mem_append]
    rcases Nat.lt_or_ge g (s.names n).globals.length with hlt | hge
    · exact .inl (Statement.stores h hlow hlt)
    · exact .inr (Block.stores hhome hge hhigh)

end

/-- What declarations bind is stored into by their code. -/
theorem declarations_stores {ds : List Declaration} {start g : Nat} (h : n.home = .global)
    (hlow : n.globals.length ≤ g) (hhigh : g < (namesBehind n ds).globals.length) :
    withInt .storeGlobal g ∈ declarationsCode entries n start ds := by
  induction ds generalizing entries n start with
  | nil => exact absurd hhigh (Nat.not_lt.mpr hlow)
  | cons d ds ih =>
    rw [declarationsCode, List.mem_append]
    rcases Nat.lt_or_ge g (d.names n).globals.length with hlt | hge
    · left
      cases d with
      | assign x e => simp [Declaration.code, store_of_bind h hlow hlt]
      | define f parameters body => exact absurd hlt (Nat.not_lt.mpr hlow)
    · exact .inr (ih (Declaration.home_names h d) hge hhigh)

/-- Each variable of a program is stored into by its code. -/
theorem Source.stores (source : Grammar.Source) {g : Nat}
    (h : g < source.finalNames.globals.length) : withInt .storeGlobal g ∈ source.code := by
  have hcode : source.code = plain .start :: declarationsCode noEntries {} 1 source.declarations ++
      source.statements.code source.entries source.names
        (1 + (declarationsCode noEntries {} 1 source.declarations).length) ++ [plain .halt] := rfl
  rw [hcode]
  rcases Nat.lt_or_ge g source.names.globals.length with hlt | hge
  · have hds : withInt .storeGlobal g ∈ declarationsCode noEntries {} 1 source.declarations :=
      declarations_stores rfl (Nat.zero_le g) hlt
    simp [hds]
  · have hb : ∀ start, withInt .storeGlobal g ∈
        source.statements.code source.entries source.names start :=
      fun start => Block.stores (home_namesBehind rfl source.declarations) hge h
    simp [hb]

end Stores

/-- Trees of the same code have the same number of variables. -/
theorem length_globals_le {source source' : Grammar.Source} {tokens tokens' : List Token} {p : Program}
    (h : source.Explains tokens p) (h' : source'.Explains tokens' p) :
    source.finalNames.globals.length ≤ source'.finalNames.globals.length := by
  by_contra hlt
  have hmem := Source.stores source (Nat.not_le.mp hlt)
  rw [← h.code, Array.mem_toList_iff] at hmem
  obtain ⟨a, hi⟩ := Array.getElem?_of_mem hmem
  obtain ⟨n, -, op, operand, heq, hrule⟩ := (closed_of_explains h').rules a _ hi
  obtain ⟨rfl, rfl⟩ := Instruction.of_inj heq
  obtain ⟨-, address, haddress, hbound⟩ := hrule
  obtain rfl : source'.finalNames.globals.length = address := by simpa using haddress
  exact Nat.lt_irrefl _ hbound

/-- The variables counted with a program are those of each of its trees. -/
theorem globals_eq_of_explains {tokens : List Token} {p : Program} {globals : Nat}
    {source : Grammar.Source} (h : compileTokens tokens = .ok (p, globals))
    (hexplains : source.Explains tokens p) : globals = source.finalNames.globals.length := by
  obtain ⟨source', hexplains', rfl⟩ := Compilation.exists_explains h
  exact Nat.le_antisymm (length_globals_le hexplains' hexplains)
    (length_globals_le hexplains hexplains')

end StackPrimer.Reserving

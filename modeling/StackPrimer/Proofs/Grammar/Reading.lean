import StackPrimer.Proofs.Grammar.Layout
import StackPrimer.Proofs.Grammar.Names

/-!
# What is read of a stream

A tree can be laid out in many ways, and some of the layouts of a block go on if a statement follows:
with indentation at its end it takes that statement for its own, and an `if` takes an `else`. Here the
terminals behind a tree are part of the relation, so that no more than one tree is read of a stream.

* A block ends in front of what is no indentation and, if there is indentation in front of its end,
  begins no statement.
* An `if` without `else` ends in front of what is no `else`.
* Statements of a program may not begin, without indentation, with a name that denotes no function:
  this would be one more declaration.

Results:
* `Source.lays_of_reading`: what is read of a stream may be written so.
-/

namespace StackPrimer.Grammar

open Compilation (Place)

/-- Whether a statement begins here. -/
def startsStatement (ts : List Terminal) : Bool := ts.head?.any (·.kind.startsStatement)

mutual

/-- The statement is read of the first terminals where the others stand behind. -/
inductive Statement.Reading : Statement → List Terminal → List Terminal → Prop
  | print (e : Expression) (behind : List Terminal) :
      Statement.Reading (.print e) (Statement.print e).terminals behind
  | assign (x : String) (e : Expression) (behind : List Terminal) :
      Statement.Reading (.assign x e) (Statement.assign x e).terminals behind
  | call (f : String) (arguments : List Expression) (behind : List Terminal) :
      Statement.Reading (.call f arguments) (Statement.call f arguments).terminals behind
  | choice {c : Condition} {yes : Block} {ts behind : List Terminal} :
      Block.Reading .block yes (.indent :: ts) behind →
      behind.head? ≠ some (.word .elseWord) →
      Statement.Reading (.choice c yes)
        (.word .ifWord :: c.terminals ++ .sign .colon :: .indent :: ts) behind
  | alternative {c : Condition} {yes no : Block} {ts us behind : List Terminal} :
      Block.Reading .block yes (.indent :: ts)
        (.word .elseWord :: .sign .colon :: .indent :: us ++ behind) →
      Block.Reading .block no (.indent :: us) behind →
      Statement.Reading (.alternative c yes no)
        (.word .ifWord :: c.terminals ++ .sign .colon :: .indent :: ts ++
          .word .elseWord :: .sign .colon :: .indent :: us) behind
  | loop {c : Condition} {body : Block} {ts behind : List Terminal} :
      Block.Reading .block body (.indent :: ts) behind →
      Statement.Reading (.loop c body)
        (.word .whileWord :: c.terminals ++ .sign .colon :: .indent :: ts) behind

/-- The statements at this place are read of the first terminals where the others stand behind. -/
inductive Block.Reading : Place → Block → List Terminal → List Terminal → Prop
  | nil {place : Place} {k : Nat} {behind : List Terminal} : behind.head? ≠ some .indent →
      (place = .topLevel ∨ 0 < k → startsStatement behind = false) →
      Block.Reading place .nil (indents k) behind
  | cons {place : Place} {k : Nat} {s : Statement} {rest : Block} {ts us behind : List Terminal} :
      (place = .block → 0 < k) → Statement.Reading s ts (us ++ behind) →
      Block.Reading place rest us behind →
      Block.Reading place (.cons s rest) (indents k ++ ts ++ us) behind

end

/-- The declaration is read of the first terminals where the others stand behind. -/
inductive Declaration.Reading : Declaration → List Terminal → List Terminal → Prop
  | assign (x : String) (e : Expression) (behind : List Terminal) :
      Declaration.Reading (.assign x e) (Declaration.assign x e).terminals behind
  | define {f : String} {parameters : List String} {body : Block} {ts behind : List Terminal} :
      Block.Reading .block body (.indent :: ts) behind →
      Declaration.Reading (.define f parameters body)
        ((Declaration.define f parameters body).header ++ .indent :: ts) behind

/-- The same for declarations one after the other. -/
inductive DeclarationsReading : List Declaration → List Terminal → List Terminal → Prop
  | nil {behind : List Terminal} : DeclarationsReading [] [] behind
  | cons {d : Declaration} {ds : List Declaration} {ts us behind : List Terminal} :
      d.Reading ts (us ++ behind) → DeclarationsReading ds us behind →
      DeclarationsReading (d :: ds) (ts ++ us) behind

/-- The program is read of the first terminals where the others stand behind. -/
def Source.Reading (source : Source) (ts behind : List Terminal) : Prop :=
  ∃ us vs, ts = us ++ vs ∧ DeclarationsReading source.declarations us (vs ++ behind) ∧
    Block.Reading .topLevel source.statements vs behind ∧
    ∀ x, vs.head? = some (.name x) → x ∈ functionsBehind [] source.declarations

/-! ## Readings are layouts -/

theorem leavesOpen_of_awaitsElse {s : Statement} (h : s.awaitsElse = true) :
    s.leavesOpen = true := by
  cases s <;> simp_all [Statement.awaitsElse, Statement.leavesOpen]

/-- Indentation is in front only where there is some. -/
theorem eq_zero_of_head?_indents {k : Nat} {ts : List Terminal}
    (h : (indents k ++ ts).head? ≠ some .indent) : k = 0 := by
  cases k with
  | zero => rfl
  | succ k => exact absurd rfl h

theorem allows_of_head? {place : Place} {opened : Bool} {k : Nat} {ts : List Terminal}
    (hblock : place = .block → 0 < k)
    (hopened : opened = true → (indents k ++ ts).head? ≠ some .indent) : Allows place opened k := by
  have hzero : opened = true → k = 0 := fun ho => eq_zero_of_head?_indents (hopened ho)
  cases place with
  | topLevel => exact hzero
  | block =>
    refine ⟨?_, hblock rfl⟩
    by_contra ho
    have hk := hblock rfl
    rw [hzero (by simpa using ho)] at hk
    omega

mutual

/-- What is open behind a statement does not go on behind what is read of it. -/
theorem Statement.Reading.behind :
    ∀ {s : Statement} {ts behind : List Terminal}, s.Reading ts behind →
      (s.leavesOpen = true → behind.head? ≠ some .indent) ∧
      (s.awaitsElse = true → behind.head? ≠ some (.word .elseWord))
  | _, _, _, .print .. => by simp [Statement.leavesOpen, Statement.awaitsElse]
  | _, _, _, .assign .. => by simp [Statement.leavesOpen, Statement.awaitsElse]
  | _, _, _, .call .. => by simp [Statement.leavesOpen, Statement.awaitsElse]
  | _, _, _, .choice hyes helse => ⟨fun _ => hyes.behind.1, fun _ => helse⟩
  | _, _, _, .alternative _ hno => ⟨fun _ => hno.behind.1, hno.behind.2⟩
  | _, _, _, .loop hbody => ⟨fun _ => hbody.behind.1, hbody.behind.2⟩

/-- The same for statements one after the other. -/
theorem Block.Reading.behind :
    ∀ {place : Place} {b : Block} {ts behind : List Terminal}, b.Reading place ts behind →
      behind.head? ≠ some .indent ∧
      (b.awaitsElse = true → behind.head? ≠ some (.word .elseWord))
  | _, _, _, _, .nil hindent _ => ⟨hindent, by simp [Block.awaitsElse]⟩
  | _, .cons _ .nil, _, _, .cons _ hs (.nil hindent _) => by
    refine ⟨hindent, fun helse => ?_⟩
    have hzero := eq_zero_of_head?_indents (hs.behind.1 (leavesOpen_of_awaitsElse helse))
    rw [hzero] at hs
    exact hs.behind.2 helse
  | _, .cons _ (.cons ..), _, _, .cons _ _ hrest => hrest.behind

end

mutual

/-- What is read of terminals may be written as them. -/
theorem Statement.Reading.lays :
    ∀ {s : Statement} {ts behind : List Terminal}, s.Reading ts behind → s.Lays ts
  | _, _, _, .print e _ => .print e
  | _, _, _, .assign x e _ => .assign x e
  | _, _, _, .call f arguments _ => .call f arguments
  | _, _, _, .choice hyes _ => .choice (hyes.lays (by simp))
  | .alternative _ yes _, _, _, .alternative hyes hno => by
    have hclosed : yes.awaitsElse = false := by
      by_contra helse
      exact hyes.behind.2 (by simpa using helse) rfl
    exact .alternative (hyes.lays (by simp)) hclosed (hno.lays (by simp))
  | _, _, _, .loop hbody => .loop (hbody.lays (by simp))

/-- The same for statements one after the other, where indentation follows only what leaves no block
open. -/
theorem Block.Reading.lays {opened : Bool} :
    ∀ {place : Place} {b : Block} {ts behind : List Terminal}, b.Reading place ts behind →
      (opened = true → (ts ++ behind).head? ≠ some .indent) → b.Lays place opened ts
  | _, _, _, _, .nil _ _, hopened => .nil fun ho => eq_zero_of_head?_indents (hopened ho)
  | _, _, _, _, .cons hblock hs hrest, hopened =>
    .cons (allows_of_head? hblock (by simpa only [List.append_assoc] using hopened)) hs.lays
      (hrest.lays hs.behind.1)

end

theorem Declaration.Reading.behind {d : Declaration} {ts behind : List Terminal}
    (h : d.Reading ts behind) : d.leavesOpen = true → behind.head? ≠ some .indent := by
  cases h with
  | assign x e => simp [Declaration.leavesOpen]
  | define hbody => exact fun _ => hbody.behind.1

theorem Declaration.Reading.lays {d : Declaration} {ts behind : List Terminal}
    (h : d.Reading ts behind) : d.Lays ts := by
  cases h with
  | assign x e => exact .assign x e
  | define hbody => exact .define (hbody.lays (by simp))

theorem lays_of_declarationsReading {ds : List Declaration} {b : Block} {us vs behind : List Terminal}
    (h : DeclarationsReading ds us (vs ++ behind)) (hb : b.Reading .topLevel vs behind)
    {opened : Bool} (hopened : opened = true → (us ++ vs ++ behind).head? ≠ some .indent) :
    Source.Lays opened ⟨ds, b⟩ (us ++ vs) := by
  induction ds generalizing us opened with
  | nil =>
    cases h
    exact .statements (hb.lays hopened)
  | cons d ds ih =>
    cases h with
    | cons hd hds =>
      rw [List.append_assoc]
      refine .declaration hd.lays (ih hds ?_)
      simpa using hd.behind

/-- What is read of a stream may be written so. -/
theorem Source.lays_of_reading {source : Source} {ts behind : List Terminal}
    (h : source.Reading ts behind) : Source.Lays false source ts := by
  obtain ⟨us, vs, rfl, hds, hb, -⟩ := h
  exact lays_of_declarationsReading hds hb (by simp)

/-! ## Only the first terminal behind matters -/

/-- These terminals begin like the others, or with the end. -/
def Follows (after behind : List Terminal) : Prop :=
  after.head? = behind.head? ∨ after.head? = some (.mark .finish)

namespace Follows

variable {after behind : List Terminal}

theorem ne_mark (h : Follows after behind) {k : Kind} (hk : k ≠ .finish)
    (hne : behind.head? ≠ some (.mark k)) : after.head? ≠ some (.mark k) := by
  rcases h with h | h
  · rwa [h]
  · rw [h]
    simpa using hk.symm

theorem startsStatement (h : Follows after behind) (hb : startsStatement behind = false) :
    startsStatement after = false := by
  rcases h with h | h
  · rw [Grammar.startsStatement, h]
    exact hb
  · rw [Grammar.startsStatement, h]
    rfl

/-- What stands in front is the same, if anything does. -/
theorem of_ne_nil {us : List Terminal} (h : us ≠ []) (after behind : List Terminal) :
    Follows (us ++ after) (us ++ behind) := by
  obtain ⟨u, us, rfl⟩ := List.exists_cons_of_ne_nil h
  exact .inl rfl

theorem append (h : Follows after behind) (us : List Terminal) :
    Follows (us ++ after) (us ++ behind) := by
  cases us with
  | nil => exact h
  | cons u us => exact .of_ne_nil (List.cons_ne_nil u us) ..

end Follows

mutual

/-- What is read does not change if what stands behind begins the same, or if it is the end. -/
theorem Statement.Reading.of_follows {after : List Terminal} :
    ∀ {s : Statement} {ts behind : List Terminal}, s.Reading ts behind → Follows after behind →
      s.Reading ts after
  | _, _, _, .print e _, _ => .print e after
  | _, _, _, .assign x e _, _ => .assign x e after
  | _, _, _, .call f arguments _, _ => .call f arguments after
  | _, _, _, .choice hyes helse, h => .choice (hyes.of_follows h) (h.ne_mark (by simp) helse)
  | _, _, _, .alternative hyes hno, h =>
    .alternative (hyes.of_follows (.inl rfl)) (hno.of_follows h)
  | _, _, _, .loop hbody, h => .loop (hbody.of_follows h)

/-- The same for statements one after the other. -/
theorem Block.Reading.of_follows {after : List Terminal} :
    ∀ {place : Place} {b : Block} {ts behind : List Terminal}, b.Reading place ts behind →
      Follows after behind → b.Reading place ts after
  | _, _, _, _, .nil hindent hstop, h =>
    .nil (h.ne_mark (by simp) hindent) fun hplace => h.startsStatement (hstop hplace)
  | _, _, _, _, .cons hblock hs hrest, h =>
    .cons hblock (hs.of_follows (h.append _)) (hrest.of_follows h)

end

theorem Declaration.Reading.of_follows {after : List Terminal} {d : Declaration}
    {ts behind : List Terminal} (hd : d.Reading ts behind) (h : Follows after behind) :
    d.Reading ts after := by
  cases hd with
  | assign x e => exact .assign x e after
  | define hbody => exact .define (hbody.of_follows h)

theorem DeclarationsReading.of_follows {after : List Terminal} {ds : List Declaration}
    {ts behind : List Terminal} (hds : DeclarationsReading ds ts behind) (h : Follows after behind) :
    DeclarationsReading ds ts after := by
  induction hds with
  | nil => exact .nil
  | cons hd _ ih => exact .cons (hd.of_follows (h.append _)) (ih h)

end StackPrimer.Grammar

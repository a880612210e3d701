import StackPrimer.Proofs.Grammar.Reading

/-!
# What is open at the end of a front

What stands at the front of a stream may be a program of its own. Where its last statement ends with a
block, indentation behind it belongs to that block. Where it does not, the front is read no matter what
stands behind it.

Results:
* `Block.Reading.front`: statements that leave no block open are read up to the end of the last one.
* `Source.Reading.indented`: a program that ends with a block takes the indentation behind it.
-/

namespace StackPrimer.Grammar

open Compilation (Place)

/-! ## Sequences that leave nothing open -/

/-- Whether the last statement ends with a block. -/
def Block.leavesOpen : Block → Bool
  | .nil => false
  | .cons s .nil => s.leavesOpen
  | .cons _ rest => rest.leavesOpen

/-- The number of statements in the sequence itself. -/
def Block.count : Block → Nat
  | .nil => 0
  | .cons _ rest => rest.count + 1

/-- Whether the program ends with a block. -/
def Source.leavesOpen (source : Source) : Bool :=
  match source.statements with
  | .nil => source.declarations.getLast?.any Declaration.leavesOpen
  | b => b.leavesOpen

/-- The statements are read of the first terminals, up to the end of the last statement. -/
inductive Block.Front : Block → List Terminal → List Terminal → Prop
  | nil (behind : List Terminal) : Block.Front .nil [] behind
  | cons {k : Nat} {s : Statement} {rest : Block} {ts us behind : List Terminal} :
      s.Reading ts (us ++ behind) → Block.Front rest us behind →
      Block.Front (.cons s rest) (indents k ++ ts ++ us) behind

theorem Statement.Reading.ne_nil {s : Statement} {ts behind : List Terminal}
    (h : s.Reading ts behind) : ts ≠ [] := by
  cases h <;> exact List.cons_ne_nil _ _

/-- A statement without a block at its end is read whatever stands behind it. -/
theorem Statement.Reading.of_closed {s : Statement} {ts behind : List Terminal}
    (h : s.Reading ts behind) (hs : s.leavesOpen = false) (after : List Terminal) :
    s.Reading ts after := by
  cases h with
  | print e => exact .print e after
  | assign x e => exact .assign x e after
  | call f arguments => exact .call f arguments after
  | choice | alternative | loop => cases hs

theorem Block.Front.ne_nil {s : Statement} {rest : Block} {ts behind : List Terminal}
    (h : (Block.cons s rest).Front ts behind) : ts ≠ [] := by
  cases h with
  | cons hs hrest => simp [hs.ne_nil]

/-- Statements that leave nothing open are read up to the end of the last one, whatever stands
behind. -/
theorem Block.Reading.front : ∀ {b : Block} {ts behind : List Terminal},
    b.Reading .topLevel ts behind → b.leavesOpen = false →
      ∃ k us, ts = us ++ indents k ∧ ∀ after, b.Front us after
  | .nil, _, _, .nil (k := k) _ _, _ => ⟨k, [], rfl, .nil⟩
  | .cons s .nil, _, _, @Block.Reading.cons _ j _ _ ts _ _ _ hs hnil, hclosed => by
    cases hnil with
    | @nil _ k =>
      exact ⟨k, indents j ++ ts ++ [], by simp, fun after =>
        .cons (hs.of_closed hclosed _) (.nil after)⟩
  | .cons s (.cons s' rest), _, _, @Block.Reading.cons _ j _ _ ts _ _ _ hs hrest, hclosed => by
    obtain ⟨k, us, rfl, hfront⟩ := hrest.front hclosed
    refine ⟨k, indents j ++ ts ++ us, by simp, fun after => .cons (hs.of_follows ?_) (hfront after)⟩
    -- there is another statement behind this one, and it begins as before
    rw [List.append_assoc]
    exact .of_ne_nil (hfront after).ne_nil ..

/-- A declaration is more than nothing. -/
theorem DeclarationsReading.ne_nil {d : Declaration} {ds : List Declaration} {us behind : List Terminal}
    (h : DeclarationsReading (d :: ds) us behind) : us ≠ [] := by
  cases h with
  | cons hd hds => cases hd <;> exact List.cons_ne_nil _ _

/-- Declarations of which the last one leaves nothing open are read whatever stands behind. -/
theorem DeclarationsReading.of_closed {ds : List Declaration} {us behind : List Terminal}
    (h : DeclarationsReading ds us behind)
    (hclosed : ds.getLast?.any Declaration.leavesOpen = false) (after : List Terminal) :
    DeclarationsReading ds us after := by
  induction h with
  | nil => exact .nil
  | @cons d ds ts us behind hd hds ih =>
    cases ds with
    | nil =>
      cases hds
      cases hd with
      | assign x e => exact .cons (.assign x e _) .nil
      | define => cases hclosed
    | cons d' ds =>
      exact .cons (hd.of_follows (.of_ne_nil hds.ne_nil ..)) (ih (by simpa using hclosed))

/-! ## Indentation behind a sequence that leaves something open -/

/-- A statement is more than nothing. -/
theorem Block.Reading.ne_nil {place : Place} {s : Statement} {rest : Block}
    {ts behind : List Terminal} (h : (Block.cons s rest).Reading place ts behind) : ts ≠ [] := by
  cases h with
  | cons _ hs _ => simp [hs.ne_nil]

theorem Block.Reading.eq_indents {place : Place} {ts behind : List Terminal}
    (h : Block.nil.Reading place ts behind) :
    ∃ k, ts = indents k ∧ behind.head? ≠ some .indent := by
  cases h with
  | nil hindent _ => exact ⟨_, rfl, hindent⟩

mutual

/-- Where no statement follows, the block at the end of a statement takes the indentation behind it. -/
theorem Statement.Reading.indented {k : Nat} :
    ∀ {s : Statement} {ts behind : List Terminal}, s.Reading ts behind → s.leavesOpen = true →
      startsStatement behind = false → s.Reading (ts ++ indents k) behind
  | _, _, _, .print .., hopen, _ => by cases hopen
  | _, _, _, .assign .., hopen, _ => by cases hopen
  | _, _, _, .call .., hopen, _ => by cases hopen
  | _, _, _, @Statement.Reading.choice c yes ts _ hyes helse, _, hstop => by
    have hindented : yes.Reading .block (.indent :: (ts ++ indents k)) _ := hyes.indented hstop
    simpa using Statement.Reading.choice (c := c) hindented helse
  | _, _, _, @Statement.Reading.alternative c yes no ts us behind hyes hno, _, hstop => by
    have hindented : no.Reading .block (.indent :: (us ++ indents k)) behind := hno.indented hstop
    have hfirst : yes.Reading .block (.indent :: ts)
        (.word .elseWord :: .sign .colon :: .indent :: (us ++ indents k) ++ behind) :=
      hyes.of_follows (.inl rfl)
    simpa using Statement.Reading.alternative (c := c) hfirst hindented
  | _, _, _, @Statement.Reading.loop c body ts _ hbody, _, hstop => by
    have hindented : body.Reading .block (.indent :: (ts ++ indents k)) _ := hbody.indented hstop
    simpa using Statement.Reading.loop (c := c) hindented

/-- The same for statements one after the other. -/
theorem Block.Reading.indented {k : Nat} :
    ∀ {place : Place} {b : Block} {ts behind : List Terminal}, b.Reading place ts behind →
      startsStatement behind = false → b.Reading place (ts ++ indents k) behind
  | _, .nil, _, _, .nil (k := j) hindent _, hstop => by
    rw [← indents_add]
    exact .nil hindent fun _ => hstop
  | place, .cons s .nil, _, behind, .cons hplace hs hnil, hstop => by
    obtain ⟨j, rfl, hindent⟩ : ∃ j, _ = indents j ∧ _ := hnil.eq_indents
    cases j with
    | succ j =>
      -- the indentation is behind some that is no part of the last statement
      have hrest : Block.nil.Reading place (indents (j + 1 + k)) behind := .nil hindent fun _ => hstop
      rw [List.append_assoc, ← indents_add]
      exact .cons hplace (hs.of_follows (.inl (by rw [indents_add]; rfl))) hrest
    | zero =>
      cases hopen : s.leavesOpen with
      | true =>
        simpa [indents] using Block.Reading.cons hplace (hs.indented (k := k) hopen hstop) hnil
      | false =>
        have hrest : Block.nil.Reading place (indents k) behind := .nil hindent fun _ => hstop
        simpa [indents] using Block.Reading.cons hplace (hs.of_closed hopen _) hrest
  | _, .cons s (.cons s' rest), _, _, .cons hplace hs hrest, hstop => by
    rw [List.append_assoc]
    refine .cons hplace (hs.of_follows ?_) (hrest.indented hstop)
    -- there is another statement behind this one, and it begins as before
    rw [List.append_assoc]
    exact .of_ne_nil hrest.ne_nil ..

end

/-- The block of the last function takes the indentation behind it. -/
theorem DeclarationsReading.indented {ds : List Declaration} {us behind : List Terminal} {k : Nat}
    (h : DeclarationsReading ds us behind)
    (hopen : ds.getLast?.any Declaration.leavesOpen = true)
    (hstop : startsStatement behind = false) :
    DeclarationsReading ds (us ++ indents k) behind := by
  induction h with
  | nil => cases hopen
  | @cons d ds ts us behind hd hds ih =>
    cases ds with
    | nil =>
      cases hds
      cases hd with
      | assign => cases hopen
      | @define f parameters body ts _ hbody =>
        have hindented : body.Reading .block (.indent :: (ts ++ indents k)) _ := hbody.indented hstop
        have hd' : (Declaration.define f parameters body).Reading _ _ := .define hindented
        simpa using DeclarationsReading.cons hd' .nil
    | cons d' ds =>
      rw [List.append_assoc]
      refine .cons (hd.of_follows ?_) (ih (by simpa using hopen) hstop)
      rw [List.append_assoc]
      exact .of_ne_nil hds.ne_nil ..

/-- Nothing is left open in front of indentation. -/
theorem DeclarationsReading.behind {ds : List Declaration} {us behind : List Terminal}
    (h : DeclarationsReading ds us behind)
    (hopen : ds.getLast?.any Declaration.leavesOpen = true) : behind.head? ≠ some .indent := by
  induction h with
  | nil => cases hopen
  | @cons d ds ts us behind hd hds ih =>
    cases ds with
    | nil =>
      cases hds
      exact hd.behind hopen
    | cons d' ds => exact ih (by simpa using hopen)

/-- The block at the end of a program takes the indentation behind it, where no statement follows. -/
theorem Source.Reading.indented {source : Source} {ts behind : List Terminal} {k : Nat}
    (h : source.Reading ts behind) (hopen : source.leavesOpen = true)
    (hstop : startsStatement behind = false) : source.Reading (ts ++ indents k) behind := by
  obtain ⟨ds, b⟩ := source
  obtain ⟨us, vs, rfl, hds, hb, hname⟩ := h
  cases b with
  | nil =>
    obtain ⟨j, rfl, -⟩ := hb.eq_indents
    obtain rfl := eq_zero_of_head?_indents (hds.behind hopen)
    exact ⟨us ++ indents k, [], by simp [indents], hds.indented hopen hstop, hb, by simp⟩
  | cons st rest =>
    obtain ⟨v, ws, rfl⟩ := List.exists_cons_of_ne_nil hb.ne_nil
    exact ⟨us, v :: ws ++ indents k, by simp, hds.of_follows (.inl rfl), hb.indented hstop, hname⟩

end StackPrimer.Grammar

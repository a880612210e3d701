import StackPrimer.Proofs.Acceptance.Expression
import StackPrimer.Proofs.OnePass.Statement

/-!
# Statements are accepted

A statement is read where its terminals stand ahead in a layout of which it can be read. Everything
that decides where a block ends is part of what it means to be read: what stands behind a block is no
indentation and, if there is indentation in front, begins no statement.

Results:
* `accepted_statement`, `accepted_block`: what can be read of the terminals ahead is read.
-/

namespace StackPrimer.Compilation

open Grammar

variable {s s' : State} {budget reserve : Nat} {behind : List Terminal}

/-! ## Statements without blocks -/

theorem accepted_print (e : Expression)
    (h : Ahead budget 2 s ((Statement.print e).terminals ++ behind))
    (hscoped : e.Scoped s.book.names) :
    Succeeds (statementWithin budget) s fun _ s' =>
      ReadsStatement s s' (.print e) (Statement.print e).terminals := by
  obtain ⟨budget, rfl, -⟩ := h.spend
  have hts : (Statement.print e).terminals ++ behind = .word .printWord :: .sign .opening ::
      (e.terminals ++ .sign .closing :: behind) := by
    simp [Statement.terminals]
  rw [hts] at h
  rw [statementWithin]
  refine .read (currentKind_ok s) ?_
  rw [h.kind_mark]
  have hahead : Ahead budget 1 s _ := h.pred (by omega)
  refine .bind (succeeds_advance hahead (by simp)) fun _ s₁ _ hw₁ => ?_
  have hahead₁ := hahead.pass hw₁
  refine .bind (succeeds_expectSign hahead₁) fun _ s₂ _ hw₂ => ?_
  have hahead₂ := hahead₁.pass hw₂
  have hscoped₂ : e.Scoped s₂.book.names := by
    rw [hw₂.names, hw₁.names]
    exact hscoped
  refine .bind (accepted e (hahead₂.mono (by omega)) hscoped₂ (endsExpression_cons rfl rfl _))
    fun _ s₃ _ he => ?_
  refine .bind (succeeds_expectSign (hahead₂.writes he.writes)) fun _ s₄ _ hw₄ => ?_
  obtain ⟨_, s₅, hrun, hw₅⟩ := succeeds_emitPlain .print rfl s₄
  exact ⟨(), s₅, hrun, .print hw₁ hw₂ he hw₄ hw₅ h.sound⟩

/-- A statement that begins with a name is read as one. -/
theorem statementWithin_name {x : String} {ts : List Terminal}
    (h : Ahead (budget + 1) reserve s (.name x :: ts)) :
    statementWithin (budget + 1) s = namedWithin budget s := by
  rw [statementWithin, bind_of_ok (currentKind_ok s), h.kind]
  rfl

theorem succeeds_reserve {x : Token} (hs : s.book.Sound) {f : Action Unit} {post : Unit → State → Prop}
    (hf : ∀ s₁, Reserves s s₁ x.lexeme → Succeeds f s₁ post) :
    Succeeds (do
      unless ← declares x do
        declare x
      f) s post := by
  refine .read (a := s.book.names.binds x.lexeme) (by rw [declares, AddressBook.declares_eq]) ?_
  split
  · rename_i hb
    exact hf s (.of_binds hb hs)
  · rename_i hb
    obtain ⟨s₁, hdeclare⟩ := exists_declare x s
    have hres := Reserves.of_declare hdeclare hb hs
    exact .bind ⟨(), s₁, hdeclare, hres⟩ fun _ s₁ _ hres => hf s₁ hres

theorem Ahead.reserved {x : String} {ts : List Terminal} (h : Ahead budget reserve s ts)
    (hres : Reserves s s' x) : Ahead budget reserve s' ts :=
  h.bound hres.advances hres.binds.sound

theorem succeeds_store {t : Token} (hs : s.book.Sound)
    (ht : s.book.names.scope? t.lexeme = some s.book.names.home) :
    Succeeds (store t) s fun _ s' => Writes s s' [] [s.book.names.store t.lexeme] := by
  obtain ⟨s', hstore⟩ := exists_store hs (by rw [ht]; rfl)
  exact ⟨(), s', hstore, store_ok hstore hs ht⟩

theorem accepted_assign (x : String) (e : Expression)
    (h : Ahead budget 2 s ((Statement.assign x e).terminals ++ behind))
    (hscoped : e.Scoped (s.book.names.bind x)) (hbehind : EndsExpression behind) :
    Succeeds (statementWithin budget) s fun _ s' =>
      ReadsStatement s s' (.assign x e) (Statement.assign x e).terminals := by
  obtain ⟨budget, rfl, -⟩ := h.spend
  obtain ⟨-, rfl⟩ := name_of_ofToken h.ofToken
  refine .congr (statementWithin_name h) ?_
  have hahead : Ahead budget 1 s _ := h.pred (by omega)
  unfold namedWithin
  refine .bind (succeeds_expect hahead rfl (by simp [Terminal.kind]) _) fun name s₁ _ hname => ?_
  obtain ⟨rfl, hw₁⟩ := hname
  have hahead₁ := hahead.pass hw₁
  refine .read (current_ok s₁) ?_
  rw [hahead₁.kind_mark]
  refine .bind (succeeds_advance hahead₁ (by simp)) fun _ s₂ _ hw₂ => ?_
  have hahead₂ := hahead₁.pass hw₂
  refine succeeds_reserve hahead₂.sound fun s₃ hres => ?_
  have hnames : s₂.book.names = s.book.names := by rw [hw₂.names, hw₁.names]
  have hahead₃ := hahead₂.reserved hres
  have hscoped₃ : e.Scoped s₃.book.names := by
    rw [hres.binds.names, hnames]
    exact hscoped
  refine .bind (accepted e (hahead₃.mono (by omega)) hscoped₃ hbehind) fun _ s₄ _ he => ?_
  have hscope : s₄.book.names.scope? s.token.lexeme = some s₄.book.names.home := by
    rw [he.writes.names, hres.binds.names, Names.home_bind]
    exact Names.scope?_bind ..
  obtain ⟨_, s₅, hrun, hw₅⟩ := succeeds_store (he.writes.sound hres.binds.sound) hscope
  exact ⟨(), s₅, hrun, .assign hw₁ hw₂ hres he hw₅ h.sound⟩

/-! ## Calls -/

theorem accepted_moreArguments (arguments : List Expression) {budget reserve : Nat} {s : State}
    (h : Ahead budget (reserve + 1) s ((arguments.flatMap fun e => .sign .comma :: e.terminals) ++
      .sign .closing :: behind))
    (hscoped : ∀ e ∈ arguments, e.Scoped s.book.names) :
    Succeeds (moreArgumentsWithin budget) s fun _ s' => ReadsArguments s s' arguments
      (arguments.flatMap fun e => .sign .comma :: e.terminals) := by
  induction arguments generalizing budget reserve s with
  | nil =>
    obtain ⟨budget, rfl, -⟩ := h.spend
    rw [moreArgumentsWithin]
    refine .read (currentKind_ok s) ?_
    rw [if_neg (by simp [h.kind_mark])]
    exact ⟨(), s, rfl, .nil s⟩
  | cons e rest ih =>
    obtain ⟨budget, rfl, -⟩ := h.spend
    rw [List.forall_mem_cons] at hscoped
    have hts : ((e :: rest).flatMap fun e => Terminal.sign .comma :: e.terminals) ++
        .sign .closing :: behind = .sign .comma :: (e.terminals ++
          ((rest.flatMap fun e => .sign .comma :: e.terminals) ++ .sign .closing :: behind)) := by
      simp
    rw [hts] at h
    rw [moreArgumentsWithin]
    refine .read (currentKind_ok s) ?_
    rw [if_pos h.kind_mark]
    refine .bind (succeeds_advance h (by simp)) fun _ s₁ _ hw₁ => ?_
    have hahead₁ : Ahead budget 3 s₁ _ := (h.pass hw₁).pred (by omega)
    have hends : EndsExpression ((rest.flatMap fun e => .sign .comma :: e.terminals) ++
        .sign .closing :: behind) := by
      cases rest <;> exact endsExpression_cons rfl rfl _
    rw [← hw₁.names] at hscoped
    refine .bind (accepted e hahead₁ hscoped.1 hends) fun _ s₂ _ he => ?_
    have hscoped₂ : ∀ e ∈ rest, e.Scoped s₂.book.names := by
      rw [he.writes.names]
      exact hscoped.2
    obtain ⟨_, s₃, hrun, hrest⟩ :=
      ih (((hahead₁.writes he.writes).mono (by omega)) : Ahead budget 1 s₂ _) hscoped₂
    exact ⟨(), s₃, hrun, .more hw₁ he hrest⟩

theorem accepted_arguments (arguments : List Expression)
    (h : Ahead budget 3 s (Terminal.commaSeparated (arguments.map Expr.terminals) ++
      .sign .closing :: behind))
    (hscoped : ∀ e ∈ arguments, e.Scoped s.book.names) :
    Succeeds (argumentsWithin budget) s fun _ s' => ReadsArguments s s' arguments
      (Terminal.commaSeparated (arguments.map Expr.terminals)) := by
  unfold argumentsWithin
  refine .read (currentKind_ok s) ?_
  cases arguments with
  | nil =>
    rw [if_pos h.kind_mark]
    exact ⟨(), s, rfl, .nil s⟩
  | cons e rest =>
    rw [List.forall_mem_cons] at hscoped
    have hts : Terminal.commaSeparated ((e :: rest).map Expr.terminals) ++ .sign .closing :: behind =
        e.terminals ++
          ((rest.flatMap fun e => .sign .comma :: e.terminals) ++ .sign .closing :: behind) := by
      simp [Terminal.commaSeparated, List.flatMap_map]
    rw [hts] at h
    obtain ⟨t, ts, hhead, hk, -⟩ := exists_head_terminals e
    have hkind : s.token.kind ≠ .sign .closing := by
      have hcons := h
      rw [hhead] at hcons
      rwa [hcons.kind]
    rw [if_neg hkind]
    have hends : EndsExpression ((rest.flatMap fun e => .sign .comma :: e.terminals) ++
        .sign .closing :: behind) := by
      cases rest <;> exact endsExpression_cons rfl rfl _
    refine .bind (accepted e h hscoped.1 hends) fun _ s₁ _ he => ?_
    have hscoped₁ : ∀ e ∈ rest, e.Scoped s₁.book.names := by
      rw [he.writes.names]
      exact hscoped.2
    obtain ⟨_, s₂, hrun, hrest⟩ :=
      accepted_moreArguments rest (((h.writes he.writes).mono (by omega)) : Ahead budget 1 s₁ _) hscoped₁
    exact ⟨(), s₂, hrun, .first he hrest⟩

/-- A function has an entry address. -/
theorem exists_entry {f : String} (hs : s.book.Sound) (hf : f ∈ s.book.functionNames) :
    ∃ n : Nat, s.book.entry? f = some (n : Int) ∧ s.book.entries f = some n := by
  cases hentry : s.book.entry? f with
  | none =>
    rw [AddressBook.entry?, Option.map_eq_none_iff, Layer.find?_eq_none_iff] at hentry
    exact absurd hf hentry
  | some a =>
    obtain ⟨n, rfl⟩ := Int.eq_ofNat_of_zero_le (hs.entries _ _ hentry)
    exact ⟨n, rfl, by simp [AddressBook.entries, hentry]⟩

theorem accepted_call (f : String) (arguments : List Expression)
    (h : Ahead budget 2 s ((Statement.call f arguments).terminals ++ behind))
    (hscoped : (Statement.call f arguments).Scoped s.book.functionNames s.book.names) :
    Succeeds (statementWithin budget) s fun _ s' =>
      ReadsStatement s s' (.call f arguments) (Statement.call f arguments).terminals := by
  obtain ⟨budget, rfl, -⟩ := h.spend
  have hts : (Statement.call f arguments).terminals ++ behind = .name f :: .sign .opening ::
      (Terminal.commaSeparated (arguments.map Expr.terminals) ++ .sign .closing :: behind) := by
    simp [Statement.terminals]
  rw [hts] at h
  obtain ⟨hf, hscoped⟩ := hscoped
  obtain ⟨-, rfl⟩ := name_of_ofToken h.ofToken
  refine .congr (statementWithin_name h) ?_
  have hahead : Ahead budget 1 s _ := h.pred (by omega)
  unfold namedWithin
  refine .bind (succeeds_expect hahead rfl (by simp [Terminal.kind]) _) fun name s₁ _ hname => ?_
  obtain ⟨rfl, hw₁⟩ := hname
  have hahead₁ := hahead.pass hw₁
  refine .read (current_ok s₁) ?_
  rw [hahead₁.kind_mark]
  rw [← hw₁.names] at hscoped
  rw [← hw₁.book] at hf
  obtain ⟨entry, hentry, hentries⟩ := exists_entry hahead₁.sound hf
  change Succeeds (callWithin budget s.token) s₁ _
  unfold callWithin
  refine .read (a := s₁.book.entry? s.token.lexeme) rfl ?_
  rw [hentry]
  refine .bind (succeeds_emitInt .pushReturn rfl 0 s₁) fun back s₂ hback hemit => ?_
  have hahead₂ := hahead₁.stay hemit.2
  refine .bind (succeeds_advance hahead₂ (by simp)) fun _ s₃ _ hw₃ => ?_
  have hahead₃ := hahead₂.pass hw₃
  have hscoped₃ : ∀ e ∈ arguments, e.Scoped s₃.book.names := by
    rw [hw₃.names, hemit.2.names]
    exact hscoped
  refine .bind (accepted_arguments arguments (hahead₃.mono (by omega)) hscoped₃)
    fun _ s₄ _ harguments => ?_
  refine .bind (succeeds_expectSign (hahead₃.writes harguments.writes)) fun _ s₅ _ hw₅ => ?_
  refine .bind (succeeds_emitInt .call rfl entry s₅) fun _ s₆ _ hcall => ?_
  have hcalls := Calls.of_parts hback hw₃ harguments hw₅ hcall.2
  obtain ⟨s₇, hland⟩ := exists_land_since hcalls.advances hcalls.back
  exact ⟨(), s₇, hland, hcalls.reads hw₁ hentries hf hland h.sound⟩

/-! ## Indentation -/

/-- Indentation in front of what is none is passed in whole or up to some of it. -/
theorem exists_indents {j k : Nat} {ts us : List Terminal} (h : indents j ++ ts = indents k ++ us)
    (hus : us.head? ≠ some .indent) : ∃ i, k = j + i ∧ ts = indents i ++ us := by
  induction j generalizing k with
  | zero => exact ⟨k, by simp, h⟩
  | succ j ih =>
    cases k with
    | zero =>
      rw [indents_zero, List.nil_append] at h
      rw [← h] at hus
      exact absurd rfl hus
    | succ k =>
      obtain ⟨i, rfl, hts⟩ := ih (List.cons.inj h).2
      exact ⟨i, by omega, hts⟩

theorem indents_cancel {j k : Nat} {ts us : List Terminal} (h : indents j ++ ts = indents k ++ us)
    (hts : ts.head? ≠ some .indent) (hus : us.head? ≠ some .indent) : j = k := by
  obtain ⟨i, rfl, rfl⟩ := exists_indents h hus
  rw [eq_zero_of_head?_indents hts, Nat.add_zero]

theorem succeeds_skipIndents {k : Nat} {ts : List Terminal}
    (h : Ahead budget reserve s (indents k ++ ts)) (hts : ts.head? ≠ some .indent) :
    Succeeds skipIndents s fun _ s' => Writes s s' (indents k) [] := by
  obtain ⟨t, ht, hk⟩ := h.supplied.ends
  obtain ⟨s', hskip⟩ := exists_skipIndents ⟨t, ht, by simp [hk]⟩
  obtain ⟨j, hw, hnot, -⟩ := skipIndents_ok hskip
  have hsplit := hw.terminals
  rw [h.terminals] at hsplit
  rw [← indents_cancel hsplit hts (head?_terminals_ne hnot)] at hw
  exact ⟨(), s', hskip, hw⟩

theorem exists_goesOn (h : Supplied budget reserve s) (place : Place) :
    ∃ more s', goesOn place s = .ok more s' := by
  unfold goesOn
  rw [bind_of_ok (currentKind_ok s)]
  split
  · exact ⟨false, s, rfl⟩
  · obtain ⟨t, ht, hk⟩ := h.ends
    obtain ⟨s', hskip⟩ := exists_skipIndents ⟨t, ht, by simp [hk]⟩
    exact ⟨_, s', by rw [bind_of_ok hskip, bind_of_ok (currentKind_ok s')]; rfl⟩

theorem succeeds_goesOn {place : Place} {k : Nat} {ts : List Terminal}
    (h : Ahead budget reserve s (indents k ++ ts)) (hts : ts.head? ≠ some .indent) :
    Succeeds (goesOn place) s fun more s' => Writes s s' (indents k) [] ∧
      (place = .topLevel ∨ 0 < k → startsStatement ts = more) ∧
      (more = true → place = .block → 0 < k) := by
  obtain ⟨more, s', hrun⟩ := exists_goesOn h.supplied place
  obtain ⟨j, hw, hnot, hstarts, hblock⟩ := goesOn_ok hrun
  have hsplit := hw.terminals
  rw [h.terminals] at hsplit
  obtain rfl := indents_cancel hsplit hts (head?_terminals_ne hnot)
  rw [← startsStatement_terminals, ← List.append_cancel_left hsplit] at hstarts
  exact ⟨more, s', hrun, hw, hstarts, hblock⟩

/-! ## What stands behind -/

/-- A statement begins with what begins statements. -/
theorem exists_head_reading {st : Statement} {ts : List Terminal} (h : st.Reading ts behind) :
    ∃ t us, ts = t :: us ∧ t.kind.startsStatement = true := by
  cases h <;> exact ⟨_, _, rfl, rfl⟩

theorem startsStatement_append {st : Statement} {ts : List Terminal} (h : st.Reading ts behind)
    (us : List Terminal) : startsStatement (ts ++ us) = true := by
  obtain ⟨t, vs, rfl, ht⟩ := exists_head_reading h
  simpa [startsStatement] using ht

theorem head?_ne_indent {ts : List Terminal} (h : startsStatement ts = true) :
    ts.head? ≠ some .indent := by
  intro hhead
  simp [startsStatement, hhead, Kind.startsStatement] at h

theorem endsExpression_of_startsStatement {ts : List Terminal} (h : startsStatement ts = true) :
    EndsExpression ts := by
  cases ts with
  | nil => simp [EndsExpression, EndsTerm]
  | cons t ts =>
    have hk : t.kind.startsStatement = true := by simpa [startsStatement] using h
    have hends : ∀ k : Kind, k.startsStatement = true →
        multiplicative? k = none ∧ additive? k = none := by
      intro k hk
      cases k with
      | word w => exact ⟨rfl, rfl⟩
      | _ => simp [Kind.startsStatement] at hk <;> exact ⟨rfl, rfl⟩
    exact endsExpression_cons (hends _ hk).1 (hends _ hk).2 ts

theorem endsExpression_indents {ts : List Terminal} (h : EndsExpression ts) (k : Nat) :
    EndsExpression (indents k ++ ts) := by
  cases k with
  | zero => exact h
  | succ k => exact endsExpression_cons rfl rfl _

/-- An expression in front of a sequence of statements ends there. -/
theorem endsExpression_of_reading {place : Place} {b : Block} {us : List Terminal}
    (h : b.Reading place us behind) (hbehind : EndsExpression behind) :
    EndsExpression (us ++ behind) := by
  cases h with
  | nil hindent hstop => exact endsExpression_indents hbehind _
  | cons hblock hs hrest =>
    rw [List.append_assoc, List.append_assoc]
    exact endsExpression_indents
      (endsExpression_of_startsStatement (startsStatement_append hs _)) _

/-! ## Statements with blocks -/

/-- Where these terminals stand ahead and the others behind, they are read as the statement. -/
def AcceptedStatement (st : Statement) (ts behind : List Terminal) : Prop :=
  ∀ {budget : Nat} {s : State}, Ahead budget 2 s (ts ++ behind) →
    st.Scoped s.book.functionNames s.book.names →
    Succeeds (statementWithin budget) s fun _ s' => ReadsStatement s s' st ts

/-- Where these terminals stand ahead and the others behind, they are read as the block. -/
def AcceptedBlock (b : Block) (ts behind : List Terminal) : Prop :=
  ∀ {budget : Nat} {s : State}, Ahead budget 1 s (ts ++ behind) →
    b.Scoped s.book.functionNames s.book.names →
    Succeeds (blockWithin budget) s fun _ s' => ReadsBlock .block 0 s s' b ts

/-- What a choice and a loop have in common, from the test up to the end of the first block. -/
theorem succeeds_guarded {w : Keyword} {s₁ : State} {c : Condition} {b : Block}
    {ts : List Terminal} {f : Int → Action Unit} {post : Unit → State → Prop}
    (hw₁ : Writes s s₁ [.word w] [])
    (h : Ahead budget 5 s₁ (c.terminals ++ .sign .colon :: (.indent :: ts ++ behind)))
    (hs : s.book.Sound) (htest : c.Scoped s.book.names)
    (hscoped : b.Scoped s.book.functionNames s.book.names)
    (hb : AcceptedBlock b (.indent :: ts) behind)
    (hf : ∀ past s₅, Guarded w past s s₅ c b ts → Succeeds (f past) s₅ post) :
    Succeeds (do
      conditionWithin budget
      expectSign .colon
      let past ← emitInt .jumpIfZero 0
      blockWithin budget
      f past) s₁ post := by
  rw [← hw₁.names] at htest
  refine .bind (condition_reads c (h.mono (by omega)) htest (.inr (endsExpression_cons rfl rfl _)))
    fun _ s₂ _ hc => ?_
  have hahead₂ := h.writes hc.writes
  refine .bind (succeeds_expectSign hahead₂) fun _ s₃ _ hw₃ => ?_
  refine .bind (succeeds_emitInt .jumpIfZero rfl 0 s₃) fun past s₄ h₄ hemit => ?_
  have hahead₄ := (hahead₂.pass hw₃).stay hemit.2
  have hbook : s₄.book = s.book := by
    rw [hemit.2.book, hw₃.book, hc.writes.book, hw₁.book]
  refine .bind (hb (hahead₄.mono (by omega)) (by rw [hbook]; exact hscoped))
    fun _ s₅ _ hb => ?_
  exact hf past s₅ (.of_parts hw₁ hc hw₃ h₄ hb hs)

theorem statementWithin_if {ts : List Terminal}
    (h : Ahead (budget + 1) reserve s (.word .ifWord :: ts)) :
    statementWithin (budget + 1) s = choiceWithin budget s := by
  rw [statementWithin, bind_of_ok (currentKind_ok s), h.kind_mark]

theorem statementWithin_while {ts : List Terminal}
    (h : Ahead (budget + 1) reserve s (.word .whileWord :: ts)) :
    statementWithin (budget + 1) s = loopWithin budget s := by
  rw [statementWithin, bind_of_ok (currentKind_ok s), h.kind_mark]

theorem accepted_choice {c : Condition} {yes : Block} {ts : List Terminal}
    (hyes : AcceptedBlock yes (.indent :: ts) behind)
    (helse : behind.head? ≠ some (.word .elseWord)) :
    AcceptedStatement (.choice c yes)
      (.word .ifWord :: c.terminals ++ .sign .colon :: .indent :: ts) behind := by
  intro budget s h hscoped
  have hts : (.word .ifWord :: c.terminals ++ .sign .colon :: .indent :: ts) ++ behind =
      .word .ifWord :: (c.terminals ++ .sign .colon :: (.indent :: ts ++ behind)) := by
    simp
  rw [hts] at h
  obtain ⟨budget, rfl, hspent⟩ := h.spend
  obtain ⟨budget, rfl, hahead⟩ := hspent.spend
  refine .congr (statementWithin_if h) ?_
  rw [choiceWithin]
  refine .bind (succeeds_expect hahead rfl (by simp) _) fun _ s₁ _ hw₁ => ?_
  refine succeeds_guarded hw₁.2 (hahead.pass hw₁.2) h.sound hscoped.1 hscoped.2 hyes ?_
  intro past s₅ hg
  have hbehind : s₅.terminals.head? ≠ some (.word .elseWord) := by
    rwa [hg.advances.rest (hahead.terminals.trans hts.symm)]
  have hk : s₅.token.kind ≠ .word .elseWord := by
    intro hk
    refine hbehind ?_
    simp [State.terminals, State.tokens, ofToken_eq_mark hk]
  refine .read (currentKind_ok s₅) ?_
  rw [if_neg hk]
  obtain ⟨s₆, hland⟩ := exists_land_since hg.advances hg.past
  exact ⟨(), s₆, hland, hg.choice hk hland⟩

theorem accepted_alternative {c : Condition} {yes no : Block} {ts us : List Terminal}
    (hyes : AcceptedBlock yes (.indent :: ts)
      (.word .elseWord :: .sign .colon :: .indent :: us ++ behind))
    (hno : AcceptedBlock no (.indent :: us) behind) :
    AcceptedStatement (.alternative c yes no)
      (.word .ifWord :: c.terminals ++ .sign .colon :: .indent :: ts ++
        .word .elseWord :: .sign .colon :: .indent :: us) behind := by
  intro budget s h hscoped
  have hts : (.word .ifWord :: c.terminals ++ .sign .colon :: .indent :: ts ++
      .word .elseWord :: .sign .colon :: .indent :: us) ++ behind =
      .word .ifWord :: (c.terminals ++ .sign .colon :: (.indent :: ts ++
        (.word .elseWord :: .sign .colon :: .indent :: us ++ behind))) := by
    simp
  rw [hts] at h
  obtain ⟨budget, rfl, hspent⟩ := h.spend
  obtain ⟨budget, rfl, hahead⟩ := hspent.spend
  refine .congr (statementWithin_if h) ?_
  rw [choiceWithin]
  refine .bind (succeeds_expect hahead rfl (by simp) _) fun _ s₁ _ hw₁ => ?_
  refine succeeds_guarded hw₁.2 (hahead.pass hw₁.2) h.sound hscoped.1 hscoped.2.1 hyes ?_
  intro past s₅ hg
  have hahead₅ : Ahead budget 5 s₅ (.word .elseWord :: .sign .colon :: .indent :: us ++ behind) := by
    refine ⟨(hahead.supplied.advances hg.advances).mono ?_, hg.binds.sound, ?_⟩
    · simp only [List.cons_append, List.length_cons]
      omega
    · exact hg.advances.rest (by rw [hahead.terminals]; simp)
  refine .read (currentKind_ok s₅) ?_
  rw [if_pos hahead₅.kind_mark]
  refine .bind (succeeds_emitInt .jump rfl 0 s₅) fun skip s₆ h₆ hemit => ?_
  have hahead₆ := hahead₅.stay hemit.2
  refine .bind (succeeds_land (hg.unlanded hemit.2) hg.past) fun _ s₇ h₇ hsame => ?_
  have hahead₇ := hahead₆.same hsame.1 hsame.2
  refine .bind (succeeds_advance hahead₇ (by simp)) fun _ s₈ h₈ hw₈ => ?_
  have hahead₈ := hahead₇.pass hw₈
  refine .bind (succeeds_expectSign hahead₈) fun _ s₉ h₉ hw₉ => ?_
  obtain ⟨middle, hw⟩ := hg.switched hahead₅.kind_mark h₆ h₇ h₈ h₉
  have hscoped₉ : no.Scoped s₉.book.functionNames s₉.book.names := by
    rw [hw.binds.functionNames, hw.binds.names]
    exact hscoped.2.2
  refine .bind (hno ((hahead₈.pass hw₉).mono (by omega)) hscoped₉) fun _ s₁₀ _ hb => ?_
  obtain ⟨hall, hpast⟩ := hw.unlanded hb
  obtain ⟨s₁₁, hland⟩ := exists_land_since hall hpast
  exact ⟨(), s₁₁, hland, hw.alternative hg hb hland⟩

theorem accepted_loop {c : Condition} {body : Block} {ts : List Terminal}
    (hbody : AcceptedBlock body (.indent :: ts) behind) :
    AcceptedStatement (.loop c body)
      (.word .whileWord :: c.terminals ++ .sign .colon :: .indent :: ts) behind := by
  intro budget s h hscoped
  have hts : (.word .whileWord :: c.terminals ++ .sign .colon :: .indent :: ts) ++ behind =
      .word .whileWord :: (c.terminals ++ .sign .colon :: (.indent :: ts ++ behind)) := by
    simp
  rw [hts] at h
  obtain ⟨budget, rfl, hspent⟩ := h.spend
  obtain ⟨budget, rfl, hahead⟩ := hspent.spend
  refine .congr (statementWithin_while h) ?_
  rw [loopWithin]
  refine .bind (succeeds_expect hahead rfl (by simp) _) fun _ s₁ _ hw₁ => ?_
  refine .read (a := s₁.log.size) rfl ?_
  refine succeeds_guarded hw₁.2 (hahead.pass hw₁.2) h.sound hscoped.1 hscoped.2 hbody ?_
  intro past s₅ hg
  have htop : (s₁.log.size : Int) = (s.code.length : Nat) := by
    rw [State.size_log, hw₁.2.length_code]
    simp
  rw [htop]
  refine .bind (succeeds_emitInt .jump rfl _ s₅) fun _ s₆ _ hemit => ?_
  obtain ⟨s₇, hland⟩ := exists_land_since (hg.unlanded hemit.2) hg.past
  exact ⟨(), s₇, hland, hg.loop hemit.2 hland⟩

/-! ## Sequences of statements -/

/-- Where these terminals stand ahead and the others behind, they are read as the statements of a
sequence after the first. -/
def AcceptedMore (place : Place) (b : Block) (ts behind : List Terminal) : Prop :=
  ∀ {budget : Nat} {s : State}, Ahead budget 3 s (ts ++ behind) →
    b.Scoped s.book.functionNames s.book.names →
    Succeeds (moreStatementsWithin budget place) s fun _ s' => ReadsBlock place 0 s s' b ts

/-- A statement and the statements after it. -/
theorem succeeds_sequence {place : Place} {j k : Nat} {st : Statement} {rest : Block}
    {ts us : List Terminal} {s₁ : State} (hw : Writes s s₁ (indents k) [])
    (h : Ahead budget 2 s₁ (ts ++ (us ++ behind))) (hs : s.book.Sound)
    (hplace : place = .block → 0 < j + k)
    (hscoped : (Block.cons st rest).Scoped s.book.functionNames s.book.names)
    (hreading : st.Reading ts (us ++ behind))
    (hst : AcceptedStatement st ts (us ++ behind)) (hrest : AcceptedMore place rest us behind) :
    Succeeds (statementWithin budget >>= fun _ => moreStatementsWithin budget place) s₁
      fun _ s' => ReadsBlock place j s s' (.cons st rest) (indents k ++ ts ++ us) := by
  rw [← hw.book] at hscoped
  refine .bind (hst h hscoped.1) fun _ s₂ _ hreads => ?_
  have hscoped₂ : rest.Scoped s₂.book.functionNames s₂.book.names := by
    rw [hreads.binds.functionNames, hreads.binds.names]
    exact hscoped.2
  obtain ⟨t, vs, rfl, -⟩ := exists_head_reading hreading
  have hahead := (h.advances hreads.advances hreads.binds.sound).mono
    (show 3 ≤ 2 + 5 * (t :: vs).length by simp; omega)
  obtain ⟨_, s₃, hrun, hb⟩ := hrest hahead hscoped₂
  exact ⟨(), s₃, hrun, .cons hs hw hplace hreads hb⟩

theorem acceptedMore_nil {place : Place} {k : Nat} (hindent : behind.head? ≠ some .indent)
    (hstop : place = .topLevel ∨ 0 < k → startsStatement behind = false) :
    AcceptedMore place .nil (indents k) behind := by
  intro budget s h hscoped
  obtain ⟨budget, rfl, hahead⟩ := h.spend
  rw [moreStatementsWithin]
  refine .bind (succeeds_goesOn hahead hindent) fun more s₁ _ hmore => ?_
  obtain ⟨hw, hstarts, hblock⟩ := hmore
  have hnot : more = false := by
    by_contra htrue
    have hplace : place = .topLevel ∨ 0 < k := by
      cases place with
      | topLevel => exact .inl rfl
      | block => exact .inr (hblock (by simpa using htrue) rfl)
    rw [← hstarts hplace, hstop hplace] at htrue
    exact htrue rfl
  rw [hnot]
  have hterminals := (hahead.writes hw).terminals
  refine ⟨(), s₁, rfl, .nil h.sound hw ?_ ?_⟩
  · rwa [hterminals]
  · rwa [hterminals, Nat.zero_add]

theorem acceptedMore_cons {place : Place} {k : Nat} {st : Statement} {rest : Block}
    {ts us : List Terminal} (hplace : place = .block → 0 < k) (hreading : st.Reading ts (us ++ behind))
    (hst : AcceptedStatement st ts (us ++ behind)) (hrest : AcceptedMore place rest us behind) :
    AcceptedMore place (.cons st rest) (indents k ++ ts ++ us) behind := by
  intro budget s h hscoped
  rw [List.append_assoc, List.append_assoc] at h
  have hstart := startsStatement_append hreading (us ++ behind)
  obtain ⟨budget, rfl, hahead⟩ := h.spend
  rw [moreStatementsWithin]
  refine .bind (succeeds_goesOn hahead (head?_ne_indent hstart)) fun more s₁ _ hmore => ?_
  obtain ⟨hw, hstarts, -⟩ := hmore
  have htrue : more = true := by
    rw [← hstarts ?_, hstart]
    cases place with
    | topLevel => exact .inl rfl
    | block => exact .inr (hplace rfl)
  rw [if_pos htrue]
  exact succeeds_sequence hw ((hahead.writes hw).mono (by omega)) h.sound (by simpa using hplace)
    hscoped hreading hst hrest

/-- The same for a whole sequence, where indentation has been passed in front of it. -/
def AcceptedStatements (place : Place) (b : Block) (ts behind : List Terminal) : Prop :=
  ∀ {budget j : Nat} {s : State} {us : List Terminal}, ts = indents j ++ us →
    Ahead budget 3 s (us ++ behind) → (place = .block → 0 < j) →
    b.Scoped s.book.functionNames s.book.names →
    Succeeds (statementsWithin budget place) s fun _ s' => ReadsBlock place j s s' b us

theorem acceptedStatements_nil {place : Place} {k : Nat} (hindent : behind.head? ≠ some .indent)
    (hstop : place = .topLevel ∨ 0 < k → startsStatement behind = false) :
    AcceptedStatements place .nil (indents k) behind := by
  intro budget j s us hus h hplace hscoped
  have hsplit : indents j ++ us = indents k ++ [] := by rw [← hus, List.append_nil]
  obtain ⟨i, rfl, rfl⟩ := exists_indents hsplit (by simp)
  rw [List.append_nil] at h ⊢
  have hplace' : place = .topLevel ∨ 0 < j + i := by
    cases place with
    | topLevel => exact .inl rfl
    | block => exact .inr (Nat.add_pos_left (hplace rfl) i)
  obtain ⟨budget, rfl, hahead⟩ := h.spend
  rw [statementsWithin]
  refine .bind (succeeds_skipIndents hahead hindent) fun _ s₁ _ hw => ?_
  have hterminals := (hahead.writes hw).terminals
  refine .read (currentKind_ok s₁) ?_
  rw [← startsStatement_terminals, hterminals, hstop hplace']
  refine ⟨(), s₁, rfl, .nil h.sound hw ?_ ?_⟩
  · rwa [hterminals]
  · rwa [hterminals]

theorem acceptedStatements_cons {place : Place} {k : Nat} {st : Statement} {rest : Block}
    {ts us : List Terminal} (hreading : st.Reading ts (us ++ behind))
    (hst : AcceptedStatement st ts (us ++ behind)) (hrest : AcceptedMore place rest us behind) :
    AcceptedStatements place (.cons st rest) (indents k ++ ts ++ us) behind := by
  intro budget j s vs hvs h hplace hscoped
  have hstart := startsStatement_append hreading us
  rw [List.append_assoc] at hvs
  obtain ⟨i, rfl, rfl⟩ := exists_indents hvs.symm (head?_ne_indent hstart)
  have hstart' := startsStatement_append hreading (us ++ behind)
  rw [List.append_assoc, List.append_assoc] at h
  obtain ⟨budget, rfl, hahead⟩ := h.spend
  rw [statementsWithin]
  refine .bind (succeeds_skipIndents hahead (head?_ne_indent hstart')) fun _ s₁ _ hw => ?_
  have hahead₁ := hahead.writes hw
  refine .read (currentKind_ok s₁) ?_
  rw [← startsStatement_terminals, hahead₁.terminals, if_pos hstart', ← List.append_assoc]
  exact succeeds_sequence hw (hahead₁.mono (by omega)) h.sound
    (fun hp => Nat.add_pos_left (hplace hp) i) hscoped hreading hst hrest

theorem acceptedBlock_of_statements {b : Block} {ts : List Terminal}
    (hb : AcceptedStatements .block b (.indent :: ts) behind) :
    AcceptedBlock b (.indent :: ts) behind := by
  intro budget s h hscoped
  obtain ⟨budget, rfl, hahead⟩ := h.spend
  rw [blockWithin]
  refine .bind (succeeds_expect hahead rfl (by simp) _) fun _ s₁ _ hw => ?_
  rw [← hw.2.book] at hscoped
  obtain ⟨_, s₂, hrun, hreads⟩ := hb (j := 1) rfl ((hahead.pass hw.2).mono (by omega)) (by simp) hscoped
  exact ⟨(), s₂, hrun, .block hw.2 hreads h.sound⟩

/-! ## Readings are accepted -/

mutual

/-- A statement that can be read of the terminals ahead is read. -/
theorem accepted_statement : ∀ {st : Statement} {ts behind : List Terminal}, st.Reading ts behind →
    EndsExpression behind → AcceptedStatement st ts behind
  | _, _, _, .print e _, _ => fun h hscoped => accepted_print e h hscoped
  | _, _, _, .assign x e _, hbehind => fun h hscoped => accepted_assign x e h hscoped hbehind
  | _, _, _, .call f arguments _, _ => fun h hscoped => accepted_call f arguments h hscoped
  | _, _, _, .choice hyes helse, hbehind =>
    accepted_choice (acceptedBlock_of_statements (accepted_statements hyes hbehind)) helse
  | _, _, _, .alternative hyes hno, hbehind =>
    accepted_alternative
      (acceptedBlock_of_statements (accepted_statements hyes (endsExpression_cons rfl rfl _)))
      (acceptedBlock_of_statements (accepted_statements hno hbehind))
  | _, _, _, .loop hbody, hbehind =>
    accepted_loop (acceptedBlock_of_statements (accepted_statements hbody hbehind))

/-- The same for statements after a first one. -/
theorem accepted_more : ∀ {place : Place} {b : Block} {ts behind : List Terminal},
    b.Reading place ts behind → EndsExpression behind → AcceptedMore place b ts behind
  | _, _, _, _, .nil hindent hstop, _ => acceptedMore_nil hindent hstop
  | _, _, _, _, .cons hplace hs hrest, hbehind =>
    acceptedMore_cons hplace hs
      (accepted_statement hs (endsExpression_of_reading hrest hbehind)) (accepted_more hrest hbehind)

/-- The same for a whole sequence of statements. -/
theorem accepted_statements : ∀ {place : Place} {b : Block} {ts behind : List Terminal},
    b.Reading place ts behind → EndsExpression behind → AcceptedStatements place b ts behind
  | _, _, _, _, .nil hindent hstop, _ => acceptedStatements_nil hindent hstop
  | _, _, _, _, .cons _ hs hrest, hbehind =>
    acceptedStatements_cons hs
      (accepted_statement hs (endsExpression_of_reading hrest hbehind)) (accepted_more hrest hbehind)

end

end StackPrimer.Compilation

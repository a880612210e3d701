import StackPrimer.Proofs.Acceptance.Front
import StackPrimer.Proofs.Failure.SourceText
import StackPrimer.Proofs.Grammar.Variables
import StackPrimer.Proofs.Scanning.BlankLine

/-!
# Blank lines that do not matter

The spaces and tabs of a blank line are indentation like any other: they may be in the way inside of a
statement, they begin a block behind a colon, and behind a block they take the next statement into it.
Elsewhere it does not matter whether they are there.

Results:
* `streams_of_marks`: next to other indentation, and in front of an `else` or the end, both streams
  correspond.
* `agree_of_closed`: between statements, and among declarations of new variables, both compilations
  come to the same point with the same names and the same code.
* `agree_of_open`: so they do behind a block where no statement follows.
* `BlankLine.compiles_alike`: what a blank line does to the outcome.
-/

namespace StackPrimer

namespace Compilation

open Grammar

/-! ## Streams with and without some indentation -/

section Streams

variable {c : Pairing} {front marks behind others ts us : List Token}

theorem sameHead_of_forall₂ (h : List.Forall₂ c.same ts us) : SameHead ts us := by
  cases h with
  | nil => rfl
  | cons hsame _ => simp [SameHead, c.kind_eq hsame]

/-- What corresponds to two parts has two parts. -/
theorem exists_append_of_forall₂ {r : Token → Token → Prop} {ts ts' us : List Token}
    (h : List.Forall₂ r (ts ++ ts') us) :
    ∃ vs vs', us = vs ++ vs' ∧ List.Forall₂ r ts vs ∧ List.Forall₂ r ts' vs' :=
  ⟨_, _, (List.take_append_drop ts.length us).symm, (List.forall₂_take_append us ts ts' h.flip).flip,
    (List.forall₂_drop_append us ts ts' h.flip).flip⟩

/-- Streams whose tokens correspond one by one correspond. -/
theorem Streams.of_forall₂ (h : List.Forall₂ c.same ts us) : Streams c ts us := by
  induction h with
  | nil => exact .nil
  | cons hsame hrest ih => exact .token hsame (fun _ => sameHead_of_forall₂ hrest) ih

/-- They are settled if they do not begin with indentation. -/
theorem settled_of_forall₂ (h : List.Forall₂ c.same ts us) (hne : ts ≠ [])
    (hhead : ∀ t ∈ ts.head?, t.kind ≠ .indent) : Settled c ts us := by
  cases h with
  | nil => exact absurd rfl hne
  | @cons t u ts us hsame hrest =>
    exact ⟨t, u, hhead t rfl, ts, us, rfl, rfl, hsame, .of_forall₂ hrest,
      fun _ => sameHead_of_forall₂ hrest⟩

/-- The same tokens in front of streams that correspond. -/
theorem Streams.append_left (hc : ∀ t, c.same t t) (h : Streams c ts us)
    (hlevel : ∀ t ∈ front.getLast?, t.kind = .sign .colon → SameHead ts us) :
    Streams c (front ++ ts) (front ++ us) := by
  induction front with
  | nil => exact h
  | cons f front ih =>
    cases front with
    | nil => exact .token (hc f) (hlevel f rfl) h
    | cons g front => exact .token (hc f) (fun _ => rfl) (ih (by simpa using hlevel))

/-- In a stream with an end there is something behind the indentation in front. -/
theorem exists_behind_indents (h : List.Forall₂ c.same ts us)
    (hfinish : ∃ t ∈ ts, t.kind = .finish) :
    ∃ ms ns t u ts' us', ts = ms ++ t :: ts' ∧ us = ns ++ u :: us' ∧
      (∀ m ∈ ms, m.kind = .indent) ∧ (∀ n ∈ ns, n.kind = .indent) ∧ (ms = [] ↔ ns = []) ∧
      t.kind ≠ .indent ∧ c.same t u ∧ List.Forall₂ c.same ts' us' := by
  induction h with
  | nil => simp at hfinish
  | @cons t u ts us hsame hrest ih =>
    by_cases hk : t.kind = .indent
    · have hfinish' : ∃ v ∈ ts, v.kind = .finish := by
        obtain ⟨v, hv, hvk⟩ := hfinish
        refine ⟨v, (List.mem_cons.mp hv).resolve_left ?_, hvk⟩
        rintro rfl
        rw [hk] at hvk
        cases hvk
      obtain ⟨ms, ns, v, w, vs, ws, rfl, rfl, hms, hns, -, hrest'⟩ := ih hfinish'
      refine ⟨t :: ms, u :: ns, v, w, vs, ws, rfl, rfl, ?_, ?_, by simp, hrest'⟩
      · exact List.forall_mem_cons.mpr ⟨hk, hms⟩
      · exact List.forall_mem_cons.mpr ⟨(c.kind_eq hsame).trans hk, hns⟩
    · exact ⟨[], [], t, u, ts, us, rfl, rfl, by simp, by simp, Iff.rfl, hk, hsame, hrest⟩

/-- An `else` or the end comes next. -/
def BeforeClosing (ts : List Token) : Prop :=
  ∃ t ∈ ts.head?, t.kind = .finish ∨ t.kind = .word .elseWord

/-- Next to other indentation, and in front of an `else` or the end, it does not matter whether there
is some more indentation, except behind a colon. -/
theorem streams_of_marks (hc : ∀ t, c.same t t) (hne : marks ≠ [])
    (hmarks : ∀ t ∈ marks, t.kind = .indent) (hbehind : List.Forall₂ c.same behind others)
    (hfinish : ∃ t ∈ behind, t.kind = .finish) (hself : ∀ t, c.apart t t)
    (hapart : ∀ v ∈ marks, ∀ w ∈ others.head?, c.apart v w)
    (hplace : (∃ t ∈ front.getLast?, t.kind = .indent) ∨ (∃ t ∈ behind.head?, t.kind = .indent) ∨
      BeforeClosing behind ∧ ∀ t ∈ front.getLast?, t.kind ≠ .sign .colon) :
    Streams c (front ++ (marks ++ behind)) (front ++ others) := by
  obtain ⟨ms, ns, t, u, ts, us, rfl, rfl, hms, hns, hiff, hk, hsame, hrest⟩ :=
    exists_behind_indents hbehind hfinish
  have hlevel := fun _ : t.kind = .sign .colon => sameHead_of_forall₂ hrest
  have hleft : ∀ m ∈ marks ++ ms, m.kind = .indent :=
    fun m hm => (List.mem_append.mp hm).elim (hmarks m) (hms m)
  have hfirst : ∀ v ∈ (marks ++ ms ++ t :: ts).head?, ∀ w ∈ (ns ++ u :: us).head?,
      c.apart v w := by
    intro v hv
    obtain ⟨m, marks, rfl⟩ := List.exists_cons_of_ne_nil hne
    exact hapart v (by simp at hv; simp [hv])
  rcases hplace with ⟨i, hi, hik⟩ | ⟨i, hi, hik⟩ | ⟨⟨v, hv, hvk⟩, hcolon⟩
  · -- the indentation in front is part of that on both sides
    obtain ⟨fs, rfl⟩ := List.getLast?_eq_some_iff.mp hi
    have hgap : Streams c ((i :: (marks ++ ms)) ++ t :: ts) ((i :: ns) ++ u :: us) :=
      .gap (List.forall_mem_cons.mpr ⟨hik, hleft⟩) (List.forall_mem_cons.mpr ⟨hik, hns⟩)
        (by simpa using hself i) (.inl (by simp)) hk hsame hlevel (.of_forall₂ hrest)
    have hwhole : Streams c (fs ++ _) (fs ++ _) := hgap.append_left hc fun _ _ _ => rfl
    simpa using hwhole
  · -- the indentation behind is
    have hmsne : ms ≠ [] := by
      rintro rfl
      simp only [List.nil_append, List.head?_cons, Option.mem_def, Option.some.injEq] at hi
      exact hk (hi ▸ hik)
    have hnsne : ns ≠ [] := fun h => hmsne (hiff.mpr h)
    have hgap : Streams c ((marks ++ ms) ++ t :: ts) (ns ++ u :: us) :=
      .gap hleft hns hfirst (.inl ⟨by simp [hne], hnsne⟩) hk hsame hlevel (.of_forall₂ hrest)
    rw [← List.append_assoc marks]
    refine hgap.append_left hc fun _ _ _ => ?_
    obtain ⟨m, marks, rfl⟩ := List.exists_cons_of_ne_nil hne
    obtain ⟨n, ns, rfl⟩ := List.exists_cons_of_ne_nil hnsne
    simp [SameHead, hmarks m, hns n]
  · obtain rfl : ms = [] := by
      cases ms with
      | nil => rfl
      | cons m ms =>
        simp only [List.cons_append, List.head?_cons, Option.mem_def, Option.some.injEq] at hv
        rw [← hv, hms m (List.mem_cons_self ..)] at hvk
        rcases hvk with hvk | hvk <;> cases hvk
    simp only [List.nil_append, List.head?_cons, Option.mem_def, Option.some.injEq] at hv
    have hgap : Streams c ((marks ++ []) ++ t :: ts) (ns ++ u :: us) :=
      .gap hleft hns hfirst (.inr (hv ▸ hvk)) hk hsame hlevel (.of_forall₂ hrest)
    rw [List.append_nil] at hgap
    exact hgap.append_left hc fun f hf hfk => absurd hfk (hcolon f hf)

end Streams

/-! ## Compilations that come to the same point -/

/-- Tokens correspond if they differ in nothing but where they stand. -/
def alikePairing (apart : Token → Token → Prop) : Pairing where
  rename := id
  injective := Function.injective_id
  same := Token.Alike
  apart := apart
  kind_eq h := h.kind.symm
  name_eq h _ := h.lexeme.symm
  number_eq h _ := h.lexeme.symm

section Arrivals

variable {apart : Token → Token → Prop} {s s' : State} {source source' : Grammar.Source}
  {fs gs ms ns rest rest' : List Token} {b : Nat}

theorem ofToken_alike {t u : Token} (h : t.Alike u) : Terminal.ofToken u = Terminal.ofToken t := by
  unfold Terminal.ofToken
  rw [h.kind, h.lexeme]

theorem map_ofToken_alike (h : List.Forall₂ Token.Alike rest rest') :
    rest'.map Terminal.ofToken = rest.map Terminal.ofToken := by
  induction h with
  | nil => rfl
  | cons h _ ih => rw [List.map_cons, List.map_cons, ofToken_alike h, ih]

theorem map_ofToken_indents (h : ∀ m ∈ ms, m.kind = .indent) :
    ms.map Terminal.ofToken = indents ms.length := by
  refine List.eq_replicate_iff.mpr ⟨by simp, fun t ht => ?_⟩
  obtain ⟨m, hm, rfl⟩ := List.mem_map.mp ht
  rw [ofToken_eq_mark (h m hm) (by simp) (by simp)]

theorem kind_of_map_eq_indents {k : Nat} (h : ms.map Terminal.ofToken = indents k) {m : Token}
    (hm : m ∈ ms) : m.kind = .indent := by
  have hmem : Terminal.ofToken m ∈ indents k := h ▸ List.mem_map_of_mem hm
  rw [← Terminal.kind_ofToken, List.eq_of_mem_replicate hmem]
  rfl

/-- A budget that is large enough for a compilation is enough for what stands ahead. -/
theorem ahead_of_budget (hb : s.budget ≤ b) (hfinish : ∃ t ∈ s.tokens, t.kind = .finish)
    (hbook : s.book = {}) : Ahead b 3 s s.terminals := by
  refine ⟨⟨hfinish, ?_⟩, by rw [hbook]; exact AddressBook.sound_empty, rfl⟩
  unfold State.budget at hb
  omega

/-- Behind what has been passed there is what stood behind it, and maybe indentation in front. -/
theorem exists_tokens_behind {us : List Terminal} {k : Nat} {is : List Instruction}
    (h : Advances s s' us is) (htokens : s.tokens = fs ++ rest)
    (hfs : fs.map Terminal.ofToken = us ++ indents k) :
    ∃ ms, s'.tokens = ms ++ rest ∧ ms.map Terminal.ofToken = indents k := by
  obtain ⟨passed, hpassed, rfl, -⟩ := h.tokens
  obtain ⟨front, ms, rfl, hfront, hms⟩ := List.map_eq_append_iff.mp hfs
  have hlength : passed.length = front.length := by
    simpa using (congrArg List.length hfront).symm
  rw [htokens, List.append_assoc] at hpassed
  obtain ⟨rfl, htail⟩ := List.append_inj hpassed hlength.symm
  exact ⟨ms, htail.symm, hms⟩

/-- Behind fronts with the same names and the same code the states correspond. -/
theorem states_of_fronts {p : Side} (hsame : source.Same source') (h : HoldsFront source s)
    (h' : HoldsFront source' s') (htokens : p s.tokens s'.tokens) :
    (alikePairing apart).States p s s' where
  tokens := htokens
  book := by
    refine ⟨h.sound, h'.sound, ?_, ?_, fun f => ?_⟩
    · rw [h'.names, hsame.names, ← h.names]
      simp [Names.rename, alikePairing]
    · rw [h'.functionNames, hsame.functionNames, ← h.functionNames]
      simp [alikePairing]
    · rw [h'.entries, hsame.entries, ← h.entries]
      rfl
  log := by
    have hcode : s'.code = s.code :=
      List.append_cancel_right (h'.code.trans (hsame.code.trans h.code.symm))
    exact congrArg Log.mk (Array.toList_inj.mp hcode)

/-- These tokens are a program of their own that does not end with a block. -/
structure IsClosed (source : Grammar.Source) (fs : List Token) : Prop where
  reading : source.Reading (fs.map Terminal.ofToken) [.mark .finish]
  wellScoped : source.Scoped
  closed : source.leavesOpen = false

/-- What stands here is no more of the last statement of a program and, if there have been no
statements, no declaration. -/
structure Parts (source : Grammar.Source) (rest : List Token) : Prop where
  expression : EndsExpression (rest.map Terminal.ofToken)
  declarations : source.statements = .nil →
    EndsDeclarations (functionsBehind [] source.declarations) (rest.map Terminal.ofToken)

/-- Behind a program of its own at the front, the compilation goes on with statements. -/
theorem IsClosed.arrives (h : IsClosed source fs) (hparts : Parts source rest)
    (hms : ∀ m ∈ ms, m.kind = .indent) (hfinish : ∃ t ∈ rest, t.kind = .finish)
    (htokens : s.tokens = fs ++ (ms ++ rest)) (hbook : s.book = {}) (hlog : s.log = {})
    (hb : s.budget ≤ b) :
    ∃ s₁, HoldsFront source s₁ ∧ afterIndents s₁.tokens = afterIndents rest ∧
      programWithin (b + source.statements.count) s =
        (statementsWithin b .topLevel >>= fun _ => endingWithin) s₁ := by
  have hfinish' : ∃ t ∈ s.tokens, t.kind = .finish := by
    obtain ⟨t, ht, hk⟩ := hfinish
    exact ⟨t, by simp [htokens, ht], hk⟩
  have hterminals : s.terminals =
      fs.map Terminal.ofToken ++ (indents ms.length ++ rest.map Terminal.ofToken) := by
    rw [State.terminals, htokens, List.map_append, List.map_append, map_ofToken_indents hms]
  have hahead := ahead_of_budget (b := b + source.statements.count) (by omega) hfinish' hbook
  rw [hterminals] at hahead
  obtain ⟨s₁, us, k, is, hus, hadv, hholds, hrun⟩ := program_front h.reading h.wellScoped h.closed
    (endsExpression_indents hparts.expression _)
    (fun hnil => endsDeclarations_indents (hparts.declarations hnil) _) hahead hbook
    (by rw [State.code, hlog])
  obtain ⟨more, hmore, hindents⟩ := exists_tokens_behind hadv htokens hus
  refine ⟨s₁, hholds, ?_, by rw [hrun, Nat.add_sub_cancel]⟩
  rw [hmore, afterIndents_append fun m hm => kind_of_map_eq_indents hindents hm,
    afterIndents_append hms]

/-- The fronts of both streams are programs of their own that mean the same: then indentation behind
them does not matter. -/
theorem agree_of_closed (hsame : source.Same source') (h : IsClosed source fs)
    (h' : IsClosed source' gs) (hparts : Parts source rest) (hparts' : Parts source' rest)
    (hms : ∀ m ∈ ms, m.kind = .indent) (hns : ∀ n ∈ ns, n.kind = .indent)
    (hrest : List.Forall₂ Token.Alike rest rest') (hfinish : ∃ t ∈ rest, t.kind = .finish) :
    (alikePairing apart).Agree (compileTokens (fs ++ (ms ++ rest)))
      (compileTokens (gs ++ (ns ++ rest'))) := by
  have hstreams : Streams (alikePairing apart) rest rest' := .of_forall₂ hrest
  have hfinish' := hstreams.exists_finish hfinish
  have hparts'' : Parts source' rest' := by
    refine ⟨?_, ?_⟩ <;> rw [map_ofToken_alike hrest]
    · exact hparts'.expression
    · exact hparts'.declarations
  refine agree_of_runs (q := Settled (alikePairing apart))
    (exists_finish_append _ (exists_finish_append _ hfinish))
    (exists_finish_append _ (exists_finish_append _ hfinish'))
    fun s s' hs hs' _ hbook hbook' hlog hlog' => ?_
  set b := max s.budget s'.budget
  have hb : s.budget ≤ b := Nat.le_max_left ..
  have hb' : s'.budget ≤ b := Nat.le_max_right ..
  obtain ⟨s₁, hholds, hbehind, hrun⟩ := h.arrives hparts hms hfinish hs hbook hlog hb
  obtain ⟨s₁', hholds', hbehind', hrun'⟩ := h'.arrives hparts'' hns hfinish' hs' hbook' hlog' hb'
  refine ⟨b + source.statements.count, b + source'.statements.count, by omega, by omega, ?_⟩
  have hloose : Loose (alikePairing apart) s₁.tokens s₁'.tokens := by
    rw [Loose, hbehind, hbehind']
    exact hstreams.loose
  rw [hrun, hrun']
  exact ((statementsInStep _ b).statements .topLevel).bind (fun _ _ _ => inStep_ending) s₁ s₁'
    (states_of_fronts hsame hholds hholds' hloose)

/-- What is left behind a program that ends with a block is in step. -/
theorem inStep_remaining {c : Pairing} (b : Nat) (source : Grammar.Source) :
    InStep c (Settled c) (remainingWithin b source) (remainingWithin b source) Eq (Settled c) := by
  unfold remainingWithin
  split
  · refine ((inStep_declarations _).weaken Settled.streams).bind fun _ _ _ => ?_
    exact (((statementsInStep c b).statements .topLevel).weaken Streams.loose).bind fun _ _ _ =>
      inStep_ending
  · exact inStep_ending

/-- These tokens are a program that ends with a block, and what stands behind it is no statement and no
more of the last one. -/
structure IsOpen (source : Grammar.Source) (fs rest : List Token) : Prop where
  reading : source.Reading (fs.map Terminal.ofToken) (rest.map Terminal.ofToken)
  wellScoped : source.Scoped
  isOpen : source.leavesOpen = true
  stop : startsStatement (rest.map Terminal.ofToken) = false
  expression : EndsExpression (rest.map Terminal.ofToken)

/-- The block takes the indentation behind it. -/
theorem IsOpen.indented (h : IsOpen source fs rest) (hms : ∀ m ∈ ms, m.kind = .indent) :
    IsOpen source (fs ++ ms) rest := by
  refine { h with reading := ?_ }
  rw [List.map_append, map_ofToken_indents hms]
  exact h.reading.indented h.isOpen h.stop

theorem IsOpen.of_alike (h : IsOpen source fs rest) (hrest : List.Forall₂ Token.Alike rest rest') :
    IsOpen source fs rest' := by
  have heq := map_ofToken_alike hrest
  exact ⟨heq ▸ h.reading, h.wellScoped, h.isOpen, heq ▸ h.stop, heq ▸ h.expression⟩

/-- Behind the block the compilation goes on with what is left. -/
theorem IsOpen.arrives (h : IsOpen source fs rest) (hfinish : ∃ t ∈ rest, t.kind = .finish)
    (htokens : s.tokens = fs ++ rest) (hbook : s.book = {}) (hlog : s.log = {})
    (hb : s.budget ≤ b) :
    ∃ s₁, HoldsFront source s₁ ∧ s₁.tokens = rest ∧
      programWithin b s = remainingWithin b source s₁ := by
  have hfinish' : ∃ t ∈ s.tokens, t.kind = .finish := by
    obtain ⟨t, ht, hk⟩ := hfinish
    exact ⟨t, by simp [htokens, ht], hk⟩
  have hahead := ahead_of_budget hb hfinish' hbook
  rw [State.terminals, htokens, List.map_append] at hahead
  obtain ⟨s₁, is, hadv, hholds, hrun⟩ := program_open h.reading h.wellScoped h.isOpen h.expression
    hahead hbook (by rw [State.code, hlog])
  obtain ⟨more, hmore, hnil⟩ :=
    exists_tokens_behind (k := 0) hadv htokens (by simp [indents])
  obtain rfl := List.map_eq_nil_iff.mp hnil
  exact ⟨s₁, hholds, hmore, hrun⟩

/-- The front is a program that ends with a block, and no statement follows: then indentation behind
it does not matter. -/
theorem agree_of_open (h : IsOpen source fs rest) (hms : ∀ m ∈ ms, m.kind = .indent)
    (hrest : List.Forall₂ Token.Alike rest rest') (hfinish : ∃ t ∈ rest, t.kind = .finish) :
    (alikePairing apart).Agree (compileTokens (fs ++ (ms ++ rest))) (compileTokens (fs ++ rest')) := by
  have hfinish' : ∃ u ∈ rest', u.kind = .finish :=
    (Streams.of_forall₂ (c := alikePairing apart) hrest).exists_finish hfinish
  -- no indentation comes next, because the block would take it
  have hsettled : Settled (alikePairing apart) rest rest' := by
    refine settled_of_forall₂ hrest (List.ne_nil_of_mem hfinish.choose_spec.1) fun t ht hk => ?_
    obtain ⟨us, vs, -, hds, hb, -⟩ := h.reading
    refine hb.behind.1 ?_
    rw [List.head?_map, Option.mem_def.mp ht]
    simp [ofToken_eq_mark hk]
  rw [← List.append_assoc]
  refine agree_of_runs (q := Settled (alikePairing apart)) (exists_finish_append _ hfinish)
    (exists_finish_append _ hfinish') fun s s' hs hs' _ hbook hbook' hlog hlog' => ?_
  set b := max s.budget s'.budget
  have hb : s.budget ≤ b := Nat.le_max_left ..
  have hb' : s'.budget ≤ b := Nat.le_max_right ..
  obtain ⟨s₁, hholds, htokens, hrun⟩ := (h.indented hms).arrives hfinish hs hbook hlog hb
  obtain ⟨s₁', hholds', htokens', hrun'⟩ :=
    (h.of_alike hrest).arrives hfinish' hs' hbook' hlog' hb'
  refine ⟨b, b, hb, hb', ?_⟩
  rw [hrun, hrun']
  refine inStep_remaining b source s₁ s₁' (states_of_fronts (.refl source) hholds hholds' ?_)
  rwa [htokens, htokens']

end Arrivals

/-! ## Declarations of new variables -/

section Variables

variable {apart : Token → Token → Prop} {ds : List Declaration} {xs : Settings}
  {front marks vs vs' rest rest' : List Token}

/-- These tokens are declarations of which the last one is no function, and declarations of new
variables follow. -/
structure IsVariables (ds : List Declaration) (xs : Settings) (front vs rest : List Token) :
    Prop where
  reading : DeclarationsReading ds (front.map Terminal.ofToken) [.mark .finish]
  closed : ds.getLast?.any Declaration.leavesOpen = false
  settings : vs.map Terminal.ofToken = xs.terminals
  allNew : xs.AllNew (namesBehind {} ds)
  wellScoped : Source.Scoped ⟨ds ++ xs.declarations, .nil⟩
  parts : Parts ⟨ds ++ xs.declarations, .nil⟩ rest
  ends : ∃ t ∈ rest, t.kind = .finish

/-- With indentation in front the variables are set by statements. -/
theorem IsVariables.isClosed_statements (h : IsVariables ds xs front vs rest) (hne : marks ≠ [])
    (hmarks : ∀ m ∈ marks, m.kind = .indent) :
    IsClosed ⟨ds, xs.statements⟩ (front ++ (marks ++ vs)) where
  reading := by
    refine ⟨_, indents marks.length ++ xs.terminals, ?_, h.reading.of_closed h.closed _,
      xs.statements_reading _, fun x hx => ?_⟩
    · rw [List.map_append, List.map_append, map_ofToken_indents hmarks, h.settings]
    · obtain ⟨m, marks, rfl⟩ := List.exists_cons_of_ne_nil hne
      simp [indents, List.replicate_succ] at hx
  wellScoped := h.wellScoped.of_declarations
  closed := by
    cases xs with
    | nil => exact h.closed
    | cons p xs => exact Settings.leavesOpen_statements _

/-- Without it they are declared. -/
theorem IsVariables.isClosed_declarations (h : IsVariables ds xs front vs rest)
    (hvs : vs'.map Terminal.ofToken = vs.map Terminal.ofToken) :
    IsClosed ⟨ds ++ xs.declarations, .nil⟩ (front ++ vs') where
  reading := by
    refine ⟨_, [], ?_, (h.reading.of_closed h.closed _).append (xs.declarations_reading _),
      .nil (k := 0) (by simp) (fun _ => rfl), by simp⟩
    rw [List.map_append, hvs, h.settings, List.append_nil]
  wellScoped := h.wellScoped
  closed := xs.leavesOpen_declarations h.closed

/-- Whether new variables are declared or set by statements does not matter. -/
theorem agree_of_variables (h : IsVariables ds xs front vs rest) (hne : marks ≠ [])
    (hmarks : ∀ m ∈ marks, m.kind = .indent) (hvs : List.Forall₂ Token.Alike vs vs')
    (hrest : List.Forall₂ Token.Alike rest rest') :
    (alikePairing apart).Agree (compileTokens (front ++ (marks ++ (vs ++ rest))))
      (compileTokens (front ++ (vs' ++ rest'))) := by
  have hsame := (Source.same_of_assignments h.allNew).symm
  have hparts : Parts ⟨ds, xs.statements⟩ rest := by
    refine ⟨h.parts.expression, fun _ => ?_⟩
    rw [← hsame.functionNames]
    exact h.parts.declarations rfl
  have hagree : (alikePairing apart).Agree
      (compileTokens ((front ++ (marks ++ vs)) ++ ([] ++ rest)))
      (compileTokens ((front ++ vs') ++ ([] ++ rest'))) :=
    agree_of_closed hsame (h.isClosed_statements hne hmarks)
      (h.isClosed_declarations (map_ofToken_alike hvs)) hparts h.parts (by simp) (by simp) hrest h.ends
  simpa using hagree

end Variables

/-! ## Fronts that fail -/

/-- The compilation of these tokens fails in front of the last one of them. -/
def FailsWithin (front : List Token) : Prop :=
  ∃ t ts last e s, front = t :: ts ∧ last.kind = .finish ∧
    program ⟨t, ts ++ [last], {}, {}⟩ = .error e s ∧ s.upcoming ≠ []

/-- What fails so fails whatever stands behind. -/
theorem FailsWithin.exists_error {front : List Token} (h : FailsWithin front) :
    ∃ e, ∀ rest : List Token, rest ≠ [] → compileTokens (front ++ rest) = .error e := by
  obtain ⟨t, ts, last, e, s, rfl, hlast, hrun, hne⟩ := h
  refine ⟨e, fun rest hrest => ?_⟩
  set s₀ : State := ⟨t, ts, {}, {}⟩ with hs₀
  have hcomplete : Outcome.Complete (program ⟨t, ts ++ [last], {}, {}⟩) :=
    complete_program ⟨last, by simp, hlast⟩
  have hsuffix := (local_program (le_refl (s₀.before [last]).budget)).suffix (s₀.before [last])
  change programWithin (s₀.before [last]).budget (s₀.before [last]) = .error e s at hrun
  rw [hrun] at hsuffix
  obtain ⟨s₁, rfl⟩ : ∃ s₁ : State, s = s₁.before [last] := by
    refine State.exists_before (m := []) ?_
    exact List.suffix_of_suffix_length_le (List.suffix_append ts _) hsuffix
      (List.length_pos_of_ne_nil hne)
  have hbudget : (s₀.before [last]).budget ≤ (s₀.before rest).budget := by
    have := List.length_pos_of_ne_nil hrest
    simp [State.budget, State.before]
    omega
  have hsame : program ⟨t, ts ++ rest, {}, {}⟩ = .error e (s₁.before rest) := by
    refine (local_program hbudget).same s₀ (.error e s₁) [last] rest hrun fun s₂ h₂ => ?_
    cases h₂
    exact hcomplete _ hrun
  rw [List.cons_append, compileTokens_cons, hsame]

/-! ## Outcomes -/

/-- Failures of the same class on the same line. -/
inductive SameFailure : Failure → Failure → Prop
  | unexpected {t u : Token} (e : Expectation) (h : u.line = t.line) :
      SameFailure (.unexpected t e) (.unexpected u e)
  | undeclared {t u : Token} (role : Role) (h : u.line = t.line) :
      SameFailure (.undeclared role t) (.undeclared role u)
  | redefined {t u : Token} (h : u.line = t.line) : SameFailure (.redefined t) (.redefined u)

/-- The same program with as many globals, or failures of the same class on the same line. -/
inductive SameOutcome : Except Failure (Program × Nat) → Except Failure (Program × Nat) → Prop
  | ok (p : Program × Nat) : SameOutcome (.ok p) (.ok p)
  | error {e e' : Failure} (h : SameFailure e e') : SameOutcome (.error e) (.error e')

theorem SameOutcome.isOk_eq {x y : Except Failure (Program × Nat)} (h : SameOutcome x y) :
    y.isOk = x.isOk := by
  cases h <;> rfl

theorem SameFailure.refl {e : Failure} (h : e.Reported) : SameFailure e e := by
  cases h with
  | unexpected t e => exact .unexpected e rfl
  | undeclared role t => exact .undeclared role rfl
  | redefined t => exact .redefined rfl

/-- The failure at one of these tokens becomes one at this other token. -/
def Moved (marks : List Token) (next : Option Token)
    (x y : Except Failure (Program × Nat)) : Prop :=
  ∃ t ∈ marks, ∃ u e, next = some u ∧ x = .error (.unexpected t e) ∧ y = .error (.unexpected u e)

/-- The tokens that stand for one another with and without the indentations of a blank line. -/
abbrev blankPairing (marks others : List Token) : Pairing :=
  alikePairing fun t u => t.Alike u ∨ t ∈ marks ∧ others.head? = some u

theorem outcome_of_agree {marks others : List Token} {x y : Except Failure (Program × Nat)}
    (h : (blankPairing marks others).Agree x y) (hreported : ∀ e, x = .error e → e.Reported) :
    SameOutcome x y ∨ Moved marks others.head? x y := by
  cases h with
  | ok p => exact .inl (.ok p)
  | @error e e' h =>
    have he := hreported e rfl
    cases h with
    | unexpected h e =>
      rcases h with h | h | ⟨ht, hu⟩
      · exact .inl (.error (.unexpected e h.line.symm))
      · exact .inl (.error (.unexpected e h.line.symm))
      · exact .inr ⟨_, ht, _, e, hu, rfl, rfl⟩
    | undeclared role h => exact .inl (.error (.undeclared role h.line.symm))
    | redefined h => exact .inl (.error (.redefined h.line.symm))
    | _ => cases he

/-! ## Blank lines -/

/-- Where in a stream it does not matter whether there are the indentations of a blank line. -/
inductive Harmless (front marks behind : List Token) : Prop
  /-- There are none, because the line is empty or one space. -/
  | none (h : marks = [])
  /-- There is indentation next to them. -/
  | indented
      (h : (∃ t ∈ front.getLast?, t.kind = .indent) ∨ ∃ t ∈ behind.head?, t.kind = .indent)
  /-- An `else` or the end comes next, and no block has to begin. -/
  | closing (h : BeforeClosing behind) (level : ∀ t ∈ front.getLast?, t.kind ≠ .sign .colon)
  /-- They stand behind a program that does not end with a block, and in front of nothing that its
  last statement or its declarations would go on with. -/
  | statements {source : Grammar.Source} (h : IsClosed source front) (parts : Parts source behind)
  /-- They stand among declarations of variables, and those behind are of new variables. -/
  | declarations {ds : List Declaration} {xs : Settings} {vs rest : List Token}
      (split : behind = vs ++ rest) (h : IsVariables ds xs front vs rest)
  /-- They stand behind a program that ends with a block, and no statement follows. -/
  | block {source : Grammar.Source} (h : IsOpen source front behind)
  /-- The compilation fails before it comes to them. -/
  | failure (h : FailsWithin front)

end Compilation

open Compilation
open Grammar (Terminal)

/-- A blank line whose indentation stands where it does not matter can be emptied without a change to
the outcome, but that an error at the indentation of the line becomes one at the next token. -/
theorem Parted.outcome {before blanks after : List Char} {front marks behind others : List Token}
    (h : Parted before blanks after front marks behind others)
    (hplace : Harmless front marks behind) :
    let whole := compileTokens (Token.stream (String.ofList (before ++ (blanks ++ after))))
    let without := compileTokens (Token.stream (String.ofList (before ++ after)))
    SameOutcome whole without ∨ Moved marks others.head? whole without := by
  intro whole without
  have hreported : ∀ e, whole = .error e → e.Reported := fun e he => reported_of_compileTokens he
  have hagree : (blankPairing marks others).Agree whole without →
      SameOutcome whole without ∨ Moved marks others.head? whole without :=
    fun hagree => outcome_of_agree hagree hreported
  have hwhole : whole = compileTokens (front ++ (marks ++ behind)) := by rw [← h.stream_whole]
  have hwithout : without = compileTokens (front ++ others) := by rw [← h.stream_without]
  have hmarks : ∀ t ∈ marks, t.kind = .indent := fun t ht => (h.mark t ht).1
  have halike : ∀ t : Token, t.Alike t := fun t => ⟨rfl, rfl, rfl⟩
  have hfinish : ∃ t ∈ front ++ (marks ++ behind), t.kind = .finish :=
    exists_finish_append _ (exists_finish_append _ h.finish)
  by_cases hne : marks = []
  · refine hagree ?_
    rw [hwhole, hwithout]
    refine compileTokens_agree ?_ hfinish
    have hhead : SameHead behind others :=
      sameHead_of_forall₂ (c := blankPairing marks others) h.alike
    rw [hne, List.nil_append]
    exact (Streams.of_forall₂ h.alike).append_left halike fun _ _ _ => hhead
  have hnext : (∃ t ∈ front.getLast?, t.kind = .indent) ∨ (∃ t ∈ behind.head?, t.kind = .indent) ∨
      BeforeClosing behind ∧ (∀ t ∈ front.getLast?, t.kind ≠ .sign .colon) →
      SameOutcome whole without ∨ Moved marks others.head? whole without := by
    intro hnext
    refine hagree ?_
    rw [hwhole, hwithout]
    refine compileTokens_agree ?_ hfinish
    exact streams_of_marks halike hne hmarks h.alike h.finish (fun t => .inl (halike t))
      (fun v hv w hw => .inr ⟨hv, hw⟩) hnext
  cases hplace with
  | none hnil => exact absurd hnil hne
  | indented hindent => exact hnext (hindent.imp_right .inl)
  | closing hclosing hlevel => exact hnext (.inr (.inr ⟨hclosing, hlevel⟩))
  | statements hclosed hparts =>
    refine hagree ?_
    rw [hwhole, hwithout]
    have hnone : ∀ n ∈ ([] : List Token), n.kind = .indent := by simp
    exact agree_of_closed (.refl _) hclosed hclosed hparts hparts hmarks hnone h.alike h.finish
  | declarations split hvariables =>
    refine hagree ?_
    obtain rfl := split
    obtain ⟨vs', rest', rfl, hvs, hrest⟩ := exists_append_of_forall₂ h.alike
    rw [hwhole, hwithout]
    exact agree_of_variables hvariables hne hmarks hvs hrest
  | block hopen =>
    refine hagree ?_
    rw [hwhole, hwithout]
    exact agree_of_open hopen hmarks h.alike h.finish
  | failure hfails =>
    obtain ⟨e, he⟩ := hfails.exists_error
    have hwhole' : whole = .error e := by
      rw [hwhole]
      exact he _ (by simp [hne])
    have hothers : others ≠ [] := by
      rintro rfl
      obtain ⟨t, ht, -⟩ := h.finish
      rw [List.forall₂_nil_right_iff.mp h.alike] at ht
      cases ht
    have hwithout' : without = .error e := by
      rw [hwithout]
      exact he _ hothers
    rw [hwhole', hwithout']
    exact .inl (.error (.refl (hreported e hwhole')))

end StackPrimer

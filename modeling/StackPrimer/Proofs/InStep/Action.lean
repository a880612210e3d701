import StackPrimer.Proofs.InStep.Book
import StackPrimer.Proofs.Prefix.Locality

/-!
# Actions in step

Two actions are in step if, from states that correspond, they both succeed with results that
correspond and leave states that correspond, or both fail for reasons that correspond. What is said
of the tokens before and after is a parameter: in front of a block the tokens in front have to be of
the same kind, and behind one they are.

Results:
* `InStep.bind`: actions one after the other are in step.
* `InStep.byKind`, `InStep.byToken`: what an action does that looks at the token in front.
-/

namespace StackPrimer.Compilation

/-- The reasons for two failures correspond. -/
inductive Pairing.Fails (c : Pairing) : Failure → Failure → Prop
  | unexpected {t u : Token} (h : c.same t u ∨ c.apart t u) (e : Expectation) :
      c.Fails (.unexpected t e) (.unexpected u e)
  | undeclared {t u : Token} (role : Role) (h : c.same t u) :
      c.Fails (.undeclared role t) (.undeclared role u)
  | redefined {t u : Token} (h : c.same t u) : c.Fails (.redefined t) (.redefined u)
  | outOfTokens : c.Fails .outOfTokens .outOfTokens
  | badNumber (lexeme : String) : c.Fails (.badNumber lexeme) (.badNumber lexeme)
  | unbound (name : String) : c.Fails (.unbound name) (.unbound (c.rename name))
  | book (e : BookError) : c.Fails (.book e) (.book e)
  | log (e : LogError) : c.Fails (.log e) (.log e)

/-- The states correspond, with this relation between the tokens that they have before them. -/
structure Pairing.States (c : Pairing) (p : Side) (s s' : State) : Prop where
  tokens : p s.tokens s'.tokens
  book : c.Books s.book s'.book
  log : s'.log = s.log

/-- What two actions come to corresponds. -/
inductive Pairing.Ends {α β : Type} (c : Pairing) (r : α → β → Prop) (q : Side) :
    EStateM.Result Failure State α → EStateM.Result Failure State β → Prop
  | ok {a : α} {b : β} {s s' : State} (result : r a b) (states : c.States q s s') :
      c.Ends r q (.ok a s) (.ok b s')
  | error {e e' : Failure} {s s' : State} (h : c.Fails e e') : c.Ends r q (.error e s) (.error e' s')

/-- The actions are in step. -/
def InStep {α β : Type} (c : Pairing) (p : Side) (x : Action α) (y : Action β) (r : α → β → Prop)
    (q : Side) : Prop :=
  ∀ s s', c.States p s s' → c.Ends r q (x s) (y s')

theorem Pairing.States.mono {c : Pairing} {p p' : Side} {s s' : State} (h : c.States p s s')
    (hp : ∀ {ts us}, p ts us → p' ts us) : c.States p' s s' :=
  ⟨hp h.tokens, h.book, h.log⟩

namespace InStep

variable {α β γ δ : Type} {c : Pairing} {p p' q q' : Side} {x : Action α} {y : Action β}
  {f : α → Action γ} {g : β → Action δ} {r : α → β → Prop} {r' : γ → δ → Prop}

theorem bind (hx : InStep c p x y r q) (hf : ∀ a b, r a b → InStep c q (f a) (g b) r' q') :
    InStep c p (x >>= f) (y >>= g) r' q' := by
  intro s s' h
  cases hxs : x s with
  | ok a s₁ =>
    have hends := hx s s' h
    rw [hxs] at hends
    generalize hys : y s' = outcome at hends
    cases hends with
    | ok result states =>
      rw [bind_of_ok hxs, bind_of_ok hys]
      exact hf _ _ result _ _ states
  | error e s₁ =>
    have hends := hx s s' h
    rw [hxs] at hends
    generalize hys : y s' = outcome at hends
    cases hends with
    | error hfails =>
      rw [bind_eq_error.mpr (.inl hxs), bind_eq_error.mpr (.inl hys)]
      exact .error hfails

theorem weaken (h : InStep c p x y r q) (hp : ∀ {ts us}, p' ts us → p ts us) :
    InStep c p' x y r q :=
  fun s s' hs => h s s' (hs.mono hp)

theorem strengthen (h : InStep c p x y r q) (hq : ∀ {ts us}, q ts us → q' ts us) :
    InStep c p x y r q' := by
  intro s s' hs
  have hends := h s s' hs
  generalize x s = outcome at hends ⊢
  generalize y s' = outcome' at hends ⊢
  cases hends with
  | ok result states => exact .ok result (states.mono hq)
  | error hfails => exact .error hfails

theorem pure {a : α} {b : β} (h : r a b) : InStep c p (Pure.pure a) (Pure.pure b) r p :=
  fun _ _ hs => .ok h hs

theorem throw {e e' : Failure} (h : c.Fails e e') :
    InStep c p (MonadExcept.throw e : Action α) (MonadExcept.throw e' : Action β) r q :=
  fun _ _ _ => .error h

theorem unlucky : InStep c p (MonadExcept.throw .outOfTokens : Action α)
    (MonadExcept.throw .outOfTokens : Action β) r q :=
  throw .outOfTokens

theorem ite {a b : Bool} (hab : a = b) {x' : Action α} {y' : Action β}
    (h : InStep c p x y r q) (h' : InStep c p x' y' r q) :
    InStep c p (if a then x else x') (if b then y else y') r q := by
  subst hab
  split
  · exact h
  · exact h'

/-! ## Looking at the token in front -/

theorem streams_heads {s s' : State} (h : c.States (Streams c) s s') :
    (∃ t u, s.token = t ∧ s'.token = u ∧ t.kind.isSoft = false ∧ c.States (Facing c t u) s s') ∨
      s.token.kind.isSoft = true ∧ s'.token.kind.isSoft = true ∧
        (c.same s.token s'.token ∨ c.apart s.token s'.token) := by
  cases hsoft : s.token.kind.isSoft with
  | false =>
    have htokens := h.tokens
    rw [State.tokens] at htokens
    obtain ⟨u, hfacing⟩ := htokens.facing hsoft
    obtain ⟨ts', us', hts, hus, hrest⟩ := hfacing
    rw [State.tokens] at hus
    obtain ⟨hu, -⟩ := List.cons.inj hus
    exact .inl ⟨_, u, rfl, hu, hsoft, ⟨ts', us', hts, hus, hrest⟩, h.book, h.log⟩
  | true =>
    refine .inr ⟨rfl, ?_⟩
    rcases h.tokens.heads with ⟨hnil, -⟩ | ⟨t, ts', u, us', hts, hus, hheads⟩
    · cases hnil
    · obtain ⟨rfl, -⟩ := List.cons.inj hts
      obtain ⟨rfl, -⟩ := List.cons.inj hus
      rcases hheads with hsame | ⟨-, hu, hapart⟩
      · exact ⟨by rwa [c.kind_eq hsame], .inl hsame⟩
      · exact ⟨hu, .inr hapart⟩

/-- Looking at the kind of the token in front: most kinds are the same on both sides. -/
theorem byKind {f : Kind → Action γ} {g : Kind → Action δ}
    (hard : ∀ t u, t.kind.isSoft = false → InStep c (Facing c t u) (f t.kind) (g t.kind) r' q)
    (soft : ∀ k l : Kind, k.isSoft = true → l.isSoft = true →
      InStep c (Streams c) (f k) (g l) r' q) :
    InStep c (Streams c) (currentKind >>= f) (currentKind >>= g) r' q := by
  intro s s' h
  rw [bind_of_ok (currentKind_ok s), bind_of_ok (currentKind_ok s')]
  rcases streams_heads h with ⟨t, u, rfl, rfl, ht, hfacing⟩ | ⟨hk, hl, -⟩
  · obtain ⟨-, -, -, -, hsame, -⟩ := hfacing.tokens
    rw [c.kind_eq hsame]
    exact hard _ _ ht _ _ hfacing
  · exact soft _ _ hk hl _ _ h

/-- Looking at the token in front. -/
theorem byToken {f : Token → Action γ} {g : Token → Action δ}
    (hard : ∀ t u, t.kind.isSoft = false → c.same t u → InStep c (Facing c t u) (f t) (g u) r' q)
    (soft : ∀ t u, t.kind.isSoft = true → u.kind.isSoft = true → c.same t u ∨ c.apart t u →
      InStep c (Streams c) (f t) (g u) r' q) :
    InStep c (Streams c) (current >>= f) (current >>= g) r' q := by
  intro s s' h
  rw [bind_of_ok (current_ok s), bind_of_ok (current_ok s')]
  rcases streams_heads h with ⟨t, u, rfl, rfl, ht, hfacing⟩ | ⟨hk, hl, hheads⟩
  · obtain ⟨-, -, -, -, hsame, -⟩ := hfacing.tokens
    exact hard _ _ ht hsame _ _ hfacing
  · exact soft _ _ hk hl hheads _ _ h

/-- Looking at the kind of the token in front where it is the same on both sides. -/
theorem settledKind {f : Kind → Action γ} {g : Kind → Action δ}
    (hf : ∀ t u, t.kind ≠ .indent → InStep c (Facing c t u) (f t.kind) (g t.kind) r' q) :
    InStep c (Settled c) (currentKind >>= f) (currentKind >>= g) r' q := by
  intro s s' h
  rw [bind_of_ok (currentKind_ok s), bind_of_ok (currentKind_ok s')]
  obtain ⟨t, u, hk, hfacing⟩ := h.tokens
  have hstates : c.States (Facing c t u) s s' := ⟨hfacing, h.book, h.log⟩
  obtain ⟨ts', us', hts, hus, hsame, -⟩ := hfacing
  obtain ⟨rfl, -⟩ := List.cons.inj hts
  obtain ⟨rfl, -⟩ := List.cons.inj hus
  rw [c.kind_eq hsame]
  exact hf _ _ hk _ _ hstates

end InStep

/-! ## Tokens -/

section Tokens

variable {c : Pairing} {t u : Token}

/-- What corresponds behind a token of the kind. -/
def Behind (c : Pairing) (k : Kind) : Side := fun ts us =>
  Streams c ts us ∧ (k = .sign .colon → SameHead ts us)

theorem inStep_advance (ht : t.kind ≠ .finish) :
    InStep c (Facing c t u) advance advance Eq (Behind c t.kind) := by
  intro s s' h
  obtain ⟨ts, us, hts, hus, hsame, hrest, hlevel⟩ := h.tokens
  obtain ⟨rfl, hupcoming⟩ := List.cons.inj hts
  obtain ⟨rfl, hupcoming'⟩ := List.cons.inj hus
  have hs' : s'.token.kind ≠ .finish := by rwa [c.kind_eq hsame]
  rcases hrest.heads with ⟨rfl, rfl⟩ | ⟨t, ts', u, us', rfl, rfl, -⟩
  · rw [advance_nil ht hupcoming, advance_nil hs' hupcoming']
    exact .error .outOfTokens
  · rw [advance_cons ht hupcoming, advance_cons hs' hupcoming']
    exact .ok rfl ⟨⟨hrest, hlevel⟩, h.book, h.log⟩

theorem inStep_expect {k : Kind} (hk : k.isSoft = false) (e : Expectation) :
    InStep c (Streams c) (expect k e) (expect k e) (fun t u => c.same t u ∧ t.kind = k)
      (Behind c k) := by
  refine .byToken (fun t u ht hsame => ?_) fun t u ht hu hheads => ?_
  · have hu := c.kind_eq hsame
    by_cases htk : t.kind = k
    · rw [if_pos htk, if_pos (hu.trans htk)]
      have hfinish : t.kind ≠ .finish := by
        intro hfinish
        rw [hfinish] at ht
        cases ht
      subst htk
      exact (inStep_advance hfinish).bind fun _ _ _ => .pure ⟨hsame, rfl⟩
    · rw [if_neg htk, if_neg (by rwa [hu])]
      exact .throw (.unexpected (.inl hsame) e)
  · have hne : ∀ {l : Kind}, l.isSoft = true → l ≠ k := by
      rintro l hl rfl
      rw [hl] at hk
      cases hk
    rw [if_neg (hne ht), if_neg (hne hu)]
    exact .throw (.unexpected hheads e)

theorem inStep_expectSign (x : Sign) :
    InStep c (Streams c) (expectSign x) (expectSign x) Eq (Behind c (.sign x)) :=
  (inStep_expect rfl _).bind fun _ _ _ => .pure rfl

/-- The tokens in front of streams that correspond may be looked at instead of one another. -/
theorem same_or_apart {s s' : State} (h : c.States (Streams c) s s') :
    c.same s.token s'.token ∨ c.apart s.token s'.token := by
  rcases h.tokens.heads with ⟨hnil, -⟩ | ⟨t, ts, u, us, hts, hus, hheads⟩
  · cases hnil
  · obtain ⟨rfl, -⟩ := List.cons.inj hts
    obtain ⟨rfl, -⟩ := List.cons.inj hus
    exact hheads.imp_right (·.2.2)

/-- Behind the indentation that begins a block it does not matter how much more there is. -/
theorem inStep_expectIndent :
    InStep c (Aligned c) (expect .indent) (expect .indent) (fun _ _ => True) (Loose c) := by
  intro s s' h
  have hkinds : s.token.kind = s'.token.kind := by simpa [SameHead, State.tokens] using h.tokens.2
  have hstates : c.States (Streams c) s s' := h.mono (·.1)
  unfold expect
  rw [bind_of_ok (current_ok s), bind_of_ok (current_ok s')]
  by_cases hk : s.token.kind = .indent
  · have hk' : s'.token.kind = .indent := hkinds ▸ hk
    have hloose := hstates.tokens.loose
    rw [Loose, State.tokens, State.tokens, afterIndents_cons_indent hk,
      afterIndents_cons_indent hk'] at hloose
    have hiff := hstates.tokens.tail_eq_nil_iff hk hk'
    rw [if_pos hk, if_pos hk']
    cases hts : s.upcoming with
    | nil =>
      rw [bind_eq_error.mpr (.inl (advance_nil (by simp [hk]) hts)),
        bind_eq_error.mpr (.inl (advance_nil (by simp [hk']) (hiff.mp hts)))]
      exact .error .outOfTokens
    | cons t ts =>
      obtain ⟨u, us, hus⟩ := List.exists_cons_of_ne_nil fun hnil =>
        List.cons_ne_nil t ts (hts.symm.trans (hiff.mpr hnil))
      rw [bind_of_ok (advance_cons (by simp [hk]) hts), bind_of_ok (advance_cons (by simp [hk']) hus)]
      rw [hts, hus] at hloose
      exact .ok trivial ⟨hloose, h.book, h.log⟩
  · rw [if_neg hk, if_neg (hkinds ▸ hk)]
    exact .error (.unexpected (same_or_apart hstates) _)

theorem inStep_skipIndents : InStep c (Loose c) skipIndents skipIndents Eq (Settled c) := by
  intro s s' h
  rcases h.tokens with ⟨hs, hs'⟩ | ⟨t, u, hk, ts, us, hts, hus, hrest⟩
  · rw [skipIndents_nil hs, skipIndents_nil hs']
    exact .error .outOfTokens
  · rw [skipIndents_cons hts, skipIndents_cons hus]
    exact .ok rfl ⟨⟨t, u, hk, ts, us, rfl, rfl, hrest⟩, h.book, h.log⟩

end Tokens

/-! ## Code -/

section Code

variable {c : Pairing} {p : Side}

theorem inStep_here : InStep c p here here Eq p := by
  intro s s' h
  exact .ok (by rw [h.log]) h

theorem inStep_emit (op : Opcode) (x : Option Operand) : InStep c p (emit op x) (emit op x) Eq p := by
  intro s s' h
  unfold emit
  rw [h.log]
  rcases s.log.emit (.listed op) x with ⟨e | a, log⟩
  · exact .error (.log e)
  · exact .ok rfl ⟨h.tokens, h.book, rfl⟩

theorem inStep_emitPlain (op : Opcode) : InStep c p (emitPlain op) (emitPlain op) Eq p :=
  (inStep_emit op none).bind fun _ _ _ => .pure rfl

theorem inStep_emitInt (op : Opcode) (n : Int) : InStep c p (emitInt op n) (emitInt op n) Eq p :=
  inStep_emit op _

theorem inStep_land (address : Int) : InStep c p (land address) (land address) Eq p := by
  intro s s' h
  unfold land
  rw [h.log]
  rcases s.log.patch address (some (.int s.log.size)) with ⟨e | a, log⟩
  · exact .error (.log e)
  · exact .ok rfl ⟨h.tokens, h.book, rfl⟩

end Code

/-! ## Names -/

section Names

variable {c : Pairing} {p : Side} {t u : Token}

theorem inStep_addVariable (h : c.same t u) (ht : t.kind = .name) :
    InStep c p (addVariable t) (addVariable u) Eq p := by
  intro s s' hs
  have htext : (Mention.ofToken u).text = c.rename (Mention.ofToken t).text := c.name_eq h ht
  obtain ⟨haddress, hbooks⟩ := hs.book.addVariable htext
  exact .ok haddress.symm ⟨hs.tokens, hbooks, hs.log⟩

theorem inStep_declares (h : c.same t u) (ht : t.kind = .name) :
    InStep c p (declares t) (declares u) Eq p := by
  intro s s' hs
  refine .ok ?_ hs
  rw [c.name_eq h ht, hs.book.declares]

theorem inStep_entry (h : c.same t u) (ht : t.kind = .name) :
    InStep c p ( entry? t) ( entry? u) Eq p := by
  intro s s' hs
  refine .ok ?_ hs
  rw [c.name_eq h ht, hs.book.entry?]

theorem inStep_addFunction (h : c.same t u) (ht : t.kind = .name) :
    InStep c p (addFunction t) (addFunction u) Eq p := by
  intro s s' hs
  have htext : (Mention.ofToken u).text = c.rename (Mention.ofToken t).text := c.name_eq h ht
  unfold addFunction
  rw [hs.log]
  rcases hs.book.addFunction htext s.log.size with
    ⟨hbook, hbook'⟩ | ⟨after, after', hbook, hbook', hafter⟩
  · rw [hbook, hbook']
    exact .error (.redefined h)
  · rw [hbook, hbook']
    exact .ok rfl ⟨hs.tokens, hafter, rfl⟩

theorem inStep_enterFunction : InStep c p enterFunction enterFunction Eq p := by
  intro s s' hs
  unfold enterFunction
  rcases hs.book.enter with ⟨hbook, hbook'⟩ | ⟨after, after', hbook, hbook', hafter⟩
  · rw [hbook, hbook']
    exact .error (.book _)
  · rw [hbook, hbook']
    exact .ok rfl ⟨hs.tokens, hafter, hs.log⟩

theorem inStep_exitFunction : InStep c p exitFunction exitFunction Eq p := by
  intro s s' hs
  unfold exitFunction
  rcases hs.book.exit with ⟨hbook, hbook'⟩ | ⟨after, after', hbook, hbook', hafter⟩
  · rw [hbook, hbook']
    exact .error (.book _)
  · rw [hbook, hbook']
    exact .ok rfl ⟨hs.tokens, hafter, hs.log⟩

/-- Variables that are the same cell. -/
def SameCell (v v' : Option Variable) : Prop :=
  v = none ∧ v' = none ∨
    ∃ w w', v = some w ∧ v' = some w' ∧ w'.scope = w.scope ∧ w'.address = w.address

theorem inStep_lookup (h : c.same t u) (ht : t.kind = .name) :
    InStep c p (lookup t) (lookup u) SameCell p := by
  intro s s' hs
  refine .ok ?_ hs
  rw [c.name_eq h ht]
  exact hs.book.find? t.lexeme

theorem inStep_load (h : c.same t u) (ht : t.kind = .name) : InStep c p (load t) (load u) Eq p := by
  refine (inStep_lookup h ht).bind ?_
  rintro _ _ (⟨rfl, rfl⟩ | ⟨v, v', rfl, rfl, hscope, haddress⟩)
  · exact .throw (.undeclared .variable h)
  · simp only [hscope, haddress]
    exact (inStep_emitInt _ _).bind fun _ _ _ => .pure rfl

theorem inStep_store (h : c.same t u) (ht : t.kind = .name) :
    InStep c p (store t) (store u) Eq p := by
  refine (inStep_lookup h ht).bind ?_
  rintro _ _ (⟨rfl, rfl⟩ | ⟨v, v', rfl, rfl, hscope, haddress⟩)
  · simp only [c.name_eq h ht]
    exact .throw (.unbound t.lexeme)
  · simp only [hscope, haddress]
    exact (inStep_emitInt _ _).bind fun _ _ _ => .pure rfl

theorem inStep_declare (h : c.same t u) (ht : t.kind = .name) :
    InStep c p (declare t) (declare u) Eq p :=
  (inStep_addVariable h ht).bind fun _ _ _ => (inStep_emitInt _ _).bind fun _ _ _ => .pure rfl

theorem inStep_constant (h : c.same t u) (ht : t.kind = .number) :
    InStep c p (constant t) (constant u) Eq p := by
  unfold constant
  rw [c.number_eq h ht]
  cases Number.readFloat? t.lexeme with
  | none => exact .throw (.badNumber t.lexeme)
  | some x => exact (inStep_emit _ _).bind fun _ _ _ => .pure rfl

end Names

end StackPrimer.Compilation

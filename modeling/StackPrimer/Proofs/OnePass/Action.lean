import StackPrimer.Compilation.Program
import StackPrimer.Proofs.OnePass.Book
import StackPrimer.Proofs.Sequence

/-!
# What a successful action has done

An action that succeeds has passed some tokens and written some instructions. Each production is
opened by the rules for `>>=`, and what its parts have done is put together by `Advances.trans`.

Results:
* `land_ok`: a jump that lands has the place where it lands for a target, and nothing else changes.
-/

namespace StackPrimer.Compilation

open Grammar

/-! ## Tokens and code -/

/-- The tokens not passed yet. -/
def State.tokens (s : State) : List Token := s.token :: s.upcoming

/-- Their terminals. -/
def State.terminals (s : State) : List Terminal := s.tokens.map Terminal.ofToken

/-- The instructions written so far. -/
def State.code (s : State) : List Instruction := s.log.instructions.toList

theorem terminals_of_tokens {s s' : State} (h : s'.tokens = s.tokens) :
    s'.terminals = s.terminals :=
  congrArg (List.map Terminal.ofToken) h

theorem State.size_log (s : State) : s.log.size = s.code.length := by
  simp [State.code, Log.size]

/-- From one state to the other, tokens with these terminals have been passed and these instructions
have been written. -/
structure Advances (s s' : State) (ts : List Terminal) (is : List Instruction) : Prop where
  tokens : ∃ passed, s.tokens = passed ++ s'.tokens ∧ passed.map Terminal.ofToken = ts ∧
    ∀ t ∈ passed, t.kind ≠ .finish
  code : s'.code = s.code ++ is

namespace Advances

variable {s s' s'' : State} {ts us : List Terminal} {is js : List Instruction}

theorem refl (s : State) : Advances s s [] [] :=
  ⟨⟨[], by simp, rfl, by simp⟩, by simp⟩

theorem trans (h : Advances s s' ts is) (h' : Advances s' s'' us js) :
    Advances s s'' (ts ++ us) (is ++ js) := by
  obtain ⟨p, hp, hts, hpk⟩ := h.tokens
  obtain ⟨q, hq, hus, hqk⟩ := h'.tokens
  refine ⟨⟨p ++ q, by rw [hp, hq, List.append_assoc], by simp [hts, hus], ?_⟩, ?_⟩
  · intro t ht
    rcases List.mem_append.mp ht with ht | ht
    · exact hpk t ht
    · exact hqk t ht
  · rw [h'.code, h.code, List.append_assoc]

/-- The terminals that have been passed stood in front of those left. -/
theorem terminals (h : Advances s s' ts is) : s.terminals = ts ++ s'.terminals := by
  obtain ⟨passed, hp, hts, -⟩ := h.tokens
  rw [State.terminals, hp, List.map_append, hts]
  rfl

/-- What is left when terminals that stood in front have been passed. -/
theorem rest (h : Advances s s' ts is) (hs : s.terminals = ts ++ us) : s'.terminals = us :=
  List.append_cancel_left (h.terminals.symm.trans hs)

/-- What is left when tokens with these terminals stood in front. -/
theorem tokens_rest (h : Advances s s' ts is) {passed rest : List Token}
    (hs : s.tokens = passed ++ rest) (hpassed : passed.map Terminal.ofToken = ts) :
    s'.tokens = rest := by
  obtain ⟨p, hp, hts, -⟩ := h.tokens
  have hlength : p.length = passed.length := by
    have hmap := congrArg List.length (hts.trans hpassed.symm)
    simpa only [List.length_map] using hmap
  exact (List.append_inj (hp.symm.trans hs) hlength).2

/-- Behind the written instructions is the next address. -/
theorem length_code (h : Advances s s' ts is) : s'.code.length = s.code.length + is.length := by
  rw [h.code, List.length_append]

/-- Where no token has been passed, the tokens are the same. -/
theorem tokens_eq (h : Advances s s' [] is) : s'.tokens = s.tokens := by
  obtain ⟨passed, hp, hts, -⟩ := h.tokens
  rw [hp, List.map_eq_nil_iff.mp hts, List.nil_append]

theorem token_eq (h : Advances s s' [] is) : s'.token = s.token :=
  (List.cons.inj h.tokens_eq).1

/-- Where nothing had been written before, the log is what has been written. -/
theorem code_of_nil (h : Advances s s' ts is) (hs : s.code = []) : s'.code = is := by
  rw [h.code, hs, List.nil_append]

end Advances

/-- The same, and no name has been bound. -/
structure Writes (s s' : State) (ts : List Terminal) (is : List Instruction) : Prop
    extends Advances s s' ts is where
  book : s'.book = s.book

namespace Writes

variable {s s' s'' : State} {ts us : List Terminal} {is js : List Instruction}

theorem refl (s : State) : Writes s s [] [] := ⟨.refl s, rfl⟩

theorem trans (h : Writes s s' ts is) (h' : Writes s' s'' us js) :
    Writes s s'' (ts ++ us) (is ++ js) :=
  ⟨h.toAdvances.trans h'.toAdvances, h'.book.trans h.book⟩

end Writes

/-- From one state to the other, names have been bound and no function been declared, so that now
these are the names. -/
structure Binds (s s' : State) (n : Names) : Prop where
  names : s'.book.names = n
  functions : s'.book.functions = s.book.functions
  sound : s'.book.Sound

namespace Binds

variable {s s' s'' : State} {n n' : Names}

theorem refl (h : s.book.Sound) : Binds s s s.book.names := ⟨rfl, rfl, h⟩

theorem trans (h : Binds s s' n) (h' : Binds s' s'' n') : Binds s s'' n' :=
  ⟨h'.names, h'.functions.trans h.functions, h'.sound⟩

theorem entries (h : Binds s s' n) : s'.book.entries = s.book.entries := by
  unfold AddressBook.entries AddressBook.entry?
  rw [h.functions]

theorem functionNames (h : Binds s s' n) : s'.book.functionNames = s.book.functionNames := by
  unfold AddressBook.functionNames
  rw [h.functions]

theorem of_book (h : Binds s s' n) (hb : s''.book = s'.book) : Binds s s'' n :=
  ⟨by rw [hb]; exact h.names, by rw [hb]; exact h.functions, by rw [hb]; exact h.sound⟩

theorem writes {ts : List Terminal} {is : List Instruction} (h : Binds s s' n)
    (hw : Writes s' s'' ts is) : Binds s s'' n :=
  h.of_book hw.book

end Binds

namespace Writes

variable {s s' s'' : State} {n : Names} {ts : List Terminal} {is : List Instruction}

theorem names (h : Writes s s' ts is) : s'.book.names = s.book.names := by
  rw [h.book]

theorem sound (h : Writes s s' ts is) (hs : s.book.Sound) : s'.book.Sound := by
  rw [h.book]
  exact hs

theorem binds (h : Writes s s' ts is) (hs : s.book.Sound) : Binds s s' s.book.names :=
  (Binds.refl hs).writes h

end Writes

/-! ## Single actions -/

section Actions

variable {s s' : State}

theorem current_eq_ok {t : Token} : current s = .ok t s' ↔ t = s.token ∧ s = s' := by
  simp [current, eq_comm]

theorem currentKind_eq_ok {k : Kind} :
    currentKind s = .ok k s' ↔ k = s.token.kind ∧ s = s' := by
  simp [currentKind, eq_comm]

theorem here_eq_ok {a : Int} : here s = .ok a s' ↔ a = s.code.length ∧ s = s' := by
  simp [here, State.size_log, eq_comm]

theorem advance_ok (h : advance s = .ok () s') (hs : s.token.kind ≠ .finish) :
    Writes s s' [.ofToken s.token] [] := by
  unfold advance at h
  rw [if_neg hs] at h
  split at h
  · cases h
  · rename_i t rest hrest
    cases h
    refine ⟨⟨⟨[s.token], ?_, rfl, by simpa using hs⟩, by simp [State.code]⟩, rfl⟩
    simp [State.tokens, hrest]

theorem expect_ok {k : Kind} {e : Expectation} {t : Token} (h : expect k e s = .ok t s')
    (hk : k ≠ .finish) :
    t = s.token ∧ s.token.kind = k ∧ Writes s s' [.ofToken s.token] [] := by
  unfold expect at h
  simp only [bind_eq_ok, current_eq_ok] at h
  obtain ⟨_, _, ⟨rfl, rfl⟩, h⟩ := h
  split at h
  · rename_i hs
    simp only [bind_eq_ok, pure_eq_ok] at h
    obtain ⟨_, s₁, h, rfl, rfl⟩ := h
    exact ⟨rfl, hs, advance_ok h (by rw [hs]; exact hk)⟩
  · exact absurd h throw_ne_ok

/-- A token other than a name or a number counts by its kind. -/
theorem ofToken_eq_mark {t : Token} {k : Kind} (h : t.kind = k) (hn : k ≠ .name)
    (hd : k ≠ .number) : Terminal.ofToken t = .mark k := by
  unfold Terminal.ofToken
  rw [h]
  cases k <;> simp at hn hd ⊢

theorem ofToken_eq_name {t : Token} (h : t.kind = .name) : Terminal.ofToken t = .name t.lexeme := by
  simp [Terminal.ofToken, h]

theorem ofToken_eq_number {t : Token} (h : t.kind = .number) :
    Terminal.ofToken t = .number t.lexeme := by
  simp [Terminal.ofToken, h]

theorem name_of_ofToken {t : Token} {x : String} (h : Terminal.ofToken t = .name x) :
    t.kind = .name ∧ t.lexeme = x := by
  unfold Terminal.ofToken at h
  split at h <;> simp_all

theorem number_of_ofToken {t : Token} {x : String} (h : Terminal.ofToken t = .number x) :
    t.kind = .number ∧ t.lexeme = x := by
  unfold Terminal.ofToken at h
  split at h <;> simp_all

theorem expectSign_ok {x : Sign} (h : expectSign x s = .ok () s') :
    Writes s s' [.sign x] [] := by
  unfold expectSign at h
  simp only [bind_eq_ok, pure_eq_ok] at h
  obtain ⟨t, s₁, h, -, rfl⟩ := h
  obtain ⟨-, hk, hw⟩ := expect_ok h (by simp)
  rwa [ofToken_eq_mark hk (by simp) (by simp)] at hw

theorem expectWord_ok {w : Keyword} {t : Token} {e : Expectation}
    (h : expect (.word w) e s = .ok t s') : Writes s s' [.word w] [] := by
  obtain ⟨-, hk, hw⟩ := expect_ok h (by simp)
  rwa [ofToken_eq_mark hk (by simp) (by simp)] at hw

theorem expectName_ok {t : Token} {e : Expectation} (h : expect .name e s = .ok t s') :
    Writes s s' [.name t.lexeme] [] := by
  obtain ⟨rfl, hk, hw⟩ := expect_ok h (by simp)
  rwa [ofToken_eq_name hk] at hw

theorem emit_ok {op : Opcode} {x : Option Operand} {a : Int} (h : emit op x s = .ok a s') :
    a = s.code.length ∧ Writes s s' [] [.of op x] := by
  unfold emit Log.emit at h
  simp only at h
  split at h
  · rename_i a log heq
    split at heq
    · cases heq
      cases h
      refine ⟨by rw [State.size_log], ⟨⟨[], rfl, rfl, by simp⟩, by simp [State.code]⟩, rfl⟩
    · cases heq
  · cases h

theorem emitPlain_ok {op : Opcode} (h : emitPlain op s = .ok () s') :
    Writes s s' [] [plain op] := by
  unfold emitPlain at h
  simp only [bind_eq_ok, pure_eq_ok] at h
  obtain ⟨a, s₁, h, -, rfl⟩ := h
  exact (emit_ok h).2

theorem emitInt_ok {op : Opcode} {n a : Int} (h : emitInt op n s = .ok a s') :
    a = s.code.length ∧ Writes s s' [] [.of op (some (.int n))] :=
  emit_ok h

/-- The jump that lands has been written between `before` and `after`. -/
theorem land_ok {a : Int} (h : land a s = .ok () s') {before after : List Instruction} {op : Opcode}
    {x : Option Operand} (hs : s.code = before ++ .of op x :: after) (ha : a = before.length) :
    s'.code = before ++ withInt op s.code.length :: after ∧ s'.token = s.token ∧
      s'.upcoming = s.upcoming ∧ s'.book = s.book := by
  have hget : s.log.instructions[before.length]? = some (.of op x) := by
    rw [← Array.getElem?_toList, show s.log.instructions.toList = _ from hs]
    simp
  unfold land Log.patch at h
  rw [ha, if_pos (Int.natCast_nonneg _), Int.toNat_natCast, hget] at h
  simp only at h
  split at h
  · rename_i log heq
    split at heq
    · cases heq
      cases h
      refine ⟨?_, rfl, rfl, rfl⟩
      rw [← State.size_log]
      simp only [State.code, Array.toList_setIfInBounds]
      rw [show s.log.instructions.toList = _ from hs]
      simp [withInt, Instruction.of]
    · cases heq
  · cases h

/-- The same, where the jump has been written since the state `s`. -/
theorem Advances.land {s₁ : State} {ts : List Terminal} {before after : List Instruction}
    {op : Opcode} {x : Option Operand} {a : Int}
    (h : Advances s s₁ ts (before ++ .of op x :: after)) (target : Nat)
    (hl : land a s₁ = .ok () s')
    (ha : a = (s.code.length + before.length : Nat))
    (ht : target = s.code.length + before.length + 1 + after.length) :
    Advances s s' ts (before ++ withInt op target :: after) ∧
      s'.tokens = s₁.tokens ∧ s'.book = s₁.book := by
  have hcode : s₁.code = (s.code ++ before) ++ .of op x :: after := by
    rw [h.code, List.append_assoc]
  obtain ⟨hc, htoken, hu, hb⟩ := land_ok hl hcode (by rw [ha, List.length_append])
  have htokens : s'.tokens = s₁.tokens := by rw [State.tokens, htoken, hu, State.tokens]
  refine ⟨⟨?_, ?_⟩, htokens, hb⟩
  · rw [htokens]
    exact h.tokens
  · have hlength : s₁.code.length = target := by
      rw [hcode, ht]
      simp
      omega
    rw [hc, hlength, List.append_assoc]

/-! ## Names -/

theorem lookup_eq_ok {t : Token} {v : Option Variable} :
    lookup t s = .ok v s' ↔ v = s.book.find? t.lexeme ∧ s = s' := by
  simp [lookup, eq_comm]

theorem load_ok {t : Token} (h : load t s = .ok () s') (hs : s.book.Sound) :
    (s.book.names.scope? t.lexeme).isSome ∧ Writes s s' [] (s.book.names.load t.lexeme) := by
  unfold load at h
  simp only [bind_eq_ok, lookup_eq_ok] at h
  obtain ⟨_, _, ⟨rfl, rfl⟩, h⟩ := h
  have hfind := s.book.find?_eq hs t.lexeme
  cases hv : s.book.find? t.lexeme with
  | none =>
    rw [hv] at h
    exact absurd h throw_ne_ok
  | some v =>
    rw [hv] at h
    simp only [bind_eq_ok, pure_eq_ok] at h
    obtain ⟨a, s₂, h, -, rfl⟩ := h
    have hw := (emitInt_ok h).2
    cases hscope : s.book.names.scope? t.lexeme with
    | none => simp [hscope, hv] at hfind
    | some scope =>
      simp only [hscope, hv, Option.some.injEq] at hfind
      obtain ⟨_, rfl, hvs, hva⟩ := hfind
      rw [hvs, hva] at hw
      cases scope <;> exact ⟨rfl, by simpa [Names.load, hscope, withInt] using hw⟩

/-- Storing goes to the scope in which the name has been bound. -/
theorem store_ok {t : Token} (h : store t s = .ok () s') (hs : s.book.Sound)
    (ht : s.book.names.scope? t.lexeme = some s.book.names.home) :
    Writes s s' [] [s.book.names.store t.lexeme] := by
  unfold store at h
  simp only [bind_eq_ok, lookup_eq_ok] at h
  obtain ⟨_, _, ⟨rfl, rfl⟩, h⟩ := h
  have hfind := s.book.find?_eq hs t.lexeme
  rw [ht] at hfind
  obtain ⟨v, hv, hvs, hva⟩ := hfind
  rw [hv] at h
  simp only [bind_eq_ok, pure_eq_ok] at h
  obtain ⟨a, s₂, h, -, rfl⟩ := h
  have hw := (emitInt_ok h).2
  rw [hvs, hva] at hw
  unfold Names.store
  cases hscope : s.book.names.home <;> simpa [hscope, withInt] using hw

theorem entry?_eq_ok {t : Token} {a : Option Int} :
    entry? t s = .ok a s' ↔ a = s.book.entry? t.lexeme ∧ s = s' := by
  simp [eq_comm, entry?]

theorem declares_eq_ok {t : Token} {b : Bool} :
    declares t s = .ok b s' ↔ b = s.book.names.binds t.lexeme ∧ s = s' := by
  simp [declares, AddressBook.declares_eq, eq_comm]

theorem addVariable_ok {t : Token} {a : Int} (h : addVariable t s = .ok a s')
    (hs : s.book.Sound) : Advances s s' [] [] ∧ s.book.Added s'.book t.lexeme a := by
  unfold addVariable at h
  cases h
  exact ⟨⟨⟨[], rfl, rfl, by simp⟩, by simp [State.code]⟩, s.book.addVariable_eq hs (.ofToken t)⟩

theorem declare_ok {t : Token} (h : declare t s = .ok () s') (hs : s.book.Sound) :
    Advances s s' [] [withInt .allocate 1] ∧ Binds s s' (s.book.names.bind t.lexeme) := by
  unfold declare at h
  simp only [bind_eq_ok, pure_eq_ok] at h
  obtain ⟨a, s₁, h₁, b, s₂, h₂, -, rfl⟩ := h
  obtain ⟨hadv, hadd⟩ := addVariable_ok h₁ hs
  have hw := (emitInt_ok h₂).2
  refine ⟨hadv.trans hw.toAdvances, ?_⟩
  exact (Binds.mk hadd.names hadd.functions hadd.sound).writes hw

end Actions

end StackPrimer.Compilation

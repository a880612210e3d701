import StackPrimer.Proofs.Prefix.Locality
import StackPrimer.Proofs.Relocation.Code

/-!
# Actions behind other code

An action is done twice over the same tokens: once where the log began empty, and once where it began
with the instructions of `old`. The two stay in step. They succeed or fail together and for the same
reason, an address that one of them answers is `old.size` further on in the other, what they write is
a copy, and the instructions of `old` are never touched, not even by an action that fails.

Results:
* `Moves.bind`: actions one after the other stay in step.
* `Moves.waiting`, `moves_land`: a jump waits from where it is written to where it lands.
* `Movable`: what holds of actions that answer no addresses and leave no jump waiting.
-/

namespace StackPrimer

/-! ## Functions that begin further on -/

namespace Layer

variable {α β : Type}

/-- The same names with other values. -/
def map (f : α → β) (l : Layer α) : Layer β := ⟨l.entries.map fun e => (e.1, f e.2)⟩

theorem find?_map (f : α → β) (l : Layer α) (x : String) : (l.map f).find? x = (l.find? x).map f := by
  simp [find?, map, List.find?_map, Function.comp_def]

theorem mount_map (f : α → β) (l : Layer α) (x : String) (a : α) :
    (l.map f).mount x (f a) = (l.mount x a).map (map f) := by
  have hcontains : (l.map f).contains x = l.contains x := by
    simp [contains, map, Function.comp_def]
  have happend : (l.map f).append x (f a) = (l.append x a).map f := by
    simp [append, map]
  rw [mount, mount, hcontains, happend]
  split <;> rfl

end Layer

/-- The function where it begins `n` instructions further on. -/
def Function.relocate (n : Nat) (f : Function) : Function := { f with entry := n + f.entry }

namespace AddressBook

/-- The book where every function begins `n` instructions further on. -/
def relocate (n : Nat) (book : AddressBook) : AddressBook :=
  { book with functions := book.functions.map (Function.relocate n) }

variable (n : Nat) (book : AddressBook)

theorem entry?_relocate (f : String) :
    AddressBook.entry? (book.relocate n) f = (book.entry? f).map fun a : Int => n + a := by
  rw [AddressBook.entry?, relocate, Layer.find?_map, entry?, Option.map_map, Option.map_map]
  rfl

theorem addVariable_relocate (m : Mention) :
    (book.relocate n).addVariable m =
      ((book.addVariable m).1, (book.addVariable m).2.relocate n) := by
  rw [relocate, addVariable_functions, relocate, functions_addVariable]

theorem addFunction_relocate (m : Mention) (entry : Int) :
    (book.relocate n).addFunction m (n + entry) =
      (book.addFunction m entry).map (relocate n) := by
  have hmount := book.functions.mount_map (Function.relocate n) m.text ⟨m, entry⟩
  unfold addFunction
  rw [show (book.relocate n).functions.mount m.text ⟨m, n + entry⟩ = _ from hmount]
  cases book.functions.mount m.text ⟨m, entry⟩ <;> rfl

theorem enter_relocate : (book.relocate n).enter = book.enter.map (relocate n) := by
  cases hscope : book.scope <;> simp [enter, relocate, hscope, Except.map]

theorem exit_relocate : (book.relocate n).exit = book.exit.map (relocate n) := by
  cases hscope : book.scope <;> simp [exit, relocate, hscope, Except.map]

end AddressBook

namespace Compilation

/-! ## Actions in step -/

/-- The state behind the instructions of `old`, with what has been written there. -/
def State.onto (s : State) (old : Log) (later : Program) : State :=
  ⟨s.token, s.upcoming, s.book.relocate old.size, old.followedBy later⟩

/-- What an action comes to, and what it comes to behind the instructions of `old`. -/
inductive Shifted {α β : Type} (old : Log) (waiting : Set Nat) (r : α → β → Prop) :
    Outcome α → Outcome β → Prop
  | ok {a : α} {b : β} {s : State} {later : Program} (result : r a b)
      (copied : Copied old.size waiting s.log.instructions later) :
      Shifted old waiting r (.ok a s) (.ok b (s.onto old later))
  | error (e : Failure) (s : State) (later : Program) :
      Shifted old waiting r (.error e s) (.error e (s.onto old later))

/-- The actions stay in step, the second one behind the instructions of `old`. Jumps wait at the
addresses in `waiting` before and at those in `waiting'` after. -/
def Moves {α β : Type} (old : Log) (waiting : Set Nat) (x : Action α) (y : Action β)
    (r : α → β → Prop) (waiting' : Set Nat) : Prop :=
  ∀ s later, Copied old.size waiting s.log.instructions later →
    Shifted old waiting' r (x s) (y (s.onto old later))

/-- The action stays in step with itself, answers the same and leaves nothing waiting that has not
waited before. -/
def Movable {α : Type} (old : Log) (x : Action α) : Prop :=
  ∀ waiting, Moves old waiting x x Eq waiting

variable {α β γ δ : Type} {old : Log} {w w₁ w' : Set Nat}

namespace Moves

variable {x : Action α} {y : Action β} {f : α → Action γ} {g : β → Action δ} {r : α → β → Prop}
  {r' : γ → δ → Prop}

theorem bind (hx : Moves old w x y r w₁) (hf : ∀ a b, r a b → Moves old w₁ (f a) (g b) r' w') :
    Moves old w (x >>= f) (y >>= g) r' w' := by
  intro s later h
  have hshifted := hx s later h
  generalize hxs : x s = outcome at hshifted
  generalize hys : y (s.onto old later) = outcome' at hshifted
  cases hshifted with
  | ok result copied =>
    rw [bind_of_ok hxs, bind_of_ok hys]
    exact hf _ _ result _ _ copied
  | error e s₁ later₁ =>
    rw [bind_eq_error.mpr (.inl hxs), bind_eq_error.mpr (.inl hys)]
    exact .error e s₁ later₁

theorem pure {a : α} {b : β} (h : r a b) : Moves old w (Pure.pure a) (Pure.pure b) r w :=
  fun _ _ copied => .ok h copied

/-- The first action answers the same on both sides. -/
theorem after {x : Action α} {f : α → Action γ} {g : α → Action δ} (hx : Movable old x)
    (hf : ∀ a, Moves old w (f a) (g a) r' w') : Moves old w (x >>= f) (x >>= g) r' w' :=
  (hx w).bind fun a _ hab => hab ▸ hf a

end Moves

namespace Movable

variable {x : Action α} {f : α → Action β}

theorem bind (hx : Movable old x) (hf : ∀ a, Movable old (f a)) : Movable old (x >>= f) :=
  fun w => .after hx fun a => hf a w

theorem pure (a : α) : Movable old (Pure.pure a : Action α) := fun _ => .pure rfl

theorem throw (e : Failure) : Movable old (MonadExcept.throw e : Action α) :=
  fun _ s later _ => .error e s later

/-- An action that reads off the state what is the same on both sides. -/
theorem read {g : State → α} (h : ∀ s later, g (s.onto old later) = g s) :
    Movable old fun s => .ok (g s) s :=
  fun _ s later copied => by
    simp only [h]
    exact .ok rfl copied

end Movable

/-! ## Tokens -/

theorem movable_current : Movable old current := .read fun _ _ => rfl

theorem movable_currentKind : Movable old currentKind := .read fun _ _ => rfl

theorem movable_advance : Movable old advance := by
  intro w s later copied
  by_cases hk : s.token.kind = .finish
  · rw [advance_finish hk, advance_finish (s := s.onto old later) hk]
    exact .ok rfl copied
  · cases hu : s.upcoming with
    | nil =>
      rw [advance_nil hk hu, advance_nil (s := s.onto old later) hk hu]
      exact .error _ s later
    | cons t rest =>
      rw [advance_cons hk hu, advance_cons (s := s.onto old later) hk hu]
      exact .ok (s := { s with token := t, upcoming := rest }) rfl copied

theorem movable_expect (k : Kind) (e : Expectation) : Movable old (expect k e) := by
  refine movable_current.bind fun t => ?_
  split
  · exact movable_advance.bind fun _ => .pure t
  · exact .throw _

theorem movable_expectSign (x : Sign) : Movable old (expectSign x) :=
  (movable_expect _ _).bind fun _ => .pure _

theorem movable_skipIndents : Movable old skipIndents := by
  intro w s later copied
  cases hd : s.tokens.dropWhile (fun t => decide (t.kind = .indent)) with
  | nil =>
    rw [skipIndents_nil hd, skipIndents_nil (s := s.onto old later) hd]
    exact .error _ s later
  | cons t rest =>
    rw [skipIndents_cons hd, skipIndents_cons (s := s.onto old later) hd]
    exact .ok (s := { s with token := t, upcoming := rest }) rfl copied

/-! ## Code -/

/-- An address that is further on by as much as `old` has instructions. -/
def Further (old : Log) (a b : Int) : Prop := b = old.size + a

theorem moves_here : Moves old w here here (Further old) w := by
  intro s later copied
  refine .ok ?_ copied
  change ((old.followedBy later).size : Int) = _
  rw [Log.size_followedBy, copied.size, Log.size]
  exact Int.natCast_add ..

/-- Instructions that become the same where what they refer to is further on. -/
theorem moves_emit_of_takes {op : Opcode} {x y : Option Operand} (hx : op.takesOperand = x.isSome)
    (hy : op.takesOperand = y.isSome)
    (hmoved : (Instruction.of op x).relocate old.size = .of op y) :
    Moves old w (emit op x) (emit op y) (Further old) w := by
  intro s later copied
  have hcopied := copied.push (.of op x)
  rw [hmoved] at hcopied
  unfold emit
  rw [Log.emit_listed hx, State.onto, Log.emit_followedBy hy]
  refine .ok (s := { s with log := _ }) ?_ hcopied
  change ((old.size + later.size : Nat) : Int) = _
  rw [copied.size, Log.size]
  exact Int.natCast_add ..

/-- An instruction whose operand is no address. -/
theorem moves_emit {op : Opcode} {x : Option Operand}
    (hfixed : (Instruction.of op x).relocate old.size = .of op x) :
    Moves old w (emit op x) (emit op x) (Further old) w := by
  by_cases htakes : op.takesOperand = x.isSome
  · exact moves_emit_of_takes htakes htakes hfixed
  · intro s later copied
    simp only [emit, Log.emit, if_neg htakes]
    exact .error (.log (.operandMismatch op x)) s later

theorem movable_emitPlain (op : Opcode) : Movable old (emitPlain op) :=
  fun _ => (moves_emit (Instruction.relocate_plain _ op)).bind fun _ _ _ => .pure rfl

/-- Writing an instruction with a count, a constant or the address of a cell, and going on without
its own address. -/
theorem Movable.written {op : Opcode} (hop : op.addresses = false) (x : Option Operand)
    {y : Action α} (hy : Movable old y) : Movable old (do let _ ← emit op x; y) :=
  fun w => (moves_emit (Instruction.relocate_of_not_addresses _ hop x)).bind fun _ _ _ => hy w

theorem takesOperand_of_addresses {op : Opcode} (h : op.addresses = true) :
    op.takesOperand = true := by
  cases op <;> first | rfl | cases h

/-- Writing an instruction with an address that is further on. -/
theorem moves_emitInt {op : Opcode} (hop : op.addresses = true) {a b : Int} (h : Further old a b) :
    Moves old w (emitInt op a) (emitInt op b) (Further old) w := by
  have htakes := takesOperand_of_addresses hop
  refine moves_emit_of_takes (by simpa using htakes) (by simpa using htakes) ?_
  rw [Instruction.relocate_of_addresses _ hop, h]

/-- A jump waits from where it is written on. -/
theorem Moves.waiting {op : Opcode} (hop : op.addresses = true) {f : Int → Action α}
    {g : Int → Action β} {r : α → β → Prop}
    (h : ∀ k : Nat, k ∉ w → Moves old (insert k w) (f k) (g (old.size + k : Nat)) r w') :
    Moves old w (emitInt op 0 >>= f) (emitInt op 0 >>= g) r w' := by
  intro s later copied
  have htakes : op.takesOperand = (some (Operand.int 0)).isSome := takesOperand_of_addresses hop
  have hx : emitInt op 0 s = .ok s.log.size
      { s with log := ⟨s.log.instructions.push (.of op (some (.int 0)))⟩ } := by
    rw [emitInt, emit, Log.emit_listed htakes]
  have hy : emitInt op 0 (s.onto old later) = .ok (old.size + later.size : Nat)
      (State.onto { s with log := ⟨s.log.instructions.push (.of op (some (.int 0)))⟩ } old
        (later.push (.of op (some (.int 0))))) := by
    rw [emitInt, emit, State.onto, Log.emit_followedBy htakes]
    rfl
  rw [bind_of_ok hx, bind_of_ok hy, copied.size]
  exact h s.log.size copied.size_notMem _ _ (copied.pushWaiting hop 0)

/-- A jump lands and does not wait any more. -/
theorem moves_land {k : Nat} (hk : k ∉ w) :
    Moves old (insert k w) (land k) (land (old.size + k : Nat)) Eq w := by
  intro s later copied
  obtain ⟨op, a, hop, hp, hq⟩ := copied.unsettled k (Set.mem_insert k w)
  have hlanded := copied.land hk hop s.log.size
  unfold land
  rw [Log.patch_of_getElem? hp, State.onto, Log.patch_followedBy hq, Log.size_followedBy,
    copied.size, Int.natCast_add]
  exact .ok (s := { s with log := _ }) rfl hlanded

/-! ## Names -/

theorem movable_declares (t : Token) : Movable old (declares t) := .read fun _ _ => rfl

theorem movable_lookup (t : Token) : Movable old (lookup t) := .read fun _ _ => rfl

theorem movable_addVariable (t : Token) : Movable old (addVariable t) := by
  intro w s later copied
  have hadded : (s.onto old later).book.addVariable (.ofToken t) =
      ((s.book.addVariable (.ofToken t)).1,
        (s.book.addVariable (.ofToken t)).2.relocate old.size) :=
    s.book.addVariable_relocate old.size (.ofToken t)
  unfold addVariable
  rw [hadded]
  exact .ok (s := { s with book := (s.book.addVariable (.ofToken t)).2 }) rfl copied

/-- The entry address of a function is further on. -/
theorem moves_entry (t : Token) :
    Moves old w ( entry? t) ( entry? t) (fun a b => b = a.map fun n : Int => old.size + n) w :=
  fun s _ copied => .ok (s.book.entry?_relocate old.size t.lexeme) copied

theorem movable_addFunction (t : Token) : Movable old (addFunction t) := by
  intro w s later copied
  have hentry : ((s.onto old later).log.size : Int) = old.size + s.log.size := by
    rw [State.onto, Log.size_followedBy, copied.size]
    exact Int.natCast_add ..
  have hadded : (s.onto old later).book.addFunction (.ofToken t) (old.size + s.log.size) =
      (s.book.addFunction (.ofToken t) s.log.size).map (AddressBook.relocate old.size) :=
    s.book.addFunction_relocate old.size (.ofToken t) s.log.size
  unfold addFunction
  rw [hentry, hadded]
  rcases s.book.addFunction (.ofToken t) s.log.size with (key | _ | _) | book
  · exact .error _ s later
  · exact .error _ s later
  · exact .error _ s later
  · exact .ok (s := { s with book }) rfl copied

theorem movable_enterFunction : Movable old enterFunction := by
  intro w s later copied
  have henter : (s.onto old later).book.enter = s.book.enter.map (AddressBook.relocate old.size) :=
    s.book.enter_relocate old.size
  unfold enterFunction
  rw [henter]
  rcases s.book.enter with e | book
  · exact .error _ s later
  · exact .ok (s := { s with book }) rfl copied

theorem movable_exitFunction : Movable old exitFunction := by
  intro w s later copied
  have hexit : (s.onto old later).book.exit = s.book.exit.map (AddressBook.relocate old.size) :=
    s.book.exit_relocate old.size
  unfold exitFunction
  rw [hexit]
  rcases s.book.exit with e | book
  · exact .error _ s later
  · exact .ok (s := { s with book }) rfl copied

theorem movable_load (t : Token) : Movable old (load t) := by
  refine (movable_lookup t).bind fun v => ?_
  cases v with
  | none => exact .throw _
  | some v => exact .written (by split <;> rfl) _ (.pure _)

theorem movable_store (t : Token) : Movable old (store t) := by
  refine (movable_lookup t).bind fun v => ?_
  cases v with
  | none => exact .throw _
  | some v => exact .written (by split <;> rfl) _ (.pure _)

theorem movable_declare (t : Token) : Movable old (declare t) :=
  (movable_addVariable t).bind fun _ => .written rfl _ (.pure _)

theorem movable_constant (t : Token) : Movable old (constant t) := by
  unfold constant
  cases Number.readFloat? t.lexeme with
  | none => exact .throw _
  | some x => exact .written rfl _ (.pure _)

end Compilation

end StackPrimer

import StackPrimer.Code.Log

/-!
# The history of a log

A log keeps no account of what has been asked of it, but it can be told from its history all the same.
Instructions stand in it in the order in which they were appended, with the mnemonics that they had then,
and an operand is the one that was put there last. What has been refused has left no trace.

Results:
* `perform_eq_ok_iff`, `perform_eq_error_iff`: what is granted, with what it does, and what is refused.
* `Sound.grants`: every instruction is one that the machine has, with an operand if it takes one.
* `mnemonics_behind`: mnemonics are only ever appended.
* `Tells.behind`: the log as its history tells it.
* `log_of_history`: all of this for the requests made of a new log.
-/

namespace StackPrimer.Log

/-! ## Requests -/

/-- What can be asked of a log: an instruction more, or another operand in place of one that is there. -/
inductive Request
  | emit (mnemonic : Mnemonic) (operand : Option Operand)
  | patch (address : Int) (operand : Operand)
  deriving DecidableEq

/-- How a request is answered, with an address if an instruction has been appended, and the log behind
it. -/
def perform (log : Log) : Request → Except LogError (Option Nat) × Log
  | .emit mnemonic operand =>
    let (answer, log) := log.emit mnemonic operand
    (answer.map some, log)
  | .patch address operand =>
    let (answer, log) := log.patch address (some operand)
    (answer.map fun _ => none, log)

/-- The log behind requests made one after the other. -/
def behind (log : Log) (rs : List Request) : Log := rs.foldl (fun log r => (log.perform r).2) log

/-- What the log grants, the answer to it, and what it does. -/
inductive Grants (log : Log) : Request → Option Nat → Log → Prop
  | emit {op : Opcode} {operand : Option Operand} : op.takesOperand = operand.isSome →
      Grants log (.emit (.listed op) operand) (some log.size)
        ⟨log.instructions.push (.of op operand)⟩
  | patch {k : Nat} {i : Instruction} {operand : Operand} : log.instructions[k]? = some i →
      i.operand.isSome → Grants log (.patch k operand) none
        ⟨log.instructions.setIfInBounds k { i with operand := some operand }⟩

/-- What the log refuses, and why. -/
inductive Refuses (log : Log) : Request → LogError → Prop
  | unlisted {word : String} {h : Opcode.ofWord? word = none} {operand : Option Operand} :
      Refuses log (.emit (.unlisted word h) operand) (.noSuchOperation word)
  | mismatch {op : Opcode} {operand : Option Operand} : op.takesOperand ≠ operand.isSome →
      Refuses log (.emit (.listed op) operand) (.operandMismatch op operand)
  | outside {address : Int} {operand : Operand} : address < 0 ∨ (log.size : Int) ≤ address →
      Refuses log (.patch address operand) (.noInstruction address)
  | bare {k : Nat} {i : Instruction} {operand : Operand} : log.instructions[k]? = some i →
      i.operand = none → Refuses log (.patch k operand) (.noOperand i.mnemonic k)

section Requests

variable {log log' : Log} {r : Request} {answer : Option Nat} {e : LogError}

theorem size_instructions (log : Log) : log.instructions.size = log.size := rfl

theorem Grants.perform (h : log.Grants r answer log') : log.perform r = (.ok answer, log') := by
  cases h with
  | emit htakes =>
    rw [Log.perform, emit_listed htakes]
    rfl
  | patch hget hsome => simp [Log.perform, Log.patch, hget, hsome, Except.map]

theorem Refuses.perform (h : log.Refuses r e) : log.perform r = (.error e, log) := by
  cases h with
  | unlisted => rfl
  | mismatch htakes => simp [Log.perform, Log.emit, htakes, Except.map]
  | @outside address operand houtside =>
    by_cases hpos : 0 ≤ address
    · have hnone : log.instructions[address.toNat]? = none := by
        apply Array.getElem?_eq_none
        rw [size_instructions]
        omega
      simp [Log.perform, Log.patch, hpos, hnone, Except.map]
    · simp [Log.perform, Log.patch, hpos, Except.map]
  | bare hget hnone => simp [Log.perform, Log.patch, hget, hnone, Except.map]

/-- Each request is granted or refused. -/
theorem grants_or_refuses (log : Log) (r : Request) :
    (∃ answer log', log.Grants r answer log') ∨ ∃ e, log.Refuses r e := by
  cases r with
  | emit mnemonic operand =>
    cases mnemonic with
    | listed op =>
      by_cases htakes : op.takesOperand = operand.isSome
      · exact .inl ⟨_, _, .emit htakes⟩
      · exact .inr ⟨_, .mismatch htakes⟩
    | unlisted word hword => exact .inr ⟨_, .unlisted⟩
  | patch address operand =>
    by_cases houtside : address < 0 ∨ (log.size : Int) ≤ address
    · exact .inr ⟨_, .outside houtside⟩
    · obtain ⟨k, rfl⟩ : ∃ k : Nat, address = k := ⟨address.toNat, by omega⟩
      have hlt : k < log.instructions.size := by
        rw [size_instructions]
        omega
      have hget := Array.getElem?_eq_getElem hlt
      cases hoperand : log.instructions[k].operand with
      | none => exact .inr ⟨_, .bare hget hoperand⟩
      | some x => exact .inl ⟨_, _, .patch hget (by rw [hoperand]; rfl)⟩

/-- What is granted does what it says. -/
theorem perform_eq_ok_iff : log.perform r = (.ok answer, log') ↔ log.Grants r answer log' := by
  refine ⟨fun h => ?_, Grants.perform⟩
  rcases log.grants_or_refuses r with ⟨answer', log'', hgrants⟩ | ⟨e, hrefuses⟩
  · rw [hgrants.perform] at h
    cases h
    exact hgrants
  · rw [hrefuses.perform] at h
    cases h

/-- What is refused changes nothing. -/
theorem perform_eq_error_iff :
    log.perform r = (.error e, log') ↔ log.Refuses r e ∧ log' = log := by
  refine ⟨fun h => ?_, fun h => ?_⟩
  · rcases log.grants_or_refuses r with ⟨answer', log'', hgrants⟩ | ⟨e', hrefuses⟩
    · rw [hgrants.perform] at h
      cases h
    · rw [hrefuses.perform] at h
      cases h
      exact ⟨hrefuses, rfl⟩
  · rw [h.2]
    exact h.1.perform

end Requests

/-! ## Instructions of the machine -/

/-- The mnemonic is that of an operation, and there is an operand exactly if the operation takes one. -/
def Fits (i : Instruction) : Prop :=
  ∃ op, i.mnemonic = .listed op ∧ i.operand.isSome = op.takesOperand

/-- All instructions in the log are instructions of the machine. -/
def Sound (log : Log) : Prop := ∀ (k : Nat) (i : Instruction), log.instructions[k]? = some i → Fits i

section Steps

variable {log log' : Log} {r : Request} {answer : Option Nat}

theorem Sound.empty : Sound {} := fun _ _ h => by cases h

/-- What is granted appends an instruction of the machine, or leaves each of them one. -/
theorem Sound.grants (h : log.Sound) (hgrants : log.Grants r answer log') : log'.Sound := by
  cases hgrants with
  | @emit op operand htakes =>
    intro k i hi
    rw [Array.getElem?_push] at hi
    split at hi
    · cases hi
      exact ⟨op, rfl, htakes.symm⟩
    · exact h k i hi
  | @patch k i operand hget hsome =>
    intro l i' hi'
    rw [Array.getElem?_setIfInBounds] at hi'
    split at hi'
    · split at hi'
      · cases hi'
        obtain ⟨op, hmnemonic, htakes⟩ := h k i hget
        exact ⟨op, hmnemonic, by rw [← htakes, hsome]; rfl⟩
      · cases hi'
    · exact h l i' hi'

/-- The mnemonics in the log, by address. -/
def mnemonics (log : Log) : List Mnemonic := log.instructions.toList.map (·.mnemonic)

/-- The mnemonics stay where they are. -/
theorem Grants.mnemonics (h : log.Grants r answer log') : log.mnemonics <+: log'.mnemonics := by
  cases h with
  | emit htakes => simp [Log.mnemonics]
  | @patch k i operand hget hsome =>
    have hlt : k < log.instructions.size := (Array.getElem?_eq_some_iff.mp hget).1
    have hsame : log.mnemonics =
        Log.mnemonics ⟨log.instructions.setIfInBounds k { i with operand := some operand }⟩ := by
      apply List.ext_getElem?
      intro l
      simp only [Log.mnemonics, List.getElem?_map, Array.getElem?_toList, Array.getElem?_setIfInBounds]
      by_cases hkl : k = l
      · subst hkl
        rw [if_pos rfl, if_pos hlt, hget]
        rfl
      · rw [if_neg hkl]
    exact hsame ▸ List.prefix_refl _

end Steps

/-- What holds of a log and outlives whatever is granted holds behind any requests. -/
theorem behind_induction {P : Log → Prop}
    (hgrants : ∀ {log log' r answer}, log.Grants r answer log' → P log → P log') {log : Log} (h : P log)
    (rs : List Request) : P (log.behind rs) := by
  induction rs generalizing log with
  | nil => exact h
  | cons r rs ih =>
    rw [behind, List.foldl_cons]
    rcases log.grants_or_refuses r with ⟨answer, log', hr⟩ | ⟨e, hr⟩
    · rw [hr.perform]
      exact ih (hgrants hr h)
    · rw [hr.perform]
      exact ih h

theorem Sound.behind {log : Log} (h : log.Sound) (rs : List Request) : (log.behind rs).Sound :=
  behind_induction (fun hgrants hlog => hlog.grants hgrants) h rs

/-- Mnemonics are only ever appended. -/
theorem mnemonics_behind (log : Log) (rs : List Request) :
    log.mnemonics <+: (log.behind rs).mnemonics :=
  behind_induction (P := fun log' => log.mnemonics <+: log'.mnemonics)
    (fun hgrants hlog => hlog.trans hgrants.mnemonics) (List.prefix_refl _) rs

/-! ## What the history tells -/

/-- Those of the requests made of a log that it grants. -/
def granted (log : Log) : List Request → List Request
  | [] => []
  | r :: rs =>
    match log.perform r with
    | (.ok _, log) => r :: granted log rs
    | (.error _, log) => granted log rs

/-- The instructions appended by requests, as they were then. -/
def appended (rs : List Request) : List Instruction :=
  rs.filterMap fun
    | .emit mnemonic operand => some ⟨mnemonic, operand⟩
    | .patch _ _ => none

/-- The operand that the request puts at the address, if it does. -/
def Request.puts? (address : Nat) : Request → Option Operand
  | .emit _ _ => none
  | .patch a operand => if a = address then some operand else none

/-- The last operand that requests have put at the address, if there is any. -/
def lastPut? (address : Nat) (rs : List Request) : Option Operand :=
  rs.reverse.findSome? (Request.puts? address)

/-- The log is as the requests granted so far tell it. -/
structure Tells (done : List Request) (log : Log) : Prop where
  getElem? : ∀ k : Nat, log.instructions[k]? =
    (appended done)[k]?.map fun i => { i with operand := (lastPut? k done).or i.operand }
  /-- Nothing has been put where nothing had been appended yet. -/
  fresh : ∀ k : Nat, log.size ≤ k → lastPut? k done = none

section History

variable {done : List Request} {log log' : Log} {r : Request} {answer : Option Nat}

theorem lastPut?_concat (k : Nat) (done : List Request) (r : Request) :
    lastPut? k (done ++ [r]) = (r.puts? k).or (lastPut? k done) := by
  rw [lastPut?, List.reverse_append, List.findSome?_append]
  cases h : r.puts? k <;> simp [h, lastPut?]

theorem Tells.size_eq (h : Tells done log) : log.size = (appended done).length := by
  have hiff : ∀ k, log.size ≤ k ↔ (appended done).length ≤ k := by
    intro k
    have hget := h.getElem? k
    rw [← List.getElem?_eq_none_iff, ← Option.map_eq_none_iff, ← hget, Array.getElem?_eq_none_iff]
    rfl
  exact Nat.le_antisymm ((hiff _).mpr (Nat.le_refl _)) ((hiff _).mp (Nat.le_refl _))

theorem Tells.empty : Tells [] {} := ⟨fun k => by simp [appended], fun k _ => rfl⟩

/-- One more request that is granted. -/
theorem Tells.grants (h : Tells done log) (hgrants : log.Grants r answer log') :
    Tells (done ++ [r]) log' := by
  cases hgrants with
  | @emit op operand htakes =>
    have hlast : ∀ k, lastPut? k (done ++ [.emit (.listed op) operand]) = lastPut? k done :=
      fun k => lastPut?_concat ..
    have happended : appended (done ++ [.emit (.listed op) operand]) =
        appended done ++ [.of op operand] := List.filterMap_append
    constructor
    · intro k
      have hget := h.getElem? k
      rw [hlast, happended, Array.getElem?_push, size_instructions]
      rcases Nat.lt_trichotomy k log.size with hlt | rfl | hgt
      · rw [if_neg (Nat.ne_of_lt hlt), hget, List.getElem?_append_left (h.size_eq ▸ hlt)]
      · rw [if_pos rfl, h.fresh _ (Nat.le_refl _), h.size_eq, List.getElem?_concat_length]
        rfl
      · have hlong : (appended done ++ [Instruction.of op operand]).length ≤ k := by
          rw [List.length_append, ← h.size_eq]
          exact hgt
        rw [if_neg (Nat.ne_of_gt hgt), List.getElem?_eq_none hlong]
        exact Array.getElem?_eq_none (Nat.le_of_lt hgt)
    · intro k hk
      rw [hlast]
      refine h.fresh k (Nat.le_trans (Nat.le_succ _) (Nat.le_trans (Nat.le_of_eq ?_) hk))
      exact (Array.size_push ..).symm
  | @patch l i operand hget hsome =>
    have hlt : l < log.instructions.size := (Array.getElem?_eq_some_iff.mp hget).1
    have happended : appended (done ++ [.patch l operand]) = appended done :=
      List.filterMap_append.trans (List.append_nil _)
    have hlast : ∀ k, lastPut? k (done ++ [.patch l operand]) =
        (if l = k then some operand else none).or (lastPut? k done) := by
      intro k
      rw [lastPut?_concat]
      simp only [Request.puts?, Int.natCast_inj]
    constructor
    · intro k
      rw [happended, hlast, Array.getElem?_setIfInBounds]
      by_cases hk : l = k
      · subst hk
        have hthere := h.getElem? l
        rw [hget] at hthere
        obtain ⟨i', hi', rfl⟩ := Option.map_eq_some_iff.mp hthere.symm
        rw [if_pos rfl, if_pos hlt, if_pos rfl, hi']
        rfl
      · rw [if_neg hk, if_neg hk, h.getElem? k, Option.none_or]
    · intro k hk
      have hsize : log.size ≤ k := Nat.le_trans (Nat.le_of_eq (Array.size_setIfInBounds ..).symm) hk
      rw [hlast, if_neg (Nat.ne_of_lt (Nat.lt_of_lt_of_le hlt hsize)), Option.none_or]
      exact h.fresh k hsize

/-- Requests that are made one after the other, of a log that is told by its history. -/
theorem Tells.behind (h : Tells done log) (rs : List Request) :
    Tells (done ++ granted log rs) (log.behind rs) := by
  induction rs generalizing done log with
  | nil => exact (List.append_nil done).symm ▸ h
  | cons r rs ih =>
    rcases log.grants_or_refuses r with ⟨answer, log', hgrants⟩ | ⟨e, hrefuses⟩
    · have hnext := ih (h.grants hgrants)
      rw [List.append_assoc] at hnext
      rw [granted, Log.behind, List.foldl_cons, hgrants.perform]
      exact hnext
    · rw [granted, Log.behind, List.foldl_cons, hrefuses.perform]
      exact ih h

end History

/-- Whatever has been asked of a new log, and however much of it has been refused, the log is as its history
tells it: at each address stands the instruction that was appended there, with the operand that was put there
last, or else the one that it came with. Each of them is an instruction of the machine. What is asked next is
granted or refused by the rules, and what is refused changes nothing. And whatever is asked later, the mnemonics
stay where they are. -/
theorem log_of_history (rs : List Request) :
    let log := behind {} rs
    let done := granted {} rs
    (log.size = (appended done).length ∧ ∀ k : Nat, log.instructions[k]? =
        (appended done)[k]?.map fun i => { i with operand := (lastPut? k done).or i.operand }) ∧
      log.Sound ∧
      (∀ r answer log', log.perform r = (.ok answer, log') ↔ log.Grants r answer log') ∧
      (∀ r e log', log.perform r = (.error e, log') ↔ log.Refuses r e ∧ log' = log) ∧
      ∀ later, log.mnemonics <+: (log.behind later).mnemonics := by
  intro log done
  have htells : Tells done log := Tells.empty.behind rs
  have hsound : log.Sound := Sound.empty.behind rs
  exact ⟨⟨htells.size_eq, htells.getElem?⟩, hsound, fun _ _ _ => perform_eq_ok_iff,
    fun _ _ _ => perform_eq_error_iff, log.mnemonics_behind⟩

/-- A jump whose operand is put there twice, among five requests that are refused. -/
def jumpRequests : List Request :=
  [.emit (.listed .start) none, .emit (.listed .jump) none, .emit (.listed .jump) (some (.int 0)),
    .emit (.ofWord "nop") none, .patch (-1) (.int 5), .patch 0 (.int 5), .patch 1 (.int 7),
    .emit (.listed .constant) (some (.float 2.5)), .patch 1 (.float 3), .patch 3 (.int 1)]

/-- The jump has the operand that was put there last, and the constant the one that it came with. -/
theorem log_of_history_jump :
    (behind {} jumpRequests).instructions[1]? = some (.of .jump (some (.float 3))) ∧
      (behind {} jumpRequests).instructions[2]? = some (.of .constant (some (.float 2.5))) ∧
      (behind {} jumpRequests).size = 3 := by
  have hdone : granted {} jumpRequests =
      [.emit (.listed .start) none, .emit (.listed .jump) (some (.int 0)), .patch 1 (.int 7),
        .emit (.listed .constant) (some (.float 2.5)), .patch 1 (.float 3)] := by decide +kernel
  obtain ⟨⟨hsize, hget⟩, -⟩ := log_of_history jumpRequests
  rw [hget, hget, hsize, hdone]
  exact ⟨rfl, rfl, rfl⟩

end StackPrimer.Log

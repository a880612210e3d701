import StackPrimer.Proofs.Discipline.Run
import StackPrimer.Proofs.Machine.Effect
import StackPrimer.Proofs.Reserving.Globals
import StackPrimer.Proofs.Reserving.Level

/-!
# Memory outside of functions

While functions are open, what belongs to the program outside of them stays in front of the first
frame, and where the program goes on outside of them is behind the call that opened the first one. So
there is at any time an address outside of functions to which the run has come, and a number of cells
there, which is never more than the level of that address.

Results:
* `Performs.outerSize_le`: inside of functions the cells outside of them do not become more.
* `Performs.within_level`: an instruction outside of functions keeps memory within the level.
* `spared_of_visits`: throughout a run, the cells outside of functions are within the level.
* `memory_le_globals`: while no function is open, memory has no more cells than the program has
  variables.
-/

namespace StackPrimer.Reserving

open Grammar Confinement Discipline
open Compilation (token compileTokens)
open Machine (Performs)

/-! ## Where a run is outside of functions -/

/-- The address of the call that opened the first of the functions that are open. -/
def outermost : List OpenCall → Option Int
  | [] => none
  | [c] => c.site
  | _ :: c :: rest => outermost (c :: rest)

/-- The address outside of functions to which the run has come: while a function is open, that of the
call. -/
def outerAddress (m : Machine) (calls : List OpenCall) : Int := (outermost calls).getD m.ip

/-- How many cells there are in front of the first frame that a function has opened, or in memory, if
none has. -/
def cellsBefore (size : Nat) : (frame : Nat) → (frames : List Nat) → Nat
  | _, [] => size
  | frame, f :: frames => cellsBefore frame f frames

/-- How many cells belong to the program outside of functions. -/
def outerSize (m : Machine) : Nat := cellsBefore m.memory.size m.frame m.calls

theorem outermost_cons {c : OpenCall} {rest : List OpenCall} (h : rest ≠ []) :
    outermost (c :: rest) = outermost rest := by
  cases rest with
  | nil => exact absurd rfl h
  | cons c' rest => rfl

theorem outerSize_of_calls_eq_nil {m : Machine} (h : m.calls = []) :
    outerSize m = m.memory.size := by
  rw [outerSize, h, cellsBefore]

theorem cellsBefore_mono {size size' frame : Nat} {frames : List Nat} (h : size ≤ size') :
    cellsBefore size frame frames ≤ cellsBefore size' frame frames := by
  cases frames with
  | nil => exact h
  | cons f frames => exact Nat.le_refl _

section Inside

variable {m m' : Machine} {op : Opcode} {x : Operand} {target : Option Int}

/-- Inside of functions, and where one is entered, the cells outside of them do not become more. -/
theorem Performs.outerSize_le (h : Performs m op x target m') (hinside : m.calls ≠ [] ∨ op = .enter) :
    outerSize m' ≤ outerSize m := by
  -- what is done to memory behind the first frame makes no difference
  have hgrow : m.calls ≠ [] → ∀ stack memory,
      outerSize { m with stack, memory } ≤ outerSize m := by
    intro hcalls stack memory
    obtain ⟨f, frames, hframes⟩ := List.exists_cons_of_ne_nil hcalls
    simp [outerSize, hframes, cellsBefore]
  cases h with
  | allocate => exact hgrow (hinside.resolve_right (by simp)) _ _
  | @store _ scope _ _ _ _ _ hop =>
    refine hgrow (hinside.resolve_right ?_) _ _
    rintro rfl
    cases hop
  | leave hcalls =>
    simp only [outerSize, hcalls]
    exact cellsBefore_mono (by simp)
  | enter => exact Nat.le_refl _
  | _ => exact Nat.le_refl _

end Inside

section Stands

variable {sites : Sites} {m : Machine} {calls : List OpenCall} {frame : Nat} {frames : List Nat}

theorem Nested.inside {base : List Float} (h : Nested sites calls base frame frames)
    (hcalls : calls ≠ []) : frames ≠ [] ∧ ∃ address, outermost calls = some address := by
  induction h with
  | main => exact absurd rfl hcalls
  | @call c rest _ _ _ _ _ _ hsite _ _ hframes _ ih =>
    refine ⟨by simp [hframes], ?_⟩
    by_cases hrest : rest = []
    · subst hrest
      exact ⟨_, hsite⟩
    · rw [outermost_cons hrest]
      exact (ih hrest).2

/-- Outside of functions no frame has been saved, and no function has been called. -/
theorem Under.outside {pending : Option Nat} {under : List Float}
    (h : Under sites false pending calls under frame frames) :
    frames = [] ∧ ((pending = none ∧ calls = []) ∨ ∃ c, calls = [c] ∧ c.site = none) := by
  generalize hinside : false = inside at h
  cases h with
  | body hnested =>
    cases hnested with
    | main _ _ hframes => exact ⟨hframes, .inl ⟨rfl, rfl⟩⟩
    | call => simp at hinside
  | @arguments c rest _ _ _ _ _ hsite _ _ hframes hnested =>
    cases hnested with
    | main _ _ hnone =>
      rw [hframes] at hnone
      exact ⟨hnone, .inr ⟨c, rfl, hsite⟩⟩
    | call => simp at hinside

/-- Inside of functions a frame has been saved, and the first function has been called. -/
theorem Under.inside {pending : Option Nat} {under : List Float}
    (h : Under sites true pending calls under frame frames) :
    frames ≠ [] ∧ ∃ address, outermost calls = some address := by
  generalize hinside : true = inside at h
  cases h with
  | body hnested =>
    refine Nested.inside hnested ?_
    rintro rfl
    simp at hinside
  | @arguments c rest _ _ _ _ _ _ _ _ hframes hnested =>
    have hrest : rest ≠ [] := by
      rintro rfl
      simp at hinside
    rw [outermost_cons hrest, ← hframes]
    exact Nested.inside hnested hrest

/-- Where a function is entered, the first function has been called. -/
theorem Stands.entered {arguments : Nat} (h : Stands sites m calls (.entry arguments)) :
    ∃ address, outermost calls = some address := by
  generalize hs : Site.entry arguments = s at h
  cases h with
  | within => cases hs
  | @entry c rest _ _ _ _ _ hsite _ _ _ hnested =>
    by_cases hrest : rest = []
    · subst hrest
      exact ⟨_, hsite⟩
    · rw [outermost_cons hrest]
      exact (Nested.inside hnested hrest).2

end Stands

/-! ## One instruction outside of functions -/

section Outside

variable {source : Grammar.Source} {tokens : List Token} {p : Program} {a : Nat} {i : Instruction}
  {op : Opcode} {operand : Option Operand}

/-- What an instruction outside of functions is held to. -/
structure Held (source : Grammar.Source) (p : Program) (a : Nat) (op : Opcode)
    (operand : Option Operand) : Prop where
  rule : ∃ n, Confinement.Rule source.regions source.finalNames.globals (p.size - 1) a n op operand
  spares : Spares source.level a op operand
  level : source.level (a + 1) = source.level a + cells (.of op operand)
  /-- Only a jump stands in front of the code of a function. -/
  next : op ≠ .jump → source.Outside (a + 1)

theorem held_of_explains (h : source.Explains tokens p) (hthrifty : source.Thrifty)
    (hi : p[a]? = some i) (houtside : source.Outside a) :
    ∃ op operand, i = .of op operand ∧ Held source p a op operand := by
  have hclosed := closed_of_explains h
  obtain ⟨n, -, op, operand, rfl, hrule⟩ := hclosed.rules a i hi
  have hcode : source.code[a]? = some (.of op operand) := by
    rw [← h.code, Array.getElem?_toList, hi]
  have hspares := (Source.spares h.wellScoped hthrifty).1 a _ hcode
  rw [Nat.zero_add] at hspares
  refine ⟨op, operand, rfl, ⟨n, hrule⟩, Satisfies.of_iff.mp (hspares houtside),
    level_succ hcode houtside, ?_⟩
  intro hjump r hr hcontains
  obtain ⟨b, hb, haround⟩ := (hclosed.framed r hr).around
  have hentry : b = a := by
    by_contra hne
    exact houtside r hr ⟨by have := hcontains.1; omega, by have := hcontains.2; omega⟩
  rw [hentry, hi, Option.some.injEq] at haround
  exact hjump (Instruction.of_inj haround).1

/-- A jump outside of functions stays there, and does not go to a lower level. -/
theorem Held.target (h : Held source p a op operand) (houtside : source.Outside a)
    (hop : op = .jump ∨ op = .jumpIfZero) :
    ∃ t : Nat, operand = some (.int t) ∧ source.Outside t ∧ source.level a ≤ source.level t := by
  obtain ⟨n, hrule⟩ := h.rule
  have hspares := h.spares
  have hjump : (∃ t : Nat, operand = some (.int t) ∧ 0 < t ∧ t ≤ p.size - 1 ∧
        ∀ r ∈ source.regions, (r.Contains t ↔ r.Contains a) ∧ t ≠ r.entry) ∧
      ∀ t : Nat, operand = some (.int t) → source.level a ≤ source.level t := by
    rcases hop with rfl | rfl <;> exact ⟨hrule, hspares⟩
  obtain ⟨⟨t, ht, -, -, hregions⟩, hlevel⟩ := hjump
  exact ⟨t, ht, fun r hr hc => houtside r hr ((hregions r hr).1.mp hc), hlevel t ht⟩

/-- The operand of an instruction is the one with which its operation is carried out. -/
theorem operation?_of {m : Machine} {op' : Opcode} {x : Operand}
    (hi : m.instruction? = some (.of op operand)) (h : m.operation? = some (op', x)) :
    op' = op ∧ ∀ y, operand = some y → x = y := by
  rw [Machine.operation?, hi, Option.bind_some] at h
  cases operand with
  | some y =>
    obtain ⟨rfl, rfl⟩ : op = op' ∧ y = x := by
      simpa [Machine.decode, Instruction.of, Except.toOption] using h
    exact ⟨rfl, by simp⟩
  | none =>
    cases htakes : op.takesOperand with
    | true => simp [Machine.decode, Instruction.of, htakes, Except.toOption] at h
    | false =>
      obtain ⟨rfl, -⟩ : op = op' ∧ Operand.int 0 = x := by
        simpa [Machine.decode, Instruction.of, htakes, Except.toOption] using h
      exact ⟨rfl, by simp⟩

variable {m m' : Machine} {x : Operand} {target : Option Int}

/-- An instruction outside of functions keeps memory within the level, and goes on outside of
functions, unless it calls one. -/
theorem Performs.within_level (h : Performs m op x target m') (hheld : Held source p a op operand)
    (houtside : source.Outside a) (hx : ∀ y, operand = some y → x = y) (hcall : op ≠ .call)
    (hip : m.ip = a) (hcalls : m.calls = []) (hsize : m.memory.size ≤ source.level a) :
    m'.calls = [] ∧ ∃ a' : Nat, target.getD (m.ip + 1) = a' ∧ source.Outside a' ∧
      m'.memory.size ≤ source.level a' := by
  have hgoOn : ∀ size : Nat, op ≠ .jump → size ≤ source.level (a + 1) →
      ∃ a' : Nat, (none : Option Int).getD (m.ip + 1) = a' ∧ source.Outside a' ∧
        size ≤ source.level a' := by
    intro size hjump hle
    exact ⟨a + 1, by rw [hip]; rfl, hheld.next hjump, hle⟩
  have hkeep : m.memory.size ≤ source.level (a + 1) := hsize.trans (level_mono source (Nat.le_succ a))
  have hjump : op = .jump ∨ op = .jumpIfZero → ∀ address, x.address = .ok address →
      ∃ a' : Nat, (some address).getD (m.ip + 1) = a' ∧ source.Outside a' ∧
        m.memory.size ≤ source.level a' := by
    intro hop address haddress
    obtain ⟨t, ht, hout, hle⟩ := hheld.target houtside hop
    obtain rfl := hx _ ht
    cases haddress
    exact ⟨t, rfl, hout, hsize.trans hle⟩
  obtain ⟨⟨n, hrule⟩, hspares, hlevel, -⟩ := hheld
  cases h with
  | allocate =>
    refine ⟨hcalls, hgoOn _ (by simp) ?_⟩
    rw [hlevel, Array.size_push]
    exact Nat.add_le_add_right hsize 1
  | @store _ scope _ address k y stack hop haddress hplace =>
    refine ⟨hcalls, hgoOn _ ?_ ?_⟩
    · rintro rfl
      cases hop
    · cases op with
      | storeGlobal =>
        cases hop
        obtain ⟨-, g, hg, -⟩ := hrule
        have hlt := hspares g hg
        obtain rfl := hx _ hg
        cases haddress
        obtain rfl : g = k := Int.ofNat_inj.mp hplace
        rw [Machine.size_written]
        omega
      | storeLocal =>
        obtain ⟨r, hr, hcontains, -⟩ := hrule
        exact absurd hcontains (houtside r hr)
      | _ => cases hop
  | jump hop haddress =>
    exact ⟨hcalls, hjump (.inl (hop.resolve_right hcall)) _ haddress⟩
  | jumpIfZero _ _ haddress => exact ⟨hcalls, hjump (.inr rfl) _ haddress⟩
  | enter =>
    obtain ⟨-, r, hr, rfl⟩ := hrule
    exact absurd ⟨Nat.le_refl _, r.entry_lt_leave.le⟩ (houtside r hr)
  | leave hframes =>
    rw [hcalls] at hframes
    cases hframes
  | constant hop =>
    refine ⟨hcalls, hgoOn _ ?_ hkeep⟩
    rcases hop with rfl | rfl <;> simp
  | load hop =>
    refine ⟨hcalls, hgoOn _ ?_ hkeep⟩
    rintro rfl
    cases hop
  | binary hop =>
    refine ⟨hcalls, hgoOn _ ?_ hkeep⟩
    rintro rfl
    cases hop
  | _ => exact ⟨hcalls, hgoOn _ (by simp) hkeep⟩

end Outside

/-! ## One turn -/

section Turn

variable {sites : Sites} {m m' : Machine} {calls : List OpenCall} {a : Nat} {i : Instruction}
  {op : Opcode} {operand : Option Operand}

/-- Where a function is entered, there is the instruction that opens the frame. -/
theorem Fits.enter_of_entry {arguments : Nat} (h : Fits sites a i)
    (hs : sites a = some (.entry arguments)) : i = plain .enter := by
  cases h with
  | enter => rfl
  | _ => simp_all

/-- A function is called while arguments are being pushed. -/
theorem Fits.call_within (h : Fits sites a (.of .call operand)) :
    ∃ inside back arguments, sites a = some (.within inside (some back) arguments) := by
  generalize hi : Instruction.of .call operand = i at h
  cases h with
  | call ha => exact ⟨_, _, _, ha⟩
  | load scope => cases scope <;> cases hi
  | store scope => cases scope <;> cases hi
  | binary hop =>
    obtain ⟨rfl, -⟩ := Instruction.of_inj hi
    cases hop
  | _ => cases hi

/-- While arguments are being pushed, the call has not been carried out. -/
theorem Under.exists_pending {inside : Bool} {back : Nat} {under : List Float} {frame : Nat}
    {frames : List Nat} (h : Under sites inside (some back) calls under frame frames) :
    ∃ c rest, calls = c :: rest ∧ c.site = none := by
  cases h with
  | arguments _ hsite => exact ⟨_, _, rfl, hsite⟩

/-- Only calling and leaving make a difference to which function has been called first. -/
theorem outermost_openedBy (hcall : op ≠ .call) (hleave : op ≠ .leave) :
    outermost (openedBy m calls (.of op operand)) = outermost calls := by
  cases op with
  | pushReturn => cases calls <;> rfl
  | call => exact absurd rfl hcall
  | leave => exact absurd rfl hleave
  | _ => rfl

/-- Calling is going to the function. -/
theorem Performs.call_eq {x : Operand} {target : Option Int} (h : Performs m .call x target m') :
    m = m' := by
  cases h with
  | jump => rfl
  | constant hop => simp at hop
  | load hop => cases hop
  | store hop => cases hop
  | binary hop => cases hop

variable {source : Grammar.Source} {tokens : List Token} {p : Program} {input : String}

/-- The cells outside of functions are within the level of the address there to which the run has
come. -/
def Spared (source : Grammar.Source) (m : Machine) (calls : List OpenCall) : Prop :=
  ∃ a : Nat, outerAddress m calls = a ∧ source.Outside a ∧ outerSize m ≤ source.level a

/-- Where no function is open, that is the address of the machine, and all of memory. -/
theorem Spared.outside {pending : Option Nat} {depth : Nat} (h : Spared source m calls)
    (hip : m.ip = a) (hstands : Stands sites m calls (.within false pending depth)) :
    m.calls = [] ∧ outermost calls = none ∧ (pending ≠ none → ∃ c, calls = [c]) ∧
      source.Outside a ∧ m.memory.size ≤ source.level a := by
  obtain ⟨temps, under, -, -, hunder⟩ := hstands.of_within
  obtain ⟨hcalls, hopen⟩ := Under.outside hunder
  have hnone : outermost calls = none := by
    rcases hopen with ⟨-, rfl⟩ | ⟨c, rfl, hsite⟩
    · rfl
    · exact hsite
  obtain ⟨b, hb, houtside, hle⟩ := h
  rw [outerSize_of_calls_eq_nil hcalls] at hle
  rw [outerAddress, hnone, Option.getD_none, hip] at hb
  obtain rfl : a = b := Int.ofNat_inj.mp hb
  refine ⟨hcalls, hnone, fun hpending => ?_, houtside, hle⟩
  exact (hopen.resolve_left fun hnil => hpending hnil.1).imp fun _ => And.left

/-- A turn outside of functions. -/
theorem Spared.turn_outside {pending : Option Nat} {depth : Nat} (h : Spared source m calls)
    (hexplains : source.Explains tokens p) (hthrifty : source.Thrifty) (hturn : m.Turns m')
    (hip : m.ip = a) (hi : m.instruction? = some i) (hat : p[a]? = some i) (hfit : Fits sites a i)
    (hs : sites a = some (.within false pending depth))
    (hstands : Stands sites m calls (.within false pending depth)) :
    Spared source m' (openedBy m calls i) := by
  obtain ⟨hcalls, hnone, hpending, houtside, hle⟩ := h.outside hip hstands
  obtain ⟨op, operand, rfl, hheld⟩ := held_of_explains hexplains hthrifty hat houtside
  obtain ⟨op', x, target, m₁, hoperation, hperforms, rfl⟩ := Machine.step_eq_ok hturn.2
  obtain ⟨rfl, hx⟩ := operation?_of hi hoperation
  by_cases hcall : op' = .call
  · subst hcall
    obtain ⟨c, rfl⟩ : ∃ c, calls = [c] := by
      obtain ⟨inside, back, arguments, hs'⟩ := Fits.call_within hfit
      rw [hs, Option.some.injEq] at hs'
      cases hs'
      exact hpending (by simp)
    obtain rfl : m = m₁ := Performs.call_eq hperforms
    refine ⟨a, hip, houtside, ?_⟩
    rwa [outerSize_of_calls_eq_nil]
    exact hcalls
  · obtain ⟨hcalls', a', ha', houtside', hle'⟩ :=
      Performs.within_level hperforms hheld houtside hx hcall hip hcalls hle
    have hleave : op' ≠ .leave := by
      rintro rfl
      obtain ⟨n, -, r, hr, rfl⟩ := hheld.rule
      exact houtside r hr ⟨r.entry_lt_leave.le, Nat.le_refl _⟩
    refine ⟨a', ?_, houtside', ?_⟩
    · rw [outerAddress, outermost_openedBy hcall hleave, hnone]
      exact ha'
    · rwa [outerSize_of_calls_eq_nil]
      exact hcalls'

/-- A turn inside of functions, or one that enters a function. -/
theorem Spared.turn_inside {s : Site} {address : Int} (h : Spared source m calls)
    (hexplains : source.Explains tokens p) (hthrifty : source.Thrifty)
    (hsites : WellSited sites p.toList) (hsize : p.size ≤ 2 ^ 53)
    (hvisits : Visits (Machine.load p input).started m calls) (hturn : m.Turns m')
    (hi : m.instruction? = some i) (hat : p[a]? = some i) (hfit : Fits sites a i)
    (hs : sites a = some s) (hstands : Stands sites m calls s)
    (hinside : m.calls ≠ [] ∨ i = plain .enter) (houter : outermost calls = some address) :
    Spared source m' (openedBy m calls i) := by
  obtain ⟨b, hb, houtside, hle⟩ := h
  obtain rfl : address = b := by rwa [outerAddress, houter] at hb
  obtain ⟨n, -, op, operand, rfl, hrule⟩ := (closed_of_explains hexplains).rules a i hat
  obtain ⟨op', x, target, m₁, hoperation, hperforms, rfl⟩ := Machine.step_eq_ok hturn.2
  obtain ⟨rfl, -⟩ := operation?_of hi hoperation
  have hle' : outerSize m₁ ≤ source.level b := by
    refine (Performs.outerSize_le hperforms (hinside.imp_right fun h => ?_)).trans hle
    exact (Instruction.of_inj h).1
  by_cases hleave : op' = .leave
  · subst hleave
    obtain rfl : operand = none := hrule.1
    obtain rfl : s = .between true := Option.some.inj (hs.symm.trans hfit.leave_inside)
    obtain ⟨c, rest, y, back, m₂, rfl, -, hsite, -, -, hexecute, hback, -⟩ :=
      execute_leave_of_stands hstands
    have hreturn : target.getD (m.ip + 1) = back := by
      have hstep := hturn.2
      rw [Machine.step_eq hi] at hstep
      cases hstep.symm.trans hexecute
      exact hback
    by_cases hrest : rest = []
    · -- the first function is left, and the run goes on behind its call
      subst hrest
      obtain ⟨d, entry, hd, hcall⟩ :=
        site_of_visits hsites hsize hvisits c (List.mem_cons_self ..) _ hsite
      have hsite' : (back : Int) - 1 = b := Option.some.inj (hsite.symm.trans houter)
      obtain rfl : d = b := by omega
      obtain ⟨op, operand, hop, hheld⟩ := held_of_explains hexplains hthrifty hcall houtside
      have hjump : op ≠ .jump := by
        rw [← (Instruction.of_inj hop).1]
        simp
      refine ⟨d + 1, ?_, hheld.next hjump, hle'.trans (level_mono source (Nat.le_succ d))⟩
      change target.getD (m.ip + 1) = _
      omega
    · refine ⟨b, ?_, houtside, hle'⟩
      rw [outermost_cons hrest] at houter
      change (outermost rest).getD _ = _
      rw [houter, Option.getD_some]
  · have hsame : outermost (openedBy m calls (.of op' operand)) = outermost calls := by
      by_cases hcall : op' = .call
      · subst hcall
        obtain ⟨inside, back, arguments, hwithin⟩ := Fits.call_within hfit
        obtain rfl : s = _ := Option.some.inj (hs.symm.trans hwithin)
        obtain ⟨temps, under, -, -, hunder⟩ := hstands.of_within
        obtain ⟨c, rest, rfl, hsite⟩ := Under.exists_pending hunder
        have hrest : rest ≠ [] := by
          rintro rfl
          cases hsite.symm.trans houter
        exact (outermost_cons hrest).trans (outermost_cons hrest).symm
      · exact outermost_openedBy hcall hleave
    exact ⟨b, by rw [outerAddress, hsame, houter, Option.getD_some], houtside, hle'⟩

/-- Throughout a run, the cells outside of functions are within the level. -/
theorem spared_of_visits (hexplains : source.Explains tokens p) (hthrifty : source.Thrifty)
    (hsites : WellSited sites p.toList) (hsize : p.size ≤ 2 ^ 53)
    (h : Visits (Machine.load p input).started m calls) : Spared source m calls := by
  induction h with
  | start =>
    refine ⟨0, rfl, ?_, Nat.zero_le _⟩
    intro r hr hcontains
    obtain ⟨b, hb, -⟩ := ((closed_of_explains hexplains).framed r hr).around
    have hentry := hcontains.1
    omega
  | @turn m m' calls hvisits hturn ih =>
    obtain ⟨hprogram, hholds⟩ := holds_of_visits hsites hsize hvisits
    obtain ⟨a, i, s, hip, -, hi, hfit, hs, hstands, -⟩ :=
      hholds.proceeds hsites hsize hprogram hturn.1
    have hat : p[a]? = some i := by rw [← hprogram, ← Machine.instruction?_eq hip, hi]
    rw [opened_eq hi]
    cases s with
    | within inside pending depth =>
      cases inside with
      | false => exact ih.turn_outside hexplains hthrifty hturn hip hi hat hfit hs hstands
      | true =>
        obtain ⟨temps, under, -, -, hunder⟩ := hstands.of_within
        obtain ⟨hcalls, address, houter⟩ := Under.inside hunder
        exact ih.turn_inside hexplains hthrifty hsites hsize hvisits hturn hi hat hfit hs hstands
          (.inl hcalls) houter
    | entry arguments =>
      obtain ⟨address, houter⟩ := Stands.entered hstands
      exact ih.turn_inside hexplains hthrifty hsites hsize hvisits hturn hi hat hfit hs hstands
        (.inr (Fits.enter_of_entry hfit hs)) houter

/-- While no function is open, memory is too small for an instruction only if it is too small for the
variables of the program. -/
theorem Spared.limit_lt {s : Site} {address : Int} (h : Spared source m calls)
    (hexplains : source.Explains tokens p) (hthrifty : source.Thrifty) (hip : m.ip = a)
    (hat : p[a]? = some i) (hfit : Fits sites a i) (hs : sites a = some s)
    (hstands : Stands sites m calls s) (hcalls : m.calls = [])
    (hfault : Faulty m i (.beyondMemory address)) :
    memoryLimit < source.finalNames.globals.length := by
  have hbelow : ∀ {k : Nat}, memoryLimit ≤ k → k < source.level (a + 1) →
      memoryLimit < source.finalNames.globals.length := fun hlimit hk =>
    hlimit.trans_lt (hk.trans_le (Source.level_le hexplains.wellScoped hthrifty (a + 1)))
  cases s with
  | entry arguments =>
    obtain rfl := Fits.enter_of_entry hfit hs
    generalize hi : plain .enter = i at hfault
    cases hfault with
    | allocate => cases hi
    | @store scope => cases scope <;> cases hi
  | within inside pending depth =>
    cases inside with
    | true =>
      obtain ⟨temps, under, -, -, hunder⟩ := hstands.of_within
      exact absurd hcalls (Under.inside hunder).1
    | false =>
      obtain ⟨-, -, -, houtside, hle⟩ := h.outside hip hstands
      obtain ⟨op, operand, rfl, hheld⟩ := held_of_explains hexplains hthrifty hat houtside
      generalize hi : Instruction.of op operand = i at hfault
      cases hfault with
      | allocate hfull =>
        obtain ⟨rfl, rfl⟩ := Instruction.of_inj hi
        refine hbelow hfull ?_
        rw [hheld.level]
        exact Nat.lt_succ_of_le hle
      | @store scope n hfull =>
        obtain ⟨rfl, rfl⟩ := Instruction.of_inj hi
        cases scope with
        | global => exact hbelow hfull (hheld.spares n rfl)
        | function =>
          obtain ⟨-, r, hr, hcontains, -⟩ := hheld.rule
          exact absurd hcontains (houtside r hr)

end Turn

/-! ## Whole runs -/

section Runs

variable {tokens : List Token} {p : Program} {globals : Nat}

theorem reaches_of_visits {m₀ m : Machine} {calls : List OpenCall} (h : Visits m₀ m calls) :
    m₀.Reaches m := by
  induction h with
  | start => exact .refl
  | turn _ hturn ih => exact ih.tail hturn

/-- Translated code reserves no more cells than its variables need, if no variable is declared twice
and no loop outside of functions has a block that binds a name: on every input, while no function is
open, memory has no more cells than there are variables, and is not exhausted unless they are too
many for it. -/
theorem memory_le_globals (h : compileTokens tokens = .ok (p, globals)) (hsize : p.size ≤ 2 ^ 53) :
    (∃ source : Grammar.Source, source.Explains tokens p) ∧
      ∀ source : Grammar.Source, source.Explains tokens p → source.CallsMatch → source.Thrifty →
        ∀ input m, (Machine.load p input).started.Reaches m → m.calls = [] →
          m.memory.size ≤ globals ∧
            (globals ≤ memoryLimit → m.running = true →
              ∀ address m', m.step ≠ .error (.beyondMemory address) m') := by
  refine ⟨(Compilation.exists_explains h).imp fun _ => And.left, ?_⟩
  intro source hexplains hmatch hthrifty input m hreaches hcalls
  rw [globals_eq_of_explains h hexplains]
  obtain ⟨sites, hsites⟩ := exists_sites hexplains.wellScoped hmatch
  rw [← hexplains.code] at hsites
  obtain ⟨calls, hvisits⟩ := exists_visits hreaches
  have hspared := spared_of_visits hexplains hthrifty hsites hsize hvisits
  constructor
  · obtain ⟨a, -, -, hle⟩ := hspared
    rw [outerSize_of_calls_eq_nil hcalls] at hle
    exact hle.trans (Source.level_le hexplains.wellScoped hthrifty a)
  · intro hlimit hr address m' hstep
    obtain ⟨hprogram, hholds⟩ := holds_of_visits hsites hsize hvisits
    obtain ⟨a, i, s, hip, -, hi, hfit, hs, hstands, hproceeds⟩ :=
      hholds.proceeds hsites hsize hprogram hr
    have hat : p[a]? = some i := by rw [← hprogram, ← Machine.instruction?_eq hip, hi]
    rcases hproceeds with ⟨m'', hok, -⟩ | ⟨f, m'', herror, hfaulty⟩
    · rw [hstep] at hok
      cases hok
    · rw [hstep] at herror
      obtain rfl : .beyondMemory address = f := by injection herror
      exact absurd hlimit (Nat.not_le.mpr
        (hspared.limit_lt hexplains hthrifty hip hat hfit hs hstands hcalls hfaulty))

end Runs

/-- A declaration of `x`; a function `f` of `a` that assigns `a` to `b`; a loop that calls `f` with `x`
as long as `x` equals `x`. -/
def loopTokens : List Token :=
  [token .name "x", token (.sign .assign) "=", token (.word .inputWord) "input",
    token (.sign .opening) "(", token (.sign .closing) ")",
    token (.word .defWord) "def", token .name "f", token (.sign .opening) "(", token .name "a",
    token (.sign .closing) ")", token (.sign .colon) ":", token .indent "  ",
    token .name "b", token (.sign .assign) "=", token .name "a",
    token (.word .whileWord) "while", token .name "x", token (.sign .equal) "==", token .name "x",
    token (.sign .colon) ":", token .indent "  ", token .name "f", token (.sign .opening) "(",
    token .name "x", token (.sign .closing) ")", token .finish ""]

/-- The program that they stand for. -/
def loopProgram : Program :=
  #[plain .start, withInt .allocate 1, plain .read, withInt .storeGlobal 0, withInt .jump 11,
    plain .enter, withInt .storeLocal 0, withInt .allocate 1, withInt .loadLocal 0,
    withInt .storeLocal 1, plain .leave, withInt .loadGlobal 0, withInt .loadGlobal 0, plain .equal,
    withInt .jumpIfZero 19, withInt .pushReturn 18, withInt .loadGlobal 0, withInt .call 5,
    withInt .jump 11, plain .halt]

/-- The tree that they spell. -/
def loopSource : Grammar.Source where
  declarations := [.assign "x" .input,
    .define "f" ["a"] (.cons (.assign "b" (Compilation.mention "a")) .nil)]
  statements := .cons (.loop ⟨Compilation.mention "x", .equal, Compilation.mention "x"⟩
    (.cons (.call "f" [Compilation.mention "x"]) .nil)) .nil

theorem loopSource_lays : loopSource.Lays false (loopTokens.dropLast.map Terminal.ofToken) := by
  have hassign : Block.Lays .block false (.cons (.assign "b" (Compilation.mention "a")) .nil) _ :=
    .cons (k := 1) ⟨rfl, by decide⟩ (.assign ..) (.nil (k := 0) fun _ => rfl)
  have hcall : Block.Lays .block false (.cons (.call "f" [Compilation.mention "x"]) .nil) _ :=
    .cons (k := 1) ⟨rfl, by decide⟩ (.call ..) (.nil (k := 0) fun _ => rfl)
  have hmain : Block.Lays .topLevel true loopSource.statements _ :=
    .cons (k := 0) (fun _ => rfl) (.loop hcall) (.nil (k := 0) fun _ => rfl)
  exact .declaration (.assign ..) (.declaration (.define hassign) (.statements hmain))

theorem loopSource_explains : loopSource.Explains loopTokens loopProgram where
  spells := ⟨loopTokens.dropLast, token .finish "", [], rfl, rfl, by decide, loopSource_lays⟩
  wellScoped := by
    simp [Grammar.Source.Scoped, DeclarationsScoped, Declaration.Scoped, loopSource, Block.Scoped,
      Statement.Scoped, Condition.Scoped, Expr.Scoped, Compilation.mention, functionsBehind,
      namesBehind, Declaration.functions, Declaration.names, Names.bind, Names.enter, Names.extend,
      Names.scope?, Names.inner]
  code := by decide

theorem loopSource_callsMatch : loopSource.CallsMatch := by
  simp [Grammar.Source.CallsMatch, Declaration.CallsMatch, loopSource, Block.CallsMatch,
    Statement.CallsMatch, Definitions.arity, Grammar.Source.definitions, definitionsBehind,
    Declaration.definitions]

theorem loopSource_thrifty : loopSource.Thrifty := by
  simp [Grammar.Source.Thrifty, DeclarationsThrifty, loopSource, Block.Thrifty, Statement.Thrifty,
    Block.names, Statement.names, Names.binds, Names.inScope, Names.home]

/-- Behind the second call of the function, memory is again the one cell of `x`. -/
theorem memory_le_globals_loop :
    compileTokens loopTokens = .ok (loopProgram, 1) ∧ loopProgram.size ≤ 2 ^ 53 ∧
      loopSource.Explains loopTokens loopProgram ∧ loopSource.CallsMatch ∧ loopSource.Thrifty ∧
      ∃ m, (Machine.load loopProgram "1").started.Reaches m ∧ m.calls = [] ∧ 1 ≤ memoryLimit ∧
        m.running = true ∧ m.instruction? = some (withInt .jump 11) ∧ m.memory.size ≤ 1 ∧
        ∀ address m', m.step ≠ .error (.beyondMemory address) m' := by
  have h : compileTokens loopTokens = .ok (loopProgram, 1) := by decide +kernel
  have hsize : loopProgram.size ≤ 2 ^ 53 := by decide
  have hlimit : 1 ≤ memoryLimit := by decide
  have hrun : (visit 32 (Machine.load loopProgram "1").started []).map
      (fun r => (r.1.calls, r.1.running, r.1.instruction?)) =
      some ([], true, some (withInt .jump 11)) := by
    decide +kernel
  obtain ⟨m, calls, hvisits, hm⟩ := exists_visits_of_visit hrun
  simp only [Prod.mk.injEq] at hm
  obtain ⟨hcalls, hr, hi⟩ := hm
  have hreaches := reaches_of_visits hvisits
  obtain ⟨hle, hfault⟩ := (memory_le_globals h hsize).2 loopSource loopSource_explains
    loopSource_callsMatch loopSource_thrifty "1" m hreaches hcalls
  exact ⟨h, hsize, loopSource_explains, loopSource_callsMatch, loopSource_thrifty, m, hreaches, hcalls,
    hlimit, hr, hi, hle, hfault hlimit hr⟩

/-- While no function is open, memory comes to have more cells than the text has variables. -/
def Exceeds (text input : String) : Prop :=
  ∃ p globals m, compileTokens (Token.stream text) = .ok (p, globals) ∧
    (Machine.load p input).started.Reaches m ∧ m.calls = [] ∧ globals < m.memory.size

/-- Whether that is so after so many turns. -/
def exceedsAfter (turns : Nat) (text input : String) : Bool :=
  match compileTokens (Token.stream text) with
  | .error _ => false
  | .ok (p, globals) =>
    (visit turns (Machine.load p input).started []).map
      (fun r => (r.1.calls, decide (globals < r.1.memory.size))) == some ([], true)

theorem exceeds_of_exceedsAfter {text input : String} (turns : Nat)
    (h : exceedsAfter turns text input = true) : Exceeds text input := by
  unfold exceedsAfter at h
  split at h
  · cases h
  · rename_i p globals hcompile
    obtain ⟨m, calls, hvisits, hm⟩ := exists_visits_of_visit (beq_iff_eq.mp h)
    injection hm with hcalls hsize
    exact ⟨p, globals, m, hcompile, reaches_of_visits hvisits, hcalls, of_decide_eq_true hsize⟩

/-- The conditions cannot be left out: a cell is reserved each time around the loop; a cell is reserved
for each of two declarations of one variable; and a function without parameters takes the argument that
it is called with for its return address, and leads back to the beginning of the program. -/
theorem memory_exceeds_globals :
    Exceeds "i = 0\nwhile i < 3:\n  x = i\n  i = i + 1\n" "" ∧ Exceeds "a = 1\na = 2\n" "" ∧
      Exceeds "a = input()\ndef f():\n  print(a)\nf(a)\n" "1 12" :=
  ⟨exceeds_of_exceedsAfter 21 (by decide +kernel),
    exceeds_of_exceedsAfter 5 (by decide +kernel),
    exceeds_of_exceedsAfter 14 (by decide +kernel)⟩

end StackPrimer.Reserving

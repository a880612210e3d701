import StackPrimer.Proofs.Machine.Frames
import StackPrimer.Proofs.Machine.Ending
import StackPrimer.Proofs.Listing.Program

/-!
# Faults are contained

A run ends in one of two ways, unless a fault fills the journal. If it completes, nothing is filed. If an
instruction fails, exactly one finding is filed, which names the address and the instruction, and the
machine stops there. All that an instruction may have changed before it fails is the frame that it has
left, and the number that it has popped.

Results:
* `contained_of_step_eq_error`: what an instruction that fails may have changed.
* `run_contained`: where a run ends, what is filed, and what is left after a fault.
-/

namespace StackPrimer

namespace Machine

/-! ## What a fault leaves -/

/-- What differs at most after a fault: the machine is still at the instruction that has failed; memory
and its frames are the same, unless a frame has been left; the stack has lost its top, or nothing; and
nothing has been printed. -/
structure Contained (m m' : Machine) : Prop where
  ip : m'.ip = m.ip
  space : m'.space = m.space ∨ m.ComesTo .leave ∧ m.calls ≠ []
  stack : m'.stack = m.stack ∨ ∃ top, m.stack = top :: m'.stack
  printed : m'.printed = m.printed

section Faults

variable {m m' : Machine} {f : Fault}

theorem Leaves.contained {op : Opcode} (h : Leaves m op m') (hop : m.ComesTo op) : Contained m m' := by
  cases h with
  | untouched => exact ⟨rfl, .inl rfl, .inl rfl, rfl⟩
  | popped hstack => exact ⟨rfl, .inl rfl, .inr ⟨_, hstack⟩, rfl⟩
  | read => exact ⟨rfl, .inl rfl, .inl rfl, rfl⟩
  | closed hcalls => exact ⟨rfl, .inr ⟨hop, by simp [hcalls]⟩, .inl rfl, rfl⟩
  | closedPopped hcalls hstack => exact ⟨rfl, .inr ⟨hop, by simp [hcalls]⟩, .inr ⟨_, hstack⟩, rfl⟩

theorem contained_of_step_eq_error (h : step m = .error f m') : Contained m m' := by
  rcases step_eq_error h with ⟨-, rfl⟩ | ⟨op, x, hop, hleaves⟩
  · exact ⟨rfl, .inl rfl, .inl rfl, rfl⟩
  · exact hleaves.contained (comesTo_of_operation? hop)

/-- The finding for a fault names the instruction that has failed and its address. -/
theorem finding_of_step_eq_error (h : step m = .error f m') (j : Journal) :
    m'.finding j f = .fault (j.verbosity ≠ 0) m.ip m.instruction? f.kind f.message := by
  have hsame : m'.ip = m.ip ∧ m'.program = m.program := by
    rcases step_eq_error h with ⟨-, rfl⟩ | ⟨op, x, -, hleaves⟩
    · exact ⟨rfl, rfl⟩
    · exact ⟨hleaves.ip, hleaves.program⟩
  rw [finding, instruction?, hsame.1, hsame.2, ← instruction?]

theorem mem_program_of_instruction? {i : Instruction} (h : m.instruction? = some i) : i ∈ m.program := by
  unfold instruction? at h
  split at h
  · exact Array.mem_of_getElem? h
  · cases h

/-- A run of a program that has been read ends in one of two ways, unless one more finding fills the journal:
it completes and files nothing; or the instruction that it has come to fails. Then it files one finding,
which names the address and the instruction, and only what a fault may change has changed in that step.
Either way the machine has stopped. -/
theorem run_contained {text : String} {j j' : Journal} {bound : Nat} {outcome : Outcome}
    (hread : Program.read? text = .ok m.program) (hlimit : j.findings.length + 1 ≠ j.limit)
    (hrun : m.run bound j = (some outcome, m', j')) :
    m'.running = false ∧
      (outcome = .completed ∧ j'.findings = j.findings ∧
          (∃ last, m.started.Reaches last ∧ (last.running = false ∨ last.instruction? = none) ∧
            m' = { last with running := false }) ∨
        outcome = .faulted ∧ ∃ last i f left finding,
          m.started.Reaches last ∧ last.running = true ∧ last.instruction? = some i ∧
            last.step = .error f left ∧ m' = { left with running := false } ∧ Contained last m' ∧
            j'.findings = j.findings ++ [finding] ∧ i.Writable ∧
            finding.intro = "The machine halted on a fault at address " ++ toString m'.ip ++
              " (" ++ i.text ++ "):" ∧
            finding.footer.head? = some (f.kind ++ ": " ++ f.message)) := by
  cases Ends.of_run hrun with
  | @completed last j' hreaches hstop hfindings =>
    exact ⟨rfl, .inl ⟨rfl, hfindings, last, hreaches, hstop, rfl⟩⟩
  | @faulted last left i f j' hreaches hr hi hstep hfindings =>
    have hcontained := contained_of_step_eq_error hstep
    have hmem := mem_program_of_instruction? hi
    rw [hreaches.program] at hmem
    rw [finding_of_step_eq_error hstep, hi] at hfindings
    refine ⟨rfl, .inr ⟨rfl, last, i, f, left, _, hreaches, hr, hi, hstep, rfl,
      ⟨hcontained.ip, hcontained.space, hcontained.stack, hcontained.printed⟩, hfindings,
      Program.writable_of_read? hread i hmem, ?_, rfl⟩⟩
    rw [hcontained.ip]
    rfl
  | abandoned _ _ _ _ _ hfull => exact absurd hfull hlimit

end Faults

/-- A program that opens a frame and cannot leave it for an address that is none. -/
def strayProgram : Program := #[.of .enter none, .of .constant (some (.float 2.5)), .of .leave none]

/-- The frame has been left all the same, and the number popped. -/
theorem run_contained_leave :
    ∃ m' j' last finding, Program.read? "ENPR\nCRCT 2.5\nRTPR" = .ok strayProgram ∧
      run 3 (load strayProgram "") {} = (some .faulted, m', j') ∧ m'.running = false ∧ m'.ip = 2 ∧
      m'.calls = [] ∧ (load strayProgram "").started.Reaches last ∧ Contained last m' ∧
      j'.findings = [finding] ∧
      ∃ i : Instruction, last.instruction? = some i ∧
        finding.intro = "The machine halted on a fault at address " ++ toString m'.ip ++ " (" ++
          i.text ++ "):" := by
  have hread : Program.read? "ENPR\nCRCT 2.5\nRTPR" = .ok strayProgram := by decide +kernel
  have hends : (run 3 (load strayProgram "") {}).1 = some .faulted ∧
      (run 3 (load strayProgram "") {}).2.1.ip = 2 ∧
      (run 3 (load strayProgram "") {}).2.1.calls = [] := by decide +kernel
  rcases hrun : run 3 (load strayProgram "") {} with ⟨outcome, m', j'⟩
  rw [hrun] at hends
  obtain ⟨houtcome, hip, hcalls⟩ := hends
  obtain rfl : outcome = some .faulted := houtcome
  obtain ⟨hstop, ⟨hcompleted, -⟩ | ⟨-, last, i, f, left, finding, hreaches, -, hi, -, -, hcontained,
    hfindings, -, hintro, -⟩⟩ := run_contained hread (by decide) hrun
  · cases hcompleted
  · exact ⟨m', j', last, finding, hread, rfl, hstop, hip, hcalls, hreaches, hcontained, hfindings, i,
      hi, hintro⟩

end Machine

end StackPrimer

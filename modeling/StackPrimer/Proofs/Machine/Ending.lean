import StackPrimer.Proofs.Machine.Turn

/-!
# How a run ends

A run completes, or an instruction fails. Then one finding is filed, and the machine is stopped, unless
that finding fills the journal, which ends all work there and then. Nothing else is filed on the way.

Results:
* `Ends.of_run`: the way in which a run ends, with the turns that have led there.
* `reaches_of_run`: where a run has come to when it is complete.
-/

namespace StackPrimer

/-! ## The journal of a run -/

/-- Nothing has been filed in the meantime, and the settings are the same. -/
structure Journal.Keeps (j j' : Journal) : Prop where
  verbosity : j'.verbosity = j.verbosity
  limit : j'.limit = j.limit
  findings : j'.findings = j.findings

namespace Journal

variable {j : Journal}

theorem Keeps.refl : j.Keeps j := ⟨rfl, rfl, rfl⟩

theorem Keeps.say (level : Int) (message : String) : j.Keeps (j.say level message) := by
  unfold Journal.say
  split <;> exact ⟨rfl, rfl, rfl⟩

theorem Keeps.trans {j₁ j₂ : Journal} (h : j.Keeps j₁) (h' : j₁.Keeps j₂) : j.Keeps j₂ :=
  ⟨h'.verbosity.trans h.verbosity, h'.limit.trans h.limit, h'.findings.trans h.findings⟩

theorem Keeps.print (j : Journal) (message : String) : j.Keeps (j.print message) := ⟨rfl, rfl, rfl⟩

/-- Nor is anything filed where all findings are said. -/
theorem complain_keeps (j : Journal) : j.Keeps j.complain := by
  have hprints (fs : List Finding) (k : Journal) : k.Keeps
      (fs.foldl (fun j f => (j.print (String.join (List.replicate 20 "  -"))).print f.text) k) := by
    induction fs generalizing k with
    | nil => exact .refl
    | cons f fs ih => exact ((Keeps.print k _).trans (.print _ _)).trans (ih _)
  unfold complain
  split
  · exact .refl
  · exact (Keeps.print j _).trans (hprints j.findings _)

theorem isFull_file (j : Journal) (f : Finding) :
    (j.file f).isFull = decide (j.findings.length + 1 = j.limit) := by
  simp [isFull, isClean, file, BEq.beq]

end Journal

namespace Machine

theorem announce_keeps (m : Machine) (j : Journal) : j.Keeps (m.announce j) := by
  unfold announce
  split
  · split
    · split
      · exact .say ..
      · exact .refl
    · exact .refl
  · exact .refl

/-! ## The three ways -/

/-- How a run that goes on from a machine and a journal ends. -/
inductive Ends (m : Machine) (j : Journal) : Outcome → Machine → Journal → Prop
  | completed {last : Machine} {j' : Journal} : Reaches m last →
      last.running = false ∨ last.instruction? = none → j'.findings = j.findings →
      Ends m j .completed { last with running := false } j'
  | faulted {last left : Machine} {i : Instruction} {f : Fault} {j' : Journal} : Reaches m last →
      last.running = true → last.instruction? = some i → last.step = .error f left →
      j'.findings = j.findings ++ [left.finding j f] → j.findings.length + 1 ≠ j.limit →
      Ends m j .faulted { left with running := false } j'
  | abandoned {last left : Machine} {i : Instruction} {f : Fault} {j' : Journal} : Reaches m last →
      last.running = true → last.instruction? = some i → last.step = .error f left →
      j'.findings = j.findings ++ [left.finding j f] → j.findings.length + 1 = j.limit →
      Ends m j .abandoned left j'

section Runs

variable {m m₁ m' : Machine} {j j₁ j' : Journal} {outcome : Outcome} {bound : Nat}

theorem finding_congr (h : j.Keeps j₁) (f : Fault) : m.finding j₁ f = m.finding j f := by
  rw [finding, finding, h.verbosity]

/-- A run that ends still ends so with one more turn in front. -/
theorem Ends.head (h : Ends m₁ j outcome m' j') (hturn : Turns m m₁) : Ends m j outcome m' j' := by
  cases h with
  | completed hreaches => exact .completed (.head hturn hreaches) ‹_› ‹_›
  | faulted hreaches => exact .faulted (.head hturn hreaches) ‹_› ‹_› ‹_› ‹_› ‹_›
  | abandoned hreaches => exact .abandoned (.head hturn hreaches) ‹_› ‹_› ‹_› ‹_› ‹_›

/-- What has been said before a run does not matter. -/
theorem Ends.of_keeps (h : Ends m j₁ outcome m' j') (hkeeps : j.Keeps j₁) :
    Ends m j outcome m' j' := by
  cases h with
  | completed hreaches hstop hfindings =>
    exact .completed hreaches hstop (hfindings.trans hkeeps.findings)
  | faulted hreaches hr hi hstep hfindings hlimit =>
    rw [finding_congr hkeeps, hkeeps.findings] at hfindings
    rw [hkeeps.findings, hkeeps.limit] at hlimit
    exact .faulted hreaches hr hi hstep hfindings hlimit
  | abandoned hreaches hr hi hstep hfindings hlimit =>
    rw [finding_congr hkeeps, hkeeps.findings] at hfindings
    rw [hkeeps.findings, hkeeps.limit] at hlimit
    exact .abandoned hreaches hr hi hstep hfindings hlimit

/-- Nor does what is said after it. -/
theorem Ends.say (h : Ends m j outcome m' j') (level : Int) (message : String) :
    Ends m j outcome m' (j'.say level message) := by
  have hfindings := Journal.findings_say j' level message
  cases h with
  | completed hreaches hstop h => exact .completed hreaches hstop (hfindings.trans h)
  | faulted hreaches hr hi hstep h => exact .faulted hreaches hr hi hstep (hfindings.trans h) ‹_›
  | abandoned hreaches hr hi hstep h => exact .abandoned hreaches hr hi hstep (hfindings.trans h) ‹_›

theorem Ends.of_runWithin (h : runWithin bound m j = (some outcome, m', j')) :
    Ends m j outcome m' j' := by
  induction bound generalizing m j with
  | zero => simp [runWithin] at h
  | succ bound ih =>
    rw [runWithin] at h
    have hkeeps := m.announce_keeps j
    split at h
    · rename_i hgoes
      rw [Bool.and_eq_true] at hgoes
      obtain ⟨i, hi⟩ := Option.isSome_iff_exists.mp hgoes.2
      dsimp only at h
      refine Ends.of_keeps ?_ hkeeps
      split at h
      · rename_i next hstep
        exact (ih h).head ⟨hgoes.1, hstep⟩
      · rename_i f left hstep
        rw [Journal.isFull_file] at h
        split at h
        · rename_i hlimit
          cases h
          exact .abandoned .refl hgoes.1 hi hstep (Journal.findings_file ..) (of_decide_eq_true hlimit)
        · rename_i hlimit
          cases h
          exact .faulted .refl hgoes.1 hi hstep (Journal.findings_file ..)
            (fun heq => hlimit (decide_eq_true heq))
    · rename_i hstops
      cases h
      refine .completed .refl ?_ rfl
      cases hr : m.running with
      | false => exact .inl rfl
      | true => exact .inr (by simpa [hr] using hstops)

/-- A run from the beginning ends in one of the three ways. -/
theorem Ends.of_run (h : run bound m j = (some outcome, m', j')) : Ends m.started j outcome m' j' := by
  have hkeeps := Journal.Keeps.say (j := j) 1 ("--- Loaded " ++ toString m.program.size ++ " instructions ---")
  unfold run at h
  dsimp only at h
  split at h
  · rename_i heq
    cases h
    exact ((Ends.of_runWithin heq).of_keeps hkeeps).say ..
  · rename_i heq
    cases h
    exact ((Ends.of_runWithin heq).of_keeps hkeeps).say ..
  · exact (Ends.of_runWithin h).of_keeps hkeeps

/-- A run is complete where its turns lead to a machine that has been stopped or to an address without
instruction. -/
theorem reaches_of_run (h : run bound m j = (some .completed, m', j')) :
    ∃ last, Reaches m.started last ∧ (last.running = false ∨ last.instruction? = none) ∧
      m' = { last with running := false } := by
  cases Ends.of_run h with
  | completed hreaches hstop => exact ⟨_, hreaches, hstop, rfl⟩

end Runs

end Machine

end StackPrimer

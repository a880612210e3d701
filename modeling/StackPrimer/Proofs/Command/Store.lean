import StackPrimer.Command.Store

/-!
# Writing and reading back

What stands in front of a file on the way to it are directories, and writing a file changes none of them.
So the same path leads to the same place afterwards, and reading there gives what was written.

Results:
* `write_eq_ok`: writing puts a file at the place of the path, and changes nothing else.
* `read_of_write`: what is read is what was written.
-/

namespace StackPrimer.Command.Store

variable {s s' : Store} {p : Path} {bytes : List UInt8}

/-- Writing puts a file where no directory stands. -/
theorem write_eq_ok (h : s.write p bytes = .ok s') :
    ∃ place, s.place p = .ok place ∧ s.lookup place ≠ some .directory ∧ s' = s.put place (.file bytes) := by
  unfold write at h
  split at h
  · cases h
  · rename_i place hplace
    split at h
    · cases h
    · rename_i hnode
      cases h
      exact ⟨place, hplace, hnode, rfl⟩

theorem ne_nil_of_lookup {place : List String} (h : s.lookup place ≠ some .directory) : place ≠ [] := by
  rintro rfl
  exact h rfl

/-- A way through directories stays one when a file is put where no directory stands. -/
theorem walk_put {place : List String} (h : s.lookup place ≠ some .directory) (node : Node)
    {start names goal : List String} (hwalk : s.walk start names = .ok goal) :
    (s.put place node).walk start names = .ok goal := by
  induction names generalizing start with
  | nil => exact hwalk
  | cons name names ih =>
    cases hnode : s.lookup start with
    | none => simp [walk, hnode] at hwalk
    | some found =>
      cases found with
      | file bytes => simp [walk, hnode] at hwalk
      | directory =>
        have hne : start ≠ place := by
          rintro rfl
          exact h hnode
        have hnode' : (s.put place node).lookup start = some .directory := by
          rw [lookup_put s (ne_nil_of_lookup h), if_neg hne, hnode]
        simp only [walk, hnode] at hwalk
        simp only [walk, hnode']
        split
        · rename_i hup
          rw [if_pos hup] at hwalk
          exact ih hwalk
        · rename_i hup
          rw [if_neg hup] at hwalk
          split
          · rename_i hlong
            rw [if_pos hlong] at hwalk
            cases hwalk
          · rename_i hlong
            rw [if_neg hlong] at hwalk
            exact ih hwalk

/-- The path of a file that has been written leads to where it led before. -/
theorem place_of_write (h : s.write p bytes = .ok s') : s'.place p = s.place p := by
  obtain ⟨goal, hplace, hnode, rfl⟩ := write_eq_ok h
  rw [hplace]
  unfold place at hplace ⊢
  split at hplace
  · cases hplace
  · rename_i hlimit
    rw [if_neg hlimit]
    exact walk_put hnode _ hplace

/-- What is read is what was written. -/
theorem read_of_write (h : s.write p bytes = .ok s') : s'.read p = .ok bytes := by
  have hsame := place_of_write h
  obtain ⟨place, hplace, hnode, rfl⟩ := write_eq_ok h
  have hfile : (s.put place (.file bytes)).lookup place = some (.file bytes) := by
    rw [lookup_put s (ne_nil_of_lookup hnode), if_pos rfl]
  rw [read, hsame, hplace]
  dsimp only
  rw [hfile]

/-- Nothing changes anywhere else. -/
theorem lookup_of_write (h : s.write p bytes = .ok s') {other : List String} (hother : s.place p ≠ .ok other) :
    s'.lookup other = s.lookup other := by
  obtain ⟨place, hplace, hnode, rfl⟩ := write_eq_ok h
  have hne : other ≠ place := by
    rintro rfl
    exact hother hplace
  rw [lookup_put s (ne_nil_of_lookup hnode), if_neg hne]

theorem current_of_write (h : s.write p bytes = .ok s') : s'.current = s.current := by
  obtain ⟨place, -, -, rfl⟩ := write_eq_ok h
  rfl

end StackPrimer.Command.Store

/-!
# Lists at consecutive addresses

Code stands at consecutive addresses, and so does what is said of it beside it. What holds of every
entry of a list, given its address, holds of its parts, each from where it begins.

Results:
* `forall_at_cons`, `forall_at_append`: a statement about every entry, part by part.
-/

namespace StackPrimer

variable {α : Type} {P : Nat → α → Prop} {start : Nat} {x : α} {xs ys : List α}

theorem forall_at_cons :
    (∀ j y, (x :: xs)[j]? = some y → P (start + j) y) ↔
      P start x ∧ ∀ j y, xs[j]? = some y → P (start + 1 + j) y := by
  constructor
  · intro h
    refine ⟨h 0 x rfl, fun j y hy => ?_⟩
    rw [Nat.add_assoc, Nat.add_comm 1]
    exact h (j + 1) y hy
  · rintro ⟨hhead, htail⟩ (_ | j) y hy
    · obtain rfl : x = y := by simpa using hy
      exact hhead
    · rw [Nat.add_comm j, ← Nat.add_assoc]
      exact htail j y hy

theorem forall_at_append :
    (∀ j y, (xs ++ ys)[j]? = some y → P (start + j) y) ↔
      (∀ j y, xs[j]? = some y → P (start + j) y) ∧
        ∀ j y, ys[j]? = some y → P (start + xs.length + j) y := by
  induction xs generalizing start with
  | nil => simp
  | cons x xs ih =>
    rw [List.cons_append, forall_at_cons, forall_at_cons, ih, and_assoc, List.length_cons,
      Nat.add_comm xs.length, ← Nat.add_assoc start]

end StackPrimer

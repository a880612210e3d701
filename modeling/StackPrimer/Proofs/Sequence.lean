/-!
# Sequences of actions

An action that is put together with `>>=` is taken apart again by what comes of it: it succeeds exactly
if both of its parts do, and it fails where the first part that fails does.
-/

namespace StackPrimer

variable {ε σ α β : Type} {s s' : σ}

theorem bind_eq_ok {x : EStateM ε σ α} {f : α → EStateM ε σ β} {b : β} :
    (x >>= f) s = .ok b s' ↔ ∃ a s₁, x s = .ok a s₁ ∧ f a s₁ = .ok b s' := by
  change EStateM.bind x f s = _ ↔ _
  unfold EStateM.bind
  cases h : x s <;> simp [and_assoc]

theorem bind_eq_error {x : EStateM ε σ α} {f : α → EStateM ε σ β} {e : ε} :
    (x >>= f) s = .error e s' ↔
      x s = .error e s' ∨ ∃ a s₁, x s = .ok a s₁ ∧ f a s₁ = .error e s' := by
  change EStateM.bind x f s = _ ↔ _
  unfold EStateM.bind
  cases h : x s <;> simp [and_assoc]

theorem bind_of_ok {x : EStateM ε σ α} {f : α → EStateM ε σ β} {a : α} (h : x s = .ok a s') :
    (x >>= f) s = f a s' := by
  change EStateM.bind x f s = _
  rw [EStateM.bind, h]

theorem pure_eq_ok {a b : α} : (pure a : EStateM ε σ α) s = .ok b s' ↔ a = b ∧ s = s' := by
  change EStateM.Result.ok a s = _ ↔ _
  simp

theorem pure_ne_error {a : α} {e : ε} : (pure a : EStateM ε σ α) s ≠ .error e s' := by
  change EStateM.Result.ok a s ≠ _
  simp

theorem throw_ne_ok {e : ε} {b : α} : (throw e : EStateM ε σ α) s ≠ .ok b s' := by
  change EStateM.Result.error e s ≠ _
  simp

end StackPrimer

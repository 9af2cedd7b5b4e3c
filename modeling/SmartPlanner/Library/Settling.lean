import Mathlib.Dynamics.FixedPoints.Basic

/-!
A step repeated until it changes nothing, with a bound on the attempts, and when
the attempts are enough.
-/

namespace Settling

open Function

variable {α : Type*}

section Settle

variable [DecidableEq α]

/-- At most `attempts` steps, ended early by one that changes nothing. -/
def settle (step : α → α) : Nat → α → α
  | 0, x => x
  | attempts + 1, x => if step x = x then x else settle step attempts (step x)

/-- Ending early leaves the value that the remaining steps would. -/
theorem settle_eq_iterate (step : α → α) (attempts : Nat) (x : α) :
    settle step attempts x = step^[attempts] x := by
  induction attempts generalizing x with
  | zero => rfl
  | succ attempts ih =>
    unfold settle
    split
    · rename_i fixed
      exact (IsFixedPt.iterate fixed (attempts + 1)).eq.symm
    · rw [ih, iterate_succ_apply]

/-- Further attempts change nothing once a value is fixed. -/
theorem settle_eq_of_fixed {step : α → α} {enough : Nat} {x : α}
    (fixed : IsFixedPt step (step^[enough] x)) {attempts : Nat} (h : enough ≤ attempts) :
    settle step attempts x = step^[enough] x := by
  obtain ⟨more, rfl⟩ := Nat.exists_eq_add_of_le' h
  rw [settle_eq_iterate, iterate_add_apply]
  exact fixed.iterate more

/-- What the steps keep holds of the value left. -/
theorem settle_induction {step : α → α} {P : α → Prop} (keeps : ∀ x, P x → P (step x))
    {x : α} (first : P x) (attempts : Nat) : P (settle step attempts x) := by
  rw [settle_eq_iterate]
  exact Iterate.rec P first keeps attempts

end Settle

/-- Where two of the first value, the second and a fixed one agree, the second
is fixed. -/
theorem isFixedPt_of_agreement {step : α → α} {x y : α} (fixed : IsFixedPt step y)
    (agree : step x = step (step x) ∨ step x = y ∨ step (step x) = y) :
    IsFixedPt step (step^[2] x) := by
  change step (step (step x)) = step (step x)
  rcases agree with stays | found | found
  · rw [← stays, ← stays]
  · rw [found, fixed.eq, fixed.eq]
  · rw [found, fixed.eq]

end Settling

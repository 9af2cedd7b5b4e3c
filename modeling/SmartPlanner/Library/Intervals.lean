import Mathlib.Algebra.Ring.Int.Defs
import Mathlib.Order.Basic

/-!
Half-open integer intervals and byte masks over the integers. A mask is read
one position at a time; `fill` is the slice assignment of a constant.
-/

namespace Intervals

abbrev Interval := Int × Int

/-- Two half-open intervals of which one ends before the other starts. -/
def Apart (a b : Interval) : Prop := a.2 ≤ b.1 ∨ b.2 ≤ a.1

instance (a b : Interval) : Decidable (Apart a b) :=
  inferInstanceAs (Decidable (_ ∨ _))

theorem Apart.symm {a b : Interval} (h : Apart a b) : Apart b a := Or.symm h

theorem apart_comm {a b : Interval} : Apart a b ↔ Apart b a :=
  ⟨Apart.symm, Apart.symm⟩

/-- Nonempty intervals are apart exactly when they share no position. -/
theorem apart_iff_no_common {a b : Interval} (ha : a.1 < a.2) (hb : b.1 < b.2) :
    Apart a b ↔ ∀ i, a.1 ≤ i → i < a.2 → ¬ (b.1 ≤ i ∧ i < b.2) := by
  constructor
  · rintro (h | h) i ha₁ ha₂ ⟨hb₁, hb₂⟩ <;> omega
  · intro h
    by_contra hno
    simp only [Apart, not_or] at hno
    exact h (max a.1 b.1) (by omega) (by omega) ⟨by omega, by omega⟩

abbrev Mask := Int → Bool

/-- `mask[left:right] = value * (right - left)`. -/
def Mask.fill (mask : Mask) (left right : Int) (value : Bool) : Mask :=
  fun i => if left ≤ i ∧ i < right then value else mask i

/-- `all(mask[left:right])`. -/
def Mask.all (mask : Mask) (left right : Int) : Bool :=
  (List.range (right - left).toNat).all fun k => mask (left + k)

/-- `sum(mask[left:right])`. -/
def Mask.count (mask : Mask) (left right : Int) : Int :=
  ((List.range (right - left).toNat).map fun (k : Nat) =>
    if mask (left + k) then (1 : Int) else 0).sum

theorem Mask.fill_false_iff {mask : Mask} {left right i : Int} :
    mask.fill left right false i = true ↔
      mask i = true ∧ ¬ (left ≤ i ∧ i < right) := by
  unfold Mask.fill
  split
  · next inside => simp [inside]
  · next outside => simp [outside]

theorem Mask.fill_true_iff {mask : Mask} {left right i : Int} :
    mask.fill left right true i = true ↔
      mask i = true ∨ (left ≤ i ∧ i < right) := by
  unfold Mask.fill
  split
  · next inside => simp [inside]
  · next outside => simp [outside]

theorem Mask.all_iff {mask : Mask} {left right : Int} :
    mask.all left right = true ↔ ∀ i, left ≤ i → i < right → mask i = true := by
  simp only [Mask.all, List.all_eq_true, List.mem_range]
  constructor
  · intro h i hl hr
    have hi := h (i - left).toNat (by omega)
    rwa [show left + ((i - left).toNat : Int) = i by omega] at hi
  · intro h k hk
    exact h (left + k) (by omega) (by omega)

/-- Clearing a list of intervals one after the other. -/
theorem Mask.foldl_fill_false_iff {γ : Type} (clip : γ → Interval) (xs : List γ)
    (mask : Mask) (i : Int) :
    xs.foldl (fun m x => Mask.fill m (clip x).1 (clip x).2 false) mask i = true ↔
      mask i = true ∧ ∀ x ∈ xs, ¬ ((clip x).1 ≤ i ∧ i < (clip x).2) := by
  induction xs generalizing mask with
  | nil => simp
  | cons x xs ih =>
      rw [List.foldl_cons, ih, Mask.fill_false_iff]
      simp only [List.forall_mem_cons, and_assoc]

end Intervals

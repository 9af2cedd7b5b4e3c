import SmartPlanner.Library.Intervals
import Mathlib.Data.List.Pairwise
import Mathlib.Order.Lattice

/-!
Cutting a range of positions into its maximal stretches of one key. Where the
keys never go backwards, a stretch holds every position of its key.
-/

namespace Intervals

variable {κ : Type} {key : Int → κ} {stop : Int} {ranges : List Interval}

/-- The maximal stretches of the positions from 0 to `stop`, in order. -/
structure Stretches (key : Int → κ) (stop : Int) (ranges : List Interval) : Prop where
  range : ∀ r ∈ ranges, 0 ≤ r.1 ∧ r.1 < r.2 ∧ r.2 ≤ stop
  constant : ∀ r ∈ ranges, ∀ i, r.1 ≤ i → i < r.2 → key i = key r.1
  opens : ∀ r ∈ ranges, r.1 = 0 ∨ key (r.1 - 1) ≠ key r.1
  ordered : ranges.Pairwise fun a b => a.2 ≤ b.1
  cover : ∀ i, 0 ≤ i → i < stop → ∃ r ∈ ranges, r.1 ≤ i ∧ i < r.2

theorem stretches_nil (key : Int → κ) : Stretches key 0 [] :=
  ⟨by simp, by simp, by simp, by simp, by omega⟩

/-- One more stretch at the end. -/
theorem Stretches.append {left : Int} (h : Stretches key left ranges) (nonneg : 0 ≤ left)
    (hlt : left < stop) (constant : ∀ i, left ≤ i → i < stop → key i = key left)
    (opens : left = 0 ∨ key (left - 1) ≠ key left) :
    Stretches key stop (ranges ++ [(left, stop)]) := by
  refine ⟨?_, ?_, ?_, ?_, ?_⟩
  · rw [List.forall_mem_append, List.forall_mem_singleton]
    refine ⟨fun r hr => ?_, nonneg, hlt, Int.le_refl _⟩
    have hrange := h.range r hr
    omega
  · rw [List.forall_mem_append, List.forall_mem_singleton]
    exact ⟨h.constant, constant⟩
  · rw [List.forall_mem_append, List.forall_mem_singleton]
    exact ⟨h.opens, opens⟩
  · rw [List.pairwise_append]
    refine ⟨h.ordered, List.pairwise_singleton _ _, fun r hr last hl => ?_⟩
    rw [List.mem_singleton.mp hl]
    exact (h.range r hr).2.2
  · intro i low high
    by_cases hi : i < left
    · obtain ⟨r, hr, inside⟩ := h.cover i low hi
      exact ⟨r, List.mem_append_left _ hr, inside⟩
    · exact ⟨(left, stop), by simp, by simpa using hi, high⟩

section
variable [LinearOrder κ] (forward : ∀ i j, 0 ≤ i → i ≤ j → j < stop → key i ≤ key j)
include forward

theorem Stretches.key_lt (h : Stretches key stop ranges) {a b : Interval} (ha : a ∈ ranges)
    (hb : b ∈ ranges) (before : a.2 ≤ b.1) : key a.1 < key b.1 := by
  have hrange := h.range a ha
  have hrange' := h.range b hb
  have hne := (h.opens b hb).resolve_left (by omega)
  calc key a.1 ≤ key (b.1 - 1) := forward _ _ (by omega) (by omega) (by omega)
    _ < key b.1 := lt_of_le_of_ne (forward _ _ (by omega) (by omega) (by omega)) hne

/-- Two stretches of one key are the same. -/
theorem Stretches.eq_of_key (h : Stretches key stop ranges) {a b : Interval} (ha : a ∈ ranges)
    (hb : b ∈ ranges) (same : key a.1 = key b.1) : a = b := by
  have sorted : ranges.Pairwise fun x y => x = y ∨ Apart x y :=
    h.ordered.imp fun before => Or.inr (Or.inl before)
  have reversed : ranges.Pairwise (flip fun x y => x = y ∨ Apart x y) :=
    h.ordered.imp fun before => Or.inr (Or.inr before)
  have equal : ∀ x ∈ ranges, x = x ∨ Apart x x := fun x _ => Or.inl rfl
  have apart := List.Pairwise.forall_of_forall_of_flip equal sorted reversed ha hb
  rcases apart with rfl | before | after
  · rfl
  · exact absurd same (ne_of_lt (h.key_lt forward ha hb before))
  · exact absurd same.symm (ne_of_lt (h.key_lt forward hb ha after))

/-- A stretch holds exactly the positions of its key. -/
theorem Stretches.mem_iff (h : Stretches key stop ranges) {r : Interval} (hr : r ∈ ranges)
    {i : Int} (low : 0 ≤ i) (high : i < stop) :
    (r.1 ≤ i ∧ i < r.2) ↔ key i = key r.1 := by
  constructor
  · exact fun inside => h.constant r hr i inside.1 inside.2
  · intro same
    obtain ⟨other, ho, inside⟩ := h.cover i low high
    have hkey := h.constant other ho i inside.1 inside.2
    obtain rfl := h.eq_of_key forward ho hr (hkey.symm.trans same)
    exact inside

theorem Stretches.keys_nodup (h : Stretches key stop ranges) :
    (ranges.map fun r => key r.1).Nodup := by
  rw [List.Nodup, List.pairwise_map]
  exact h.ordered.imp_of_mem fun ha hb before => ne_of_lt (h.key_lt forward ha hb before)

end

/-- The keys of the stretches are the keys of the positions. -/
theorem Stretches.mem_keys (h : Stretches key stop ranges) {k : κ} :
    k ∈ ranges.map (fun r => key r.1) ↔ ∃ i, 0 ≤ i ∧ i < stop ∧ key i = k := by
  rw [List.mem_map]
  constructor
  · rintro ⟨r, hr, rfl⟩
    have hrange := h.range r hr
    exact ⟨r.1, hrange.1, by omega, rfl⟩
  · rintro ⟨i, low, high, rfl⟩
    obtain ⟨r, hr, inside⟩ := h.cover i low high
    exact ⟨r, hr, (h.constant r hr i inside.1 inside.2).symm⟩

end Intervals

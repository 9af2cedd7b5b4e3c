import SmartPlanner.Library.Intervals
import Mathlib

/-!
Counting the true positions of a mask: by cardinality, by running sums, and by
the length of an intersection when the mask is an interval.
-/

namespace Intervals

theorem Mask.count_of_le {mask : Mask} {left right : Int} (h : right ≤ left) :
    mask.count left right = 0 := by
  simp [Mask.count, show (right - left).toNat = 0 by omega]

/-- One more position at the end. -/
theorem Mask.count_succ {mask : Mask} {left right : Int} (h : left ≤ right) :
    mask.count left (right + 1) = mask.count left right + if mask right then 1 else 0 := by
  have hlen : (right + 1 - left).toNat = (right - left).toNat + 1 := by omega
  have hlast : left + ((right - left).toNat : Int) = right := by omega
  simp only [Mask.count, hlen, List.range_succ, List.map_append, List.sum_append, List.map_cons,
    List.map_nil, List.sum_cons, List.sum_nil, hlast, add_zero]

theorem Mask.count_eq_card (mask : Mask) (left right : Int) :
    mask.count left right = ((Finset.Ico left right).filter fun i => mask i = true).card := by
  by_cases h : right ≤ left
  · rw [Mask.count_of_le h, Finset.Ico_eq_empty (by omega)]
    simp
  · obtain ⟨n, rfl⟩ : ∃ n : ℕ, right = left + n := ⟨(right - left).toNat, by omega⟩
    clear h
    induction n with
    | zero => simp [Mask.count_of_le]
    | succ n ih =>
        rw [show left + ((n + 1 : ℕ) : Int) = left + n + 1 by omega,
          Mask.count_succ (by omega), ih]
        have hico : Finset.Ico left (left + n + 1) =
            insert (left + (n : Int)) (Finset.Ico left (left + n)) := by
          ext i
          simp only [Finset.mem_Ico, Finset.mem_insert]
          omega
        rw [hico, Finset.filter_insert]
        split
        · rw [Finset.card_insert_of_notMem (by simp), Nat.cast_add, Nat.cast_one]
        · rw [add_zero]

/-- Counts depend only on the positions counted. -/
theorem Mask.count_congr {mask mask' : Mask} {left right : Int}
    (h : ∀ i, left ≤ i → i < right → mask i = mask' i) :
    mask.count left right = mask'.count left right := by
  rw [Mask.count_eq_card, Mask.count_eq_card]
  congr 2
  refine Finset.filter_congr fun i hi => ?_
  rw [Finset.mem_Ico] at hi
  rw [h i hi.1 hi.2]

theorem Mask.count_add {mask : Mask} {left middle right : Int} (h₁ : left ≤ middle)
    (h₂ : middle ≤ right) :
    mask.count left middle + mask.count middle right = mask.count left right := by
  obtain ⟨n, rfl⟩ : ∃ n : ℕ, right = middle + n := ⟨(right - middle).toNat, by omega⟩
  clear h₂
  induction n with
  | zero => simp [Mask.count_of_le]
  | succ n ih =>
      rw [show middle + ((n + 1 : ℕ) : Int) = middle + n + 1 by omega,
        Mask.count_succ (by omega), Mask.count_succ (by omega), ← ih]
      omega

/-- The positions of one interval inside another. -/
theorem Mask.count_interval (a b left right : Int) :
    Mask.count (fun i => decide (a ≤ i ∧ i < b)) left right =
      max 0 (min right b - max left a) := by
  have hfilter : (Finset.Ico left right).filter (fun i => decide (a ≤ i ∧ i < b) = true) =
      Finset.Ico (max left a) (min right b) := by
    ext i
    simp only [Finset.mem_filter, Finset.mem_Ico, decide_eq_true_eq]
    omega
  rw [Mask.count_eq_card, hfilter, Int.card_Ico]
  omega

/-- The positions of a range that are also inside some bounds. -/
theorem Mask.count_clip (mask : Mask) {low high left right : Int} (hl : low ≤ left)
    (hr : right ≤ high) :
    mask.count left right =
      Mask.count (fun i => mask i && decide (left ≤ i ∧ i < right)) low high := by
  rw [Mask.count_eq_card, Mask.count_eq_card]
  congr 2
  ext i
  simp only [Finset.mem_filter, Finset.mem_Ico, Bool.and_eq_true, decide_eq_true_eq]
  constructor
  · rintro ⟨inside, hi⟩
    exact ⟨by omega, hi, inside⟩
  · rintro ⟨-, hi, inside⟩
    exact ⟨inside, hi⟩

/-- A prefix table: the running count at a position. -/
theorem Mask.getD_scanl_count (mask : Mask) {n k : ℕ} (h : k ≤ n) :
    ((List.range n).scanl (fun count (i : ℕ) => count + if mask i then (1 : Int) else 0) 0).getD
      k 0 = mask.count 0 k := by
  rw [List.getD_eq_getElem?_getD, List.getElem?_scanl, List.length_range, if_pos h,
    Option.getD_some, List.take_range, Nat.min_eq_left h]
  clear h
  induction k with
  | zero => simp [Mask.count_of_le]
  | succ k ih =>
      rw [List.range_succ, List.foldl_append, ih, Nat.cast_succ,
        Mask.count_succ (Int.natCast_nonneg k)]
      rfl

/-- The positions of some intervals. -/
noncomputable def covered (intervals : List Interval) : Finset Int :=
  intervals.foldr (fun interval positions => Finset.Ico interval.1 interval.2 ∪ positions) ∅

theorem mem_covered {intervals : List Interval} {i : Int} :
    i ∈ covered intervals ↔ ∃ interval ∈ intervals, interval.1 ≤ i ∧ i < interval.2 := by
  induction intervals with
  | nil => simp [covered]
  | cons interval intervals ih =>
      rw [covered, List.foldr_cons, ← covered, Finset.mem_union, Finset.mem_Ico, ih]
      simp only [List.mem_cons, exists_eq_or_imp]

/-- Disjoint intervals cover as many positions as they are long together. -/
theorem card_covered {intervals : List Interval} (apart : intervals.Pairwise Apart)
    (ordered : ∀ interval ∈ intervals, interval.1 ≤ interval.2) :
    ((covered intervals).card : Int) =
      (intervals.map fun interval => interval.2 - interval.1).sum := by
  induction intervals with
  | nil => simp [covered]
  | cons interval intervals ih =>
      obtain ⟨hfirst, hrest⟩ := List.pairwise_cons.mp apart
      obtain ⟨hle, hordered⟩ := List.forall_mem_cons.mp ordered
      have disjoint : Disjoint (Finset.Ico interval.1 interval.2) (covered intervals) := by
        refine Finset.disjoint_left.mpr fun i hi hcovered => ?_
        obtain ⟨other, hother, hlow, hhigh⟩ := mem_covered.mp hcovered
        have hapart := hfirst other hother
        unfold Apart at hapart
        rw [Finset.mem_Ico] at hi
        omega
      rw [covered, List.foldr_cons, ← covered, Finset.card_union_of_disjoint disjoint,
        Nat.cast_add, ih hrest hordered, Int.card_Ico, List.map_cons, List.sum_cons]
      omega

end Intervals

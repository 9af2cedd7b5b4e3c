import Mathlib.Data.List.Sort

/-!
Stable sorting by a key. Equal keys keep their input order, so the result is
determined by the input; where the keys are distinct it is determined by the
set of items alone.
-/

namespace Sorting

universe u v
variable {α : Type u} {κ : Type v} [LinearOrder κ]

def sortBy (key : α → κ) (xs : List α) : List α :=
  xs.insertionSort (fun a b => key a ≤ key b)

theorem sortBy_perm (key : α → κ) (xs : List α) : (sortBy key xs).Perm xs :=
  List.perm_insertionSort _ xs

@[simp] theorem mem_sortBy {key : α → κ} {xs : List α} {a : α} :
    a ∈ sortBy key xs ↔ a ∈ xs :=
  (sortBy_perm key xs).mem_iff

@[simp] theorem length_sortBy (key : α → κ) (xs : List α) :
    (sortBy key xs).length = xs.length :=
  (sortBy_perm key xs).length_eq

private instance totalByKey (key : α → κ) : Std.Total (fun a b => key a ≤ key b) :=
  ⟨fun a b => le_total (key a) (key b)⟩

private instance transByKey (key : α → κ) : IsTrans α (fun a b => key a ≤ key b) :=
  ⟨fun _ _ _ => le_trans⟩

theorem sortBy_pairwise (key : α → κ) (xs : List α) :
    (sortBy key xs).Pairwise (fun a b => key a ≤ key b) :=
  List.pairwise_insertionSort _ xs

theorem sortBy_eq_self {key : α → κ} {xs : List α}
    (h : xs.Pairwise (fun a b => key a ≤ key b)) : sortBy key xs = xs :=
  h.insertionSort_eq

theorem sortBy_sortBy (key : α → κ) (xs : List α) :
    sortBy key (sortBy key xs) = sortBy key xs :=
  sortBy_eq_self (sortBy_pairwise key xs)

/-- With distinct keys the order of the input is irrelevant. -/
theorem sortBy_unique {key : α → κ} {xs ys : List α} (perm : ys.Perm xs)
    (distinct : (xs.map key).Nodup)
    (sorted : ys.Pairwise (fun a b => key a ≤ key b)) : sortBy key xs = ys := by
  have inj : ∀ a ∈ xs, ∀ b ∈ xs, key a = key b → a = b :=
    fun a ha b hb => List.inj_on_of_nodup_map distinct ha hb
  have antisymm : ∀ a b, a ∈ sortBy key xs → b ∈ ys → key a ≤ key b → key b ≤ key a → a = b :=
    fun a b ha hb hab hba =>
      inj a (mem_sortBy.mp ha) b (perm.mem_iff.mp hb) (le_antisymm hab hba)
  exact List.Perm.eq_of_pairwise antisymm (sortBy_pairwise key xs) sorted
    ((sortBy_perm key xs).trans perm.symm)

/-- A key that tells the items apart makes the order of the input irrelevant,
even when an item occurs several times. -/
theorem sortBy_eq_of_perm {key : α → κ} {xs ys : List α} (perm : xs.Perm ys)
    (inj : ∀ a ∈ xs, ∀ b ∈ xs, key a = key b → a = b) : sortBy key xs = sortBy key ys := by
  have antisymm : ∀ a b, a ∈ sortBy key xs → b ∈ sortBy key ys → key a ≤ key b →
      key b ≤ key a → a = b :=
    fun a b ha hb hab hba =>
      inj a (mem_sortBy.mp ha) b (perm.mem_iff.mpr (mem_sortBy.mp hb)) (le_antisymm hab hba)
  exact List.Perm.eq_of_pairwise antisymm (sortBy_pairwise key xs) (sortBy_pairwise key ys)
    ((sortBy_perm key xs).trans (perm.trans (sortBy_perm key ys).symm))

theorem sortBy_filter {key : α → κ} {xs : List α} (p : α → Bool)
    (distinct : (xs.map key).Nodup) :
    sortBy key (xs.filter p) = (sortBy key xs).filter p := by
  apply sortBy_unique ((sortBy_perm key xs).filter p)
  · exact distinct.sublist (List.filter_sublist.map key)
  · exact (sortBy_pairwise key xs).filter p

theorem sortBy_append_last {key : α → κ} {xs : List α} {a : α}
    (distinct : (xs.map key).Nodup) (last : ∀ b ∈ xs, key b < key a) :
    sortBy key (xs ++ [a]) = sortBy key xs ++ [a] := by
  apply sortBy_unique ((sortBy_perm key xs).append_right [a])
  · rw [List.map_append, List.nodup_append]
    refine ⟨distinct, by simp, ?_⟩
    intro k hk k' hk' heq
    obtain ⟨b, hb, rfl⟩ := List.mem_map.mp hk
    simp only [List.map_cons, List.map_nil, List.mem_singleton] at hk'
    exact absurd (heq.trans hk') (last b hb).ne
  · rw [List.pairwise_append]
    refine ⟨sortBy_pairwise key xs, by simp, ?_⟩
    intro b hb c hc
    rw [List.mem_singleton.mp hc]
    exact (last b (mem_sortBy.mp hb)).le

/-- Distinct keys sort strictly. -/
theorem sortBy_strict {key : α → κ} {xs : List α} (distinct : (xs.map key).Nodup) :
    (sortBy key xs).Pairwise (fun a b => key a < key b) := by
  have hd : ((sortBy key xs).map key).Nodup :=
    ((sortBy_perm key xs).map key).nodup_iff.mpr distinct
  have hne := List.pairwise_map.mp hd
  exact (sortBy_pairwise key xs).imp₂ (fun _ _ hle hne => lt_of_le_of_ne hle hne) hne

/-- A sorted list is what does not exceed a key, followed by the rest. -/
theorem filter_le_append {key : α → κ} {xs : List α}
    (sorted : xs.Pairwise (fun a b => key a ≤ key b)) (k : κ) :
    xs.filter (fun a => key a ≤ k) ++ xs.filter (fun a => ¬ key a ≤ k) = xs := by
  induction xs with
  | nil => rfl
  | cons x xs ih =>
      rw [List.pairwise_cons] at sorted
      by_cases h : key x ≤ k
      · simpa [h] using ih sorted.2
      · have above : ∀ a ∈ xs, ¬ key a ≤ k := fun a ha hle => h ((sorted.1 a ha).trans hle)
        have none : xs.filter (fun a => key a ≤ k) = [] := by simpa using above
        have all : xs.filter (fun a => ¬ key a ≤ k) = xs := by simpa using above
        rw [List.filter_cons_of_neg (by simpa using h), List.filter_cons_of_pos (by simpa using h),
          none, all, List.nil_append]

section
variable {β : Type v} [DecidableEq β]

/-- Collecting the items key by key rearranges the list. -/
theorem flatMap_filter_perm (f : α → β) {keys : List β} (distinct : keys.Nodup)
    {xs : List α} (covered : ∀ x ∈ xs, f x ∈ keys) :
    (keys.flatMap fun k => xs.filter fun x => f x = k).Perm xs := by
  induction keys generalizing xs with
  | nil =>
      have hxs : xs = [] := List.eq_nil_iff_forall_not_mem.mpr fun x hx => by
        simpa using covered x hx
      simp [hxs]
  | cons k keys ih =>
      rw [List.nodup_cons] at distinct
      rw [List.flatMap_cons]
      have rest := @ih distinct.2 (xs.filter fun x => !decide (f x = k)) (by
        intro x hx
        simp only [List.mem_filter, Bool.not_eq_true', decide_eq_false_iff_not] at hx
        rcases List.mem_cons.mp (covered x hx.1) with h | h
        · exact absurd h hx.2
        · exact h)
      have same : (keys.flatMap fun k' =>
            (xs.filter fun x => !decide (f x = k)).filter fun x => f x = k') =
          keys.flatMap fun k' => xs.filter fun x => f x = k' := by
        refine List.flatMap_congr fun k' hk' => ?_
        rw [List.filter_filter]
        refine List.filter_congr fun x _ => ?_
        by_cases hx : f x = k'
        · have hne : k' ≠ k := fun h => distinct.1 (h ▸ hk')
          simp [hx, hne]
        · simp [hx]
      rw [same] at rest
      exact (rest.append_left _).trans (List.filter_append_perm _ xs)

end

end Sorting

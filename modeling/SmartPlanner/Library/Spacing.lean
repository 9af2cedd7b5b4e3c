import SmartPlanner.Library.Intervals

/-!
Distances between intervals. Among disjoint intervals in order, the smallest
distance is one between neighbours.
-/

namespace Intervals

/-- How far two intervals are apart; zero when they meet. -/
def distance (a b : Interval) : Int := max 0 (max (b.1 - a.2) (a.1 - b.2))

theorem distance_comm (a b : Interval) : distance a b = distance b a := by
  unfold distance
  omega

theorem distance_nonneg (a b : Interval) : 0 ≤ distance a b := by
  unfold distance
  omega

theorem distance_of_before {a b : Interval} (ha : a.1 < a.2) (hb : b.1 < b.2)
    (before : a.2 ≤ b.1) : distance a b = b.1 - a.2 := by
  unfold distance
  omega

/-- Two distinct items of the list are closer than a distance. -/
def SomeCloser (items : List Interval) (d : Int) : Prop :=
  ∃ i j, ∃ (hi : i < items.length) (hj : j < items.length),
    i ≠ j ∧ distance items[i] items[j] < d

theorem someCloser_iff {items : List Interval} {d : Int} :
    SomeCloser items d ↔ ¬ items.Pairwise fun a b => d ≤ distance a b := by
  rw [List.pairwise_iff_getElem, SomeCloser]
  constructor
  · rintro ⟨i, j, hi, hj, hne, hlt⟩ spaced
    rcases Nat.lt_or_gt_of_ne hne with hij | hji
    · have hd := spaced i j hi hj hij
      omega
    · have hd := spaced j i hj hi hji
      rw [distance_comm] at hlt
      omega
  · intro h
    by_contra none
    refine h fun i j hi hj hij => ?_
    by_contra hlt
    exact none ⟨i, j, hi, hj, Nat.ne_of_lt hij, by omega⟩

theorem SomeCloser.perm {xs ys : List Interval} {d : Int} (perm : xs.Perm ys) :
    SomeCloser xs d ↔ SomeCloser ys d := by
  rw [someCloser_iff, someCloser_iff]
  refine not_congr (perm.pairwise_iff fun {a b} h => ?_)
  rwa [distance_comm]

/-- An item and a later one are two distinct items. -/
theorem SomeCloser.of_append {xs ys : List Interval} {a b : Interval} {d : Int} (ha : a ∈ xs)
    (hb : b ∈ ys) (close : distance a b < d) : SomeCloser (xs ++ ys) d := by
  rw [someCloser_iff, List.pairwise_append]
  intro h
  have hd := h.2.2 a ha b hb
  omega

/-- Neighbours decide whether a list in order is spaced. -/
theorem pairwise_spaced_iff {items : List Interval} {d : Int}
    (nonempty : ∀ item ∈ items, item.1 < item.2)
    (ordered : items.Pairwise fun a b => a.2 ≤ b.1) :
    (items.Pairwise fun a b => d ≤ distance a b) ↔
      ∀ pair ∈ items.zip items.tail, d ≤ pair.2.1 - pair.1.2 := by
  induction items with
  | nil => simp
  | cons a rest ih =>
      rw [List.forall_mem_cons] at nonempty
      rw [List.pairwise_cons] at ordered
      rw [List.pairwise_cons, ih nonempty.2 ordered.2]
      cases rest with
      | nil => simp
      | cons b rest =>
          simp only [List.tail_cons, List.zip_cons_cons, List.forall_mem_cons]
          refine and_congr_left fun _ => ?_
          have hb := nonempty.2 b List.mem_cons_self
          have hab := ordered.1 b List.mem_cons_self
          constructor
          · intro h
            have hd := h.1
            rwa [distance_of_before nonempty.1 hb hab] at hd
          · intro h
            refine ⟨by rwa [distance_of_before nonempty.1 hb hab], fun x hx => ?_⟩
            have hx' := nonempty.2 x (List.mem_cons_of_mem _ hx)
            have hbx := (List.pairwise_cons.mp ordered.2).1 x hx
            rw [distance_of_before nonempty.1 hx' (by omega)]
            omega

end Intervals

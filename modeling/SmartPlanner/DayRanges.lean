import SmartPlanner.PlannerFits
import SmartPlanner.Library.Counting
import SmartPlanner.Library.Stretches
import Mathlib.Algebra.BigOperators.Group.Finset.Basic

/-!
What the constructor reads off the local calendar. `day_ranges` are the stretches
of one local date, `period_prefix` counts the minutes outside a part of the day,
and in a zone whose local date never goes backwards a range holds all minutes of
its date.
-/

namespace SmartPlanner

open Intervals Outcome Sorting

/-- The local date of a minute of the grid. -/
def dayAt (zone : Zone) (start i : Int) : Int := zone.localDate (start + i * minute)

/-- The day loop so far: closed stretches, and an open one up to the end of the
horizon. -/
theorem extendDays_spec (zone : Zone) (start size : Int) (n : ℕ) :
    ∃ closed left, (List.range (n + 1)).foldl (extendDays zone start size) ([], none) =
        (closed ++ [(left, size)], some (dayAt zone start left)) ∧
      0 ≤ left ∧ left ≤ n ∧
      (∀ i, left ≤ i → i ≤ n → dayAt zone start i = dayAt zone start left) ∧
      (left = 0 ∨ dayAt zone start (left - 1) ≠ dayAt zone start left) ∧
      Stretches (dayAt zone start) left closed := by
  induction n with
  | zero =>
      refine ⟨[], 0, ?_, le_refl _, le_refl _, fun i low high => ?_, Or.inl rfl, stretches_nil _⟩
      · simp [extendDays, dayAt]
      · rw [show i = 0 by omega]
  | succ n ih =>
      obtain ⟨closed, left, hfold, nonneg, hle, constant, opens, stretches⟩ := ih
      rw [List.range_succ, List.foldl_append, hfold, List.foldl_cons, List.foldl_nil]
      have hdate : zone.localDate (start + ((n + 1 : ℕ) : Int) * minute) =
          dayAt zone start ((n + 1 : ℕ) : Int) := rfl
      simp only [extendDays, hdate]
      split
      · next same =>
          rw [Option.some_inj] at same
          refine ⟨closed, left, rfl, nonneg, by omega, fun i low high => ?_, opens, stretches⟩
          by_cases hi : i = ((n + 1 : ℕ) : Int)
          · rw [hi, same]
          · exact constant i low (by omega)
      · next changed =>
          rw [Option.some_inj] at changed
          refine ⟨closed ++ [(left, ((n + 1 : ℕ) : Int))], ((n + 1 : ℕ) : Int), ?_, by omega,
            le_refl _, fun i low high => ?_, Or.inr ?_, ?_⟩
          · simp
          · rw [show i = ((n + 1 : ℕ) : Int) by omega]
          · rw [constant _ (by omega) (by omega)]
            exact Ne.symm changed
          · exact stretches.append nonneg (by omega)
              (fun i low high => constant i low (by omega)) opens

theorem dayRanges_stretches (zone : Zone) (start : Int) {size : Int} (hsize : 1 ≤ size) :
    Stretches (dayAt zone start) size (dayRanges zone start size) := by
  obtain ⟨closed, left, hfold, nonneg, hle, constant, opens, stretches⟩ :=
    extendDays_spec zone start size (size.toNat - 1)
  rw [show size.toNat - 1 + 1 = size.toNat by omega] at hfold
  rw [dayRanges, hfold]
  exact stretches.append nonneg (by omega) (fun i low high => constant i low (by omega)) opens

/-- A minute outside a part of the day. -/
def outsidePart (zone : Zone) (start : Int) (part : DayPart) : Mask := fun i =>
  decide (dayPartOf (zone.localHour (start + i * minute)) ≠ some part)

theorem periodPrefix_getD (zone : Zone) (start : Int) {size k : Int} (part : DayPart)
    (low : 0 ≤ k) (high : k ≤ size) :
    (periodPrefix zone start size part).getD k.toNat 0 =
      Mask.count (outsidePart zone start part) 0 k := by
  have hstep : (fun (count : Int) (index : ℕ) =>
      count + if dayPartOf (zone.localHour (start + index * minute)) = some part
        then (0 : Int) else 1) =
      fun count (index : ℕ) =>
        count + if outsidePart zone start part index then (1 : Int) else 0 := by
    funext count index
    simp only [outsidePart, decide_eq_true_eq, ne_eq, ite_not]
  rw [periodPrefix, hstep, Mask.getD_scanl_count _ (by omega), Int.toNat_of_nonneg low]

namespace Planner
variable {p : Planner}

/-- The fields the constructor reads off the local calendar. -/
structure DayTable (p : Planner) : Prop where
  ranges_eq : p.dayRanges = SmartPlanner.dayRanges p.zone p.start p.size
  prefix_eq : ∀ part, p.periodPrefix part = SmartPlanner.periodPrefix p.zone p.start p.size part
  targets_eq : p.targets = p.dayRanges.map fun range =>
    max 1 (Mask.count p.available range.1 range.2 * p.preferences.workload.fraction / 100)

theorem init_dayTable {request : PreviewRequest} {tasks : List TaskRecord}
    {preferences : PreferenceValues} {zone : Zone} {now : Int}
    (h : Planner.init request tasks preferences zone now = .ok p) : p.DayTable := by
  obtain ⟨-, -, -, opened, events, available, -, -, rfl⟩ := init_ok.mp h
  exact ⟨rfl, fun _ => rfl, rfl⟩

def localDay (p : Planner) (i : Int) : Int := dayAt p.zone p.start i

/-- The local date never goes backwards within the horizon. -/
def DatesForward (p : Planner) : Prop :=
  ∀ i j, 0 ≤ i → i ≤ j → j < p.size → p.localDay i ≤ p.localDay j

/-- The local dates of the horizon. -/
def days (p : Planner) : Finset Int :=
  (Finset.range p.size.toNat).image fun k : ℕ => p.localDay k

/-- The minutes of a local date. -/
def onDay (p : Planner) (day : Int) : Mask := fun i => decide (p.localDay i = day)

/-- The workload target of a local date, from its usable minutes. -/
def dayTarget (p : Planner) (day : Int) : Int :=
  max 1 (Mask.count (fun i => p.available i && p.onDay day i) 0 p.size *
    p.preferences.workload.fraction / 100)

theorem DayTable.stretches (table : p.DayTable) (grid : p.Grid) :
    Stretches p.localDay p.size p.dayRanges := by
  rw [table.ranges_eq]
  exact dayRanges_stretches _ _ grid.size_pos

theorem mem_days {day : Int} : day ∈ p.days ↔ ∃ i, 0 ≤ i ∧ i < p.size ∧ p.localDay i = day := by
  simp only [days, Finset.mem_image, Finset.mem_range]
  constructor
  · rintro ⟨k, hk, rfl⟩
    exact ⟨k, by omega, by omega, rfl⟩
  · rintro ⟨i, low, high, rfl⟩
    exact ⟨i.toNat, by omega, by rw [Int.toNat_of_nonneg low]⟩

section
variable (table : p.DayTable) (grid : p.Grid) (forward : p.DatesForward)
include table grid forward

/-- A sum over the day ranges is a sum over the local dates. -/
theorem sum_dayRanges (f : Int → Int) :
    (p.dayRanges.map fun range => f (p.localDay range.1)).sum = ∑ day ∈ p.days, f day := by
  have stretches := table.stretches grid
  have hdays : (p.dayRanges.map fun range => p.localDay range.1).toFinset = p.days := by
    ext day
    rw [List.mem_toFinset, stretches.mem_keys, mem_days]
  rw [← hdays, List.sum_toFinset _ (stretches.keys_nodup forward), List.map_map]
  rfl

/-- Inside the horizon a day range is its local date. -/
theorem onDay_range {range : Interval} (hr : range ∈ p.dayRanges) {i : Int} (low : 0 ≤ i)
    (high : i < p.size) :
    p.onDay (p.localDay range.1) i = decide (range.1 ≤ i ∧ i < range.2) :=
  decide_eq_decide.mpr ((table.stretches grid).mem_iff forward hr low high).symm

/-- The minutes of an interval on the date of a day range. -/
theorem count_onDay {range : Interval} (hr : range ∈ p.dayRanges) {left right : Int}
    (low : 0 ≤ left) (high : right ≤ p.size) :
    Mask.count (p.onDay (p.localDay range.1)) left right =
      max 0 (min right range.2 - max left range.1) := by
  rw [← Mask.count_interval]
  exact Mask.count_congr fun i h₁ h₂ =>
    onDay_range table grid forward hr (by omega) (by omega)

theorem targets_eq_map :
    p.targets = p.dayRanges.map fun range => p.dayTarget (p.localDay range.1) := by
  rw [table.targets_eq]
  refine List.map_congr_left fun range hr => ?_
  have hrange := (table.stretches grid).range range hr
  unfold dayTarget
  rw [Mask.count_clip p.available hrange.1 hrange.2.2]
  congr 3
  refine Mask.count_congr fun i low high => ?_
  rw [onDay_range table grid forward hr low high]

end

theorem DayTable.periodPrefix_sub (table : p.DayTable) (part : DayPart) {left right : Int}
    (low : 0 ≤ left) (hle : left ≤ right) (high : right ≤ p.size) :
    (p.periodPrefix part).getD right.toNat 0 - (p.periodPrefix part).getD left.toNat 0 =
      Mask.count (outsidePart p.zone p.start part) left right := by
  rw [table.prefix_eq, periodPrefix_getD _ _ _ (by omega) high,
    periodPrefix_getD _ _ _ low (by omega), ← Mask.count_add low hle]
  omega

end Planner

end SmartPlanner

import SmartPlanner.PlannerGrid

/-!
Which blocks fit a task on the minute grid, and what that means in time: the
block lies inside the horizon, the availability and the task's own bounds, not
before the clock, and apart from every fixed event.
-/

namespace SmartPlanner

open Intervals Outcome Sorting

/-- The instants a window covers. -/
def TimeWindow.Contains (window : TimeWindow) (t : Int) : Prop :=
  window.start ≤ t ∧ t < window.stop

namespace Planner
variable {p : Planner}

theorem freeMask_iff (grid : p.Grid) (busy : List Interval) (i : Int) :
    p.freeMask busy 0 i = true ↔
      p.available i = true ∧ ∀ interval ∈ busy, ¬ (interval.1 ≤ i ∧ i < interval.2) := by
  unfold freeMask
  rw [Mask.foldl_fill_false_iff fun interval : Interval =>
    (max 0 (interval.1 - 0), min p.size (interval.2 + 0))]
  constructor
  · rintro ⟨ha, hb⟩
    have hi := grid.available_range ha
    refine ⟨ha, fun interval hm hc => hb interval hm ?_⟩
    simp only
    omega
  · rintro ⟨ha, hb⟩
    have hi := grid.available_range ha
    refine ⟨ha, fun interval hm hc => hb interval hm ?_⟩
    simp only at hc
    omega

/-- Widening the busy intervals only removes free minutes. -/
theorem freeMask_pause {busy : List Interval} {pause i : Int} (hp : 0 ≤ pause)
    (h : p.freeMask busy pause i = true) : p.freeMask busy 0 i = true := by
  unfold freeMask at h ⊢
  rw [Mask.foldl_fill_false_iff fun interval : Interval =>
    (max 0 (interval.1 - pause), min p.size (interval.2 + pause))] at h
  rw [Mask.foldl_fill_false_iff fun interval : Interval =>
    (max 0 (interval.1 - 0), min p.size (interval.2 + 0))]
  refine ⟨h.1, fun interval hm hc => h.2 interval hm ?_⟩
  simp only at hc ⊢
  omega

/-- The constraints on a block that do not depend on the other blocks: the
bounds of its task and the usable minutes. -/
def Fits (p : Planner) (task : TaskRecord) (block : TimeWindow) : Prop :=
  (p.bounds task).1 ≤ (p.indices block).1 ∧ (p.indices block).2 ≤ (p.bounds task).2 ∧
  ∀ i, (p.indices block).1 ≤ i → i < (p.indices block).2 → p.available i = true

theorem validBlock_iff (grid : p.Grid) {task : TaskRecord} {block : PlanBlock} {mask : Mask} :
    p.validBlock task block mask = true ↔
      (p.bounds task).1 ≤ (p.indices block.toTimeWindow).1 ∧
      (p.indices block.toTimeWindow).2 ≤ (p.bounds task).2 ∧
      ∀ i, (p.indices block.toTimeWindow).1 ≤ i → i < (p.indices block.toTimeWindow).2 →
        mask i = true := by
  have hlt := indices_lt grid block.toTimeWindow
  simp only [validBlock, Bool.and_eq_true, decide_eq_true_eq, Mask.all_iff]
  constructor
  · rintro ⟨⟨⟨hl, -⟩, hr⟩, hm⟩
    exact ⟨hl, hr, hm⟩
  · rintro ⟨hl, hr, hm⟩
    exact ⟨⟨⟨hl, hlt⟩, hr⟩, hm⟩

/-- Against the free mask, a valid block is one that fits and is apart from
everything busy. -/
theorem validBlock_freeMask (grid : p.Grid) {task : TaskRecord} {block : PlanBlock}
    {busy : List Interval} (nonempty : ∀ interval ∈ busy, interval.1 < interval.2) :
    p.validBlock task block (p.freeMask busy 0) = true ↔
      p.Fits task block.toTimeWindow ∧
      ∀ interval ∈ busy, Apart (p.indices block.toTimeWindow) interval := by
  have hlt := indices_lt grid block.toTimeWindow
  rw [validBlock_iff grid]
  simp only [freeMask_iff grid]
  constructor
  · rintro ⟨hl, hr, hm⟩
    refine ⟨⟨hl, hr, fun i h₁ h₂ => (hm i h₁ h₂).1⟩, fun interval hi => ?_⟩
    rw [apart_iff_no_common hlt (nonempty interval hi)]
    exact fun i h₁ h₂ => (hm i h₁ h₂).2 interval hi
  · rintro ⟨⟨hl, hr, ha⟩, hapart⟩
    refine ⟨hl, hr, fun i h₁ h₂ => ⟨ha i h₁ h₂, fun interval hi => ?_⟩⟩
    exact (apart_iff_no_common hlt (nonempty interval hi)).mp (hapart interval hi) i h₁ h₂

/-- A block on usable minutes is apart from every fixed event. -/
theorem Fits.apart_events (grid : p.Grid) {task : TaskRecord} {block : TimeWindow}
    (fits : p.Fits task block) : ∀ event ∈ p.events, Apart (p.indices block) event := by
  intro event he
  rw [apart_iff_no_common (indices_lt grid block) (grid.events_nonempty event he)]
  exact fun i h₁ h₂ => grid.available_event (fits.2.2 i h₁ h₂) he

theorem bounds_range (grid : p.Grid) (task : TaskRecord) :
    0 ≤ (p.bounds task).1 ∧ (p.bounds task).2 ≤ p.size := by
  have h := grid.size_pos
  unfold bounds
  simp only
  omega

theorem Fits.range (grid : p.Grid) {task : TaskRecord} {block : TimeWindow}
    (fits : p.Fits task block) : 0 ≤ (p.indices block).1 ∧ (p.indices block).2 ≤ p.size := by
  have h := bounds_range grid task
  have hl := fits.1
  have hr := fits.2.1
  omega

theorem Fits.inside (grid : p.Grid) {task : TaskRecord} {block : TimeWindow}
    (fits : p.Fits task block) : p.start ≤ block.start ∧ block.stop ≤ p.stop := by
  have hrange := fits.range grid
  have h₁ := indices_fst grid block
  have h₂ := indices_snd grid block
  have hstop := grid.stop_eq
  unfold minute at h₁ h₂ hstop
  omega

/-- Clipping an event to the horizon does not bring it closer to the block. -/
theorem Fits.apart_fixedEvents (grid : p.Grid) {task : TaskRecord} {block : TimeWindow}
    (fits : p.Fits task block) {event : FixedEvent} (he : event ∈ p.request.fixedEvents) :
    block.Apart event.toTimeWindow := by
  have hmem : clip p.start p.size event.toTimeWindow ∈ p.events := by
    rw [grid.events_eq]
    exact List.mem_map.mpr ⟨event, by simpa [sortEvents] using he, rfl⟩
  have hapart := fits.apart_events grid _ hmem
  have hrange := fits.range grid
  have hlt := indices_lt grid block
  apply (indices_apart grid).mp
  unfold Apart clip at hapart
  unfold Apart
  rcases hapart with h | h
  · left
    change _ ≤ (indicesFrom p.start event.toTimeWindow).1
    simp only at h
    omega
  · right
    change (indicesFrom p.start event.toTimeWindow).2 ≤ _
    simp only at h
    omega

/-- Every instant of a fitting block is available and not before the clock. -/
theorem Fits.instant (grid : p.Grid) {task : TaskRecord} {block : TimeWindow}
    (fits : p.Fits task block) {t : Int} (ht : block.Contains t) :
    (∃ window ∈ p.request.availability, window.Contains t) ∧ p.now ≤ t := by
  have h₁ := indices_fst grid block
  have h₂ := indices_snd grid block
  set i := (t - p.start) / minute with hi
  have hfloor : p.start + i * minute ≤ t ∧ t < p.start + (i + 1) * minute := by
    unfold minute at hi ⊢
    omega
  have havail := fits.2.2 i (by
    unfold TimeWindow.Contains at ht
    unfold minute at h₁ hfloor
    omega) (by
    unfold TimeWindow.Contains at ht
    unfold minute at h₂ hfloor
    omega)
  obtain ⟨-, hsize, hge⟩ := grid.available_range havail
  have hnow := grid.now_le i hge hsize
  obtain ⟨⟨window, hw, hl, hr⟩, -, -⟩ := (grid.available_iff i).mp havail
  have w₁ := indices_fst grid window
  have w₂ := indices_snd grid window
  refine ⟨⟨window, hw, ?_, ?_⟩, by omega⟩
  · unfold minute at w₁ hfloor
    omega
  · unfold minute at w₂ hfloor
    omega

/-- The bounds of a task in time, rounded inward to whole minutes. -/
theorem Fits.bounds (grid : p.Grid) {task : TaskRecord} {block : TimeWindow}
    (fits : p.Fits task block) :
    (∀ earliest ∈ task.earliestStart, ceilMinutes earliest * minute ≤ block.start) ∧
    ∀ deadline ∈ task.deadline, block.stop ≤ floorMinutes deadline * minute := by
  have hlt := indices_lt grid block
  have hrange := fits.range grid
  have h₁ := indices_fst grid block
  have h₂ := indices_snd grid block
  have whole := grid.wholeStart
  obtain ⟨hl, hr, -⟩ := fits
  unfold Planner.bounds at hl hr
  simp only at hl hr
  constructor
  · intro earliest he
    rw [Option.mem_def.mp he] at hl
    have hle : ceilMinutes (earliest - p.start) ≤ (p.indices block).1 := by
      simp only at hl
      omega
    have hle' := ceilMinutes_le.mp hle
    unfold ceilMinutes minute at *
    omega
  · intro deadline hd
    rw [Option.mem_def.mp hd] at hr
    have hle : (p.indices block).2 ≤ floorMinutes (deadline - p.start) := by
      simp only at hr
      omega
    have hle' := le_floorMinutes.mp hle
    unfold floorMinutes minute at *
    omega

end Planner

/-- Where a block of a task may lie, in terms of time alone. -/
structure BlockAllowed (start stop now : Int) (window : PlanningWindow) (task : TaskRecord)
    (block : TimeWindow) : Prop where
  inside : start ≤ block.start ∧ block.stop ≤ stop
  notPast : now ≤ block.start
  afterEarliest : ∀ earliest ∈ task.earliestStart, earliest ≤ block.start
  beforeDeadline : ∀ deadline ∈ task.deadline, block.stop ≤ deadline
  available : ∀ t, block.Contains t → ∃ slot ∈ window.availability, slot.Contains t
  apartEvents : ∀ event ∈ window.fixedEvents, block.Apart event.toTimeWindow

namespace Planner
variable {p : Planner}

theorem Fits.allowed (grid : p.Grid) {task : TaskRecord} {block : TimeWindow}
    (fits : p.Fits task block) :
    BlockAllowed p.start p.stop p.now p.request.toPlanningWindow task block := by
  have h₁ := indices_fst grid block
  have h₂ := indices_snd grid block
  have hlt := indices_lt grid block
  have hrange := fits.range grid
  have hbounds := fits.bounds grid
  refine ⟨fits.inside grid, ?_, ?_, ?_, fun t ht => (fits.instant grid ht).1,
    fun event he => fits.apart_fixedEvents grid he⟩
  · have hfloor : p.floor ≤ (p.indices block).1 :=
      (grid.available_range (fits.2.2 _ (le_refl _) hlt)).2.2
    have hnow := grid.now_le _ hfloor (by omega)
    omega
  · intro earliest he
    have hle := hbounds.1 earliest he
    have hceil := ceilMinutes_le.mp (le_refl (ceilMinutes earliest))
    omega
  · intro deadline hd
    have hle := hbounds.2 deadline hd
    have hfloor := le_floorMinutes.mp (le_refl (floorMinutes deadline))
    omega

section Allowed

variable {task : TaskRecord} {block : TimeWindow}
  (allowed : BlockAllowed p.start p.stop p.now p.request.toPlanningWindow task block)
include allowed

theorem range_of_allowed (grid : p.Grid) :
    0 ≤ (p.indices block).1 ∧ (p.indices block).2 ≤ p.size ∧
      p.floor ≤ (p.indices block).1 := by
  have h₁ := indices_fst grid block
  have h₂ := indices_snd grid block
  have hstop := grid.stop_eq
  have hpast := allowed.notPast
  obtain ⟨hinl, hinr⟩ := allowed.inside
  have hleft : 0 ≤ (p.indices block).1 := by
    unfold minute at h₁
    omega
  refine ⟨hleft, ?_, grid.floor_le _ hleft (by omega)⟩
  unfold minute at h₂ hstop
  omega

theorem bounds_of_allowed (grid : p.Grid) :
    (p.bounds task).1 ≤ (p.indices block).1 ∧ (p.indices block).2 ≤ (p.bounds task).2 := by
  have h₁ := indices_fst grid block
  have h₂ := indices_snd grid block
  have hlt := indices_lt grid block
  obtain ⟨hleft, hright, hfloor⟩ := range_of_allowed allowed grid
  unfold Planner.bounds
  constructor
  · cases he : task.earliestStart with
    | none =>
        simp only
        omega
    | some earliest =>
        have hle := allowed.afterEarliest earliest he
        have hceil : ceilMinutes (earliest - p.start) ≤ (p.indices block).1 :=
          ceilMinutes_le.mpr (by omega)
        simp only
        omega
  · cases hd : task.deadline with
    | none =>
        simp only
        omega
    | some deadline =>
        have hle := allowed.beforeDeadline deadline hd
        have hdown : (p.indices block).2 ≤ floorMinutes (deadline - p.start) :=
          le_floorMinutes.mpr (by omega)
        simp only
        omega

theorem available_of_allowed (grid : p.Grid) (i : Int) (hil : (p.indices block).1 ≤ i)
    (hir : i < (p.indices block).2) : p.available i = true := by
  have h₁ := indices_fst grid block
  have h₂ := indices_snd grid block
  obtain ⟨hleft, hright, hfloor⟩ := range_of_allowed allowed grid
  refine (grid.available_iff i).mpr ⟨?_, by omega, ?_⟩
  · obtain ⟨window, hw, hwl, hwr⟩ := allowed.available (p.start + i * minute) (by
      unfold TimeWindow.Contains minute at *
      omega)
    have w₁ := indices_fst grid window
    have w₂ := indices_snd grid window
    refine ⟨window, hw, ?_, ?_⟩ <;> unfold minute at * <;> omega
  · intro event he hclip
    have hapart := (indices_apart grid).mpr (allowed.apartEvents event he)
    unfold clip at hclip
    unfold Apart indices at hapart
    unfold indices at hil hir hleft hright
    simp only at hclip
    omega

end Allowed

/-- On the grid, fitting is being allowed. -/
theorem fits_iff (grid : p.Grid) {task : TaskRecord} {block : TimeWindow} :
    p.Fits task block ↔
      BlockAllowed p.start p.stop p.now p.request.toPlanningWindow task block := by
  refine ⟨fun fits => fits.allowed grid, fun allowed => ?_⟩
  obtain ⟨opens, closes⟩ := bounds_of_allowed allowed grid
  exact ⟨opens, closes, available_of_allowed allowed grid⟩

end Planner

end SmartPlanner

import SmartPlanner.Planner

/-!
What a constructed planner guarantees about its minute grid: whole-minute
indices, the usable minutes, and the fixed events as disjoint intervals. Every
later module reasons from `Planner.Grid` and never unfolds the constructor.
-/

namespace SmartPlanner

open Intervals Outcome Sorting

/-- Two windows of which one ends before the other starts. -/
def TimeWindow.Apart (a b : TimeWindow) : Prop := a.stop ≤ b.start ∨ b.stop ≤ a.start

instance (a b : TimeWindow) : Decidable (a.Apart b) :=
  inferInstanceAs (Decidable (_ ∨ _))

theorem TimeWindow.Apart.symm {a b : TimeWindow} (h : a.Apart b) : b.Apart a := Or.symm h

section
variable {start : Int} (whole : start % minute = 0)
include whole

theorem indicesFrom_fst_mul (window : TimeWindow) :
    (indicesFrom start window).1 * minute = window.start - start := by
  have hw := window.windowValid.1.2
  apply truncMinutes_mul
  unfold minute at whole hw ⊢
  omega

theorem indicesFrom_snd_mul (window : TimeWindow) :
    (indicesFrom start window).2 * minute = window.stop - start := by
  have hw := window.windowValid.2.1.2
  apply truncMinutes_mul
  unfold minute at whole hw ⊢
  omega

theorem indicesFrom_lt (window : TimeWindow) :
    (indicesFrom start window).1 < (indicesFrom start window).2 := by
  have h₁ := indicesFrom_fst_mul whole window
  have h₂ := indicesFrom_snd_mul whole window
  have h := window.windowValid.2.2
  unfold minute at h₁ h₂
  omega

theorem minutes_eq_indices (window : TimeWindow) :
    window.minutes = (indicesFrom start window).2 - (indicesFrom start window).1 := by
  have h₁ := indicesFrom_fst_mul whole window
  have h₂ := indicesFrom_snd_mul whole window
  have h : window.stop - window.start =
      ((indicesFrom start window).2 - (indicesFrom start window).1) * minute := by
    rw [Int.sub_mul]
    omega
  unfold TimeWindow.minutes
  rw [h, truncMinutes_mul_minute]

/-- Disjointness in time is disjointness of the minute ranges. -/
theorem apart_indicesFrom {a b : TimeWindow} :
    Apart (indicesFrom start a) (indicesFrom start b) ↔ a.Apart b := by
  have a₁ := indicesFrom_fst_mul whole a
  have a₂ := indicesFrom_snd_mul whole a
  have b₁ := indicesFrom_fst_mul whole b
  have b₂ := indicesFrom_snd_mul whole b
  unfold Apart TimeWindow.Apart
  unfold minute at a₁ a₂ b₁ b₂
  omega

end

theorem openWindows_ok {start size : Int} {windows : List TimeWindow} {mask mask' : Mask}
    (h : openWindows start size windows mask = .ok mask') :
    (∀ window ∈ windows, 0 ≤ (indicesFrom start window).1 ∧
      (indicesFrom start window).2 ≤ size) ∧
    ∀ i, mask' i = true ↔ mask i = true ∨ ∃ window ∈ windows,
      (indicesFrom start window).1 ≤ i ∧ i < (indicesFrom start window).2 := by
  induction windows generalizing mask with
  | nil =>
      simp only [openWindows, Except.ok.injEq] at h
      simp [h]
  | cons window windows ih =>
      simp only [openWindows] at h
      split at h
      · contradiction
      · next inside =>
          obtain ⟨rest, spec⟩ := ih h
          refine ⟨?_, ?_⟩
          · simp only [List.forall_mem_cons]
            exact ⟨by omega, rest⟩
          · intro i
            rw [spec, Mask.fill_true_iff, or_assoc]
            simp

theorem openWindows_total (start size : Int) (windows : List TimeWindow) (mask : Mask)
    (inside : ∀ window ∈ windows, 0 ≤ (indicesFrom start window).1 ∧
      (indicesFrom start window).2 ≤ size) :
    ∃ mask', openWindows start size windows mask = .ok mask' := by
  induction windows generalizing mask with
  | nil => exact ⟨mask, rfl⟩
  | cons window windows ih =>
      simp only [List.forall_mem_cons] at inside
      simp only [openWindows]
      rw [if_neg (by omega)]
      exact ih _ inside.2

/-- Intervals in time order, each starting after all earlier ones ended. -/
def InOrder (intervals : List Interval) : Prop :=
  intervals.Pairwise fun a b => a.2 ≤ b.1

private theorem inOrder_append {busy : List Interval} {next : Interval}
    (order : InOrder busy) (nonempty : ∀ interval ∈ busy, interval.1 < interval.2)
    (after : ∀ last ∈ busy.getLast?, last.2 ≤ next.1) : InOrder (busy ++ [next]) := by
  rcases List.eq_nil_or_concat' busy with rfl | ⟨init, last, rfl⟩
  · simp [InOrder]
  · have hlast : last.2 ≤ next.1 := after last (by simp)
    have hne : last.1 < last.2 := nonempty last (by simp)
    unfold InOrder at order ⊢
    rw [List.pairwise_append] at order ⊢
    refine ⟨List.pairwise_append.mpr order, by simp, ?_⟩
    intro a ha b hb
    rw [List.mem_singleton.mp hb]
    rcases List.mem_append.mp ha with hinit | hlast'
    · have := order.2.2 a hinit last (by simp)
      omega
    · rw [List.mem_singleton.mp hlast']
      exact hlast

theorem blockEvents_ok {start size : Int} {events : List FixedEvent}
    {busy busy' : List Interval} {mask mask' : Mask}
    (h : blockEvents start size events busy mask = .ok (busy', mask')) :
    busy' = busy ++ events.map (fun event => clip start size event.toTimeWindow) ∧
    (∀ event ∈ events, (clip start size event.toTimeWindow).1 <
      (clip start size event.toTimeWindow).2) ∧
    (∀ i, mask' i = true ↔ mask i = true ∧ ∀ event ∈ events,
      ¬ ((clip start size event.toTimeWindow).1 ≤ i ∧
        i < (clip start size event.toTimeWindow).2)) ∧
    (InOrder busy → (∀ interval ∈ busy, interval.1 < interval.2) → InOrder busy') := by
  induction events generalizing busy mask with
  | nil =>
      simp only [blockEvents, Except.ok.injEq, Prod.mk.injEq] at h
      obtain ⟨rfl, rfl⟩ := h
      exact ⟨by simp, by simp, by simp, fun order _ => order⟩
  | cons event events ih =>
      simp only [blockEvents] at h
      split at h
      · contradiction
      · next meets =>
          split at h
          · contradiction
          · next after =>
              obtain ⟨hbusy, hne, hmask, horder⟩ := ih h
              refine ⟨by simp [hbusy], ?_, ?_, ?_⟩
              · simp only [List.forall_mem_cons]
                exact ⟨by omega, hne⟩
              · intro i
                rw [hmask, Mask.fill_false_iff]
                simp only [List.forall_mem_cons, and_assoc]
              · intro order nonempty
                apply horder
                · apply inOrder_append order nonempty
                  intro last hl
                  by_contra hlt
                  exact after ⟨last, hl, by simpa using hlt⟩
                · intro interval hi
                  rcases List.mem_append.mp hi with hi | hi
                  · exact nonempty interval hi
                  · rw [List.mem_singleton.mp hi]
                    simpa using meets

/-- Whether the events are accepted does not depend on the mask. -/
theorem blockEvents_mask {start size : Int} {events : List FixedEvent}
    {busy busy' : List Interval} {mask mask' : Mask} (other : Mask)
    (h : blockEvents start size events busy mask = .ok (busy', mask')) :
    ∃ other', blockEvents start size events busy other = .ok (busy', other') := by
  induction events generalizing busy mask other with
  | nil =>
      simp only [blockEvents, Except.ok.injEq, Prod.mk.injEq] at h
      exact ⟨other, by simp [blockEvents, h.1]⟩
  | cons event events ih =>
      simp only [blockEvents] at h ⊢
      split at h
      · contradiction
      · next meets =>
          split at h
          · contradiction
          · next after =>
              rw [if_neg meets, if_neg after]
              exact ih _ h

/-- The horizon checks of the constructor. -/
def HorizonOk (zone : Zone) (window : PlanningWindow) : Prop :=
  let start := zone.dayStart window.startDate
  let stop := zone.dayStart (window.startDate + window.days)
  (1 ≤ truncMinutes (stop - start) ∧ truncMinutes (stop - start) ≤ 8 * 1440) ∧
  zone.localDate start = window.startDate ∧ secondOf start = 0 ∧ secondOf stop = 0

/-- The constructor succeeds exactly when its guards hold. -/
theorem Planner.init_ok {request : PreviewRequest} {tasks : List TaskRecord}
    {preferences : PreferenceValues} {zone : Zone} {now : Int} {p : Planner} :
    Planner.init request tasks preferences zone now = .ok p ↔
      zone.localDate now ≤ request.startDate ∧ HorizonOk zone request.toPlanningWindow ∧
      SnapshotMatches request.taskIds tasks ∧
      ∃ opened events available,
        openWindows (zone.dayStart request.startDate)
          (truncMinutes (zone.dayStart (request.startDate + request.days) -
            zone.dayStart request.startDate))
          request.availability (fun _ => false) = .ok opened ∧
        blockEvents (zone.dayStart request.startDate)
          (truncMinutes (zone.dayStart (request.startDate + request.days) -
            zone.dayStart request.startDate))
          (sortEvents request.fixedEvents) []
          (opened.fill 0 (Planner.assemble request tasks preferences zone now
            events available).floor false) = .ok (events, available) ∧
        p = Planner.assemble request tasks preferences zone now events available := by
  unfold Planner.init
  simp only [raiseIf_bind_ok]
  simp only [bind_ok, pure_eq_ok, Except.ok.injEq, HorizonOk]
  constructor
  · rintro ⟨hdate, hday, hsec, hsnap, opened, hopen, ⟨events, available⟩, hevents, rfl⟩
    rw [not_or, not_not, ne_eq, not_not] at hday
    exact ⟨by omega, ⟨hday.1, hday.2, by omega, by omega⟩, not_not.mp hsnap,
      opened, events, available, hopen, hevents, rfl⟩
  · rintro ⟨hdate, ⟨hsize, hlocal, hs, he⟩, hsnap, opened, events, available, hopen,
      hevents, rfl⟩
    refine ⟨by omega, ?_, by omega, not_not.mpr hsnap, opened, hopen,
      (events, available), hevents, rfl⟩
    rw [not_or, not_not, ne_eq, not_not]
    exact ⟨hsize, hlocal⟩

namespace Planner

/-- The facts of a constructed planner that its methods rely on. -/
structure Grid (p : Planner) : Prop where
  wholeStart : p.start % minute = 0
  stop_eq : p.stop = p.start + p.size * minute
  size_pos : 1 ≤ p.size
  floor_nonneg : 0 ≤ p.floor
  now_le : ∀ i, p.floor ≤ i → i < p.size → p.now ≤ p.start + i * minute
  floor_le : ∀ i, 0 ≤ i → p.now ≤ p.start + i * minute → p.floor ≤ i
  snapshot : SnapshotMatches p.request.taskIds p.tasks
  windows_inside : ∀ window ∈ p.request.availability,
    0 ≤ (p.indices window).1 ∧ (p.indices window).2 ≤ p.size
  available_iff : ∀ i, p.available i = true ↔
    (∃ window ∈ p.request.availability,
      (p.indices window).1 ≤ i ∧ i < (p.indices window).2) ∧
    ¬ (0 ≤ i ∧ i < p.floor) ∧
    ∀ event ∈ p.request.fixedEvents,
      ¬ ((clip p.start p.size event.toTimeWindow).1 ≤ i ∧
        i < (clip p.start p.size event.toTimeWindow).2)
  events_eq : p.events = (sortEvents p.request.fixedEvents).map fun event =>
    clip p.start p.size event.toTimeWindow
  events_nonempty : ∀ event ∈ p.events, event.1 < event.2
  events_inOrder : InOrder p.events

theorem init_grid {request : PreviewRequest} {tasks : List TaskRecord}
    {preferences : PreferenceValues} {zone : Zone} {now : Int} {p : Planner}
    (h : Planner.init request tasks preferences zone now = .ok p) : p.Grid := by
  obtain ⟨-, ⟨hsize, -, hs, he⟩, hsnap, opened, events, available, hopen, hevents, rfl⟩ :=
    init_ok.mp h
  have whole := dayStart_wholeMinute hs
  have wholeStop := dayStart_wholeMinute he
  obtain ⟨inside, hopened⟩ := openWindows_ok hopen
  obtain ⟨hbusy, hne, hmask, horder⟩ := blockEvents_ok hevents
  have hdiff : (zone.dayStart (request.startDate + request.days) -
      zone.dayStart request.startDate) % minute = 0 := by
    unfold minute at whole wholeStop ⊢
    omega
  have hstop := truncMinutes_mul hdiff
  refine ⟨whole, ?_, hsize.1, ?_, ?_, ?_, hsnap, inside, ?_, ?_, ?_, ?_⟩
  · simp only [assemble]
    omega
  · simp only [assemble]
    omega
  · intro i hfloor hi
    have hceil : ceilMinutes (now - zone.dayStart request.startDate) ≤ i := by
      simp only [assemble] at hfloor hi
      omega
    have hnow := ceilMinutes_le.mp hceil
    simp only [assemble]
    omega
  · intro i hi hnow
    simp only [assemble] at hnow
    have hceil := ceilMinutes_le.mpr (show now - zone.dayStart request.startDate ≤ i * minute
      by omega)
    simp only [assemble]
    omega
  · intro i
    have hi := hmask i
    rw [Mask.fill_false_iff, hopened i] at hi
    simp only [Bool.false_eq_true, false_or, sortEvents, mem_sortBy] at hi
    rw [and_assoc] at hi
    exact hi
  · rw [List.nil_append] at hbusy
    exact hbusy
  · intro event hevent
    rw [show (assemble request tasks preferences zone now events available).events = events
      from rfl, hbusy] at hevent
    simp only [List.nil_append, List.mem_map] at hevent
    obtain ⟨e, he, rfl⟩ := hevent
    exact hne e he
  · exact horder (by simp [InOrder]) (by simp)

theorem init_fields {request : PreviewRequest} {tasks : List TaskRecord}
    {preferences : PreferenceValues} {zone : Zone} {now : Int} {p : Planner}
    (h : Planner.init request tasks preferences zone now = .ok p) :
    p.request = request ∧ p.preferences = preferences ∧ p.zone = zone ∧ p.now = now ∧
      p.tasks = tasks ∧ p.start = zone.dayStart request.startDate ∧
      p.stop = zone.dayStart (request.startDate + request.days) := by
  obtain ⟨-, -, -, opened, events, available, -, -, rfl⟩ := init_ok.mp h
  exact ⟨rfl, rfl, rfl, rfl, rfl, rfl, rfl⟩

variable {p : Planner}

theorem Grid.available_range (grid : p.Grid) {i : Int} (h : p.available i = true) :
    0 ≤ i ∧ i < p.size ∧ p.floor ≤ i := by
  obtain ⟨⟨window, hw, hl, hr⟩, hfloor, -⟩ := (grid.available_iff i).mp h
  have hin := grid.windows_inside window hw
  omega

/-- No usable minute belongs to a fixed event. -/
theorem Grid.available_event (grid : p.Grid) {i : Int} (h : p.available i = true)
    {event : Interval} (he : event ∈ p.events) : ¬ (event.1 ≤ i ∧ i < event.2) := by
  rw [grid.events_eq] at he
  obtain ⟨e, hmem, rfl⟩ := List.mem_map.mp he
  simp only [sortEvents, mem_sortBy] at hmem
  exact ((grid.available_iff i).mp h).2.2 e hmem

theorem indices_fst (grid : p.Grid) (window : TimeWindow) :
    p.start + (p.indices window).1 * minute = window.start := by
  have h := indicesFrom_fst_mul grid.wholeStart window
  unfold indices
  omega

theorem indices_snd (grid : p.Grid) (window : TimeWindow) :
    p.start + (p.indices window).2 * minute = window.stop := by
  have h := indicesFrom_snd_mul grid.wholeStart window
  unfold indices
  omega

theorem indices_lt (grid : p.Grid) (window : TimeWindow) :
    (p.indices window).1 < (p.indices window).2 :=
  indicesFrom_lt grid.wholeStart window

theorem indices_minutes (grid : p.Grid) (window : TimeWindow) :
    window.minutes = (p.indices window).2 - (p.indices window).1 :=
  minutes_eq_indices grid.wholeStart window

theorem indices_apart (grid : p.Grid) {a b : TimeWindow} :
    Apart (p.indices a) (p.indices b) ↔ a.Apart b :=
  apart_indicesFrom grid.wholeStart

/-- The indices of a window given by its minutes. -/
theorem indices_of_minutes (grid : p.Grid) {window : TimeWindow} {left right : Int}
    (hl : window.start = p.start + left * minute)
    (hr : window.stop = p.start + right * minute) : p.indices window = (left, right) := by
  have h₁ := indices_fst grid window
  have h₂ := indices_snd grid window
  unfold minute at h₁ h₂ hl hr
  apply Prod.ext
  · change (p.indices window).1 = left
    omega
  · change (p.indices window).2 = right
    omega

end Planner

end SmartPlanner

import SmartPlanner.CheckErrors
import SmartPlanner.LayoutInspection

/-!
Which previews the planner refuses. `RequestOk` says what the constructor and the
lock loop ask of a request, in terms of time alone. A request that lacks any of it
is refused with an application error; the others fail at most because the horizon
is no window.
-/

namespace SmartPlanner

open Outcome Sorting

def Refusal (e : PyError) : Prop := ∃ error, e = .app error

/-- A request that the planner has nothing against. -/
structure RequestOk (zone : Zone) (request : PreviewRequest) (tasks : List TaskRecord)
    (now : Int) : Prop where
  notPast : zone.localDate now ≤ request.startDate
  horizon : HorizonOk zone request.toPlanningWindow
  availability : ∀ slot ∈ request.availability,
    request.horizonStart zone ≤ slot.start ∧ slot.stop ≤ request.horizonStop zone
  eventsMeet : ∀ event ∈ request.fixedEvents,
    event.start < request.horizonStop zone ∧ request.horizonStart zone < event.stop
  eventsApart : request.fixedEvents.Pairwise fun a b => a.toTimeWindow.Apart b.toTimeWindow
  share : ∀ task ∈ tasks, task.status = .pending →
    ShareOk task ((blocksOf request.previousBlocks task.id).filter (·.locked))
  allowed : ∀ task ∈ tasks, task.status = .pending →
    ∀ block ∈ (blocksOf request.previousBlocks task.id).filter (·.locked),
      BlockAllowed (request.horizonStart zone) (request.horizonStop zone) now
        request.toPlanningWindow task block.toTimeWindow
  apart : PairwiseApart (lockedBlocks request.previousBlocks tasks)

theorem CheckError.refusal (e : PyError) (h : CheckError e) : Refusal e := by
  obtain ⟨error, rfl, -⟩ := h
  exact ⟨error, rfl⟩

/-- Only which tasks there are matters. -/
theorem RequestOk.congr {zone : Zone} {request : PreviewRequest} {tasks others : List TaskRecord}
    {now : Int} (same : ∀ task, task ∈ others ↔ task ∈ tasks)
    (ok : RequestOk zone request tasks now) : RequestOk zone request others now where
  notPast := ok.notPast
  horizon := ok.horizon
  availability := ok.availability
  eventsMeet := ok.eventsMeet
  eventsApart := ok.eventsApart
  share task ht := ok.share task ((same task).mp ht)
  allowed task ht := ok.allowed task ((same task).mp ht)
  apart := by
    have anyTask : ∀ q : TaskRecord → Bool, others.any q = tasks.any q := fun q => by
      rw [Bool.eq_iff_iff, List.any_eq_true, List.any_eq_true]
      exact exists_congr fun task => and_congr_left fun _ => same task
    unfold lockedBlocks
    simp only [anyTask]
    exact ok.apart

/-- A horizon that passes the checks is a window in supported years. -/
theorem HorizonOk.windowValid_iff {zone : Zone} {window : PlanningWindow}
    (horizon : HorizonOk zone window) :
    WindowValid (window.horizonStart zone) (window.horizonStop zone) ↔
      SupportedYear (window.horizonStart zone) ∧ SupportedYear (window.horizonStop zone) := by
  obtain ⟨⟨hpos, -⟩, -, hstart, hstop⟩ := horizon
  have whole := dayStart_wholeMinute hstart
  have wholeStop := dayStart_wholeMinute hstop
  have hlt : window.horizonStart zone < window.horizonStop zone := by
    change zone.dayStart window.startDate < zone.dayStart (window.startDate + window.days)
    have hsize : truncMinutes (zone.dayStart (window.startDate + window.days) -
        zone.dayStart window.startDate) * minute =
          zone.dayStart (window.startDate + window.days) - zone.dayStart window.startDate := by
      apply truncMinutes_mul
      unfold minute at whole wholeStop ⊢
      omega
    unfold minute at hsize
    omega
  exact ⟨fun h => ⟨h.1.1, h.2.1.1⟩, fun h => ⟨⟨h.1, whole⟩, ⟨h.2, wholeStop⟩, hlt⟩⟩

namespace Planner
variable {p : Planner}

/-- What the lock loop asks, in terms of time. -/
theorem locksOk_iff_allowed (grid : p.Grid) :
    p.LocksOk ↔
      (∀ task ∈ p.tasks, task.status = .pending →
        ShareOk task ((blocksOf p.request.previousBlocks task.id).filter (·.locked))) ∧
      (∀ task ∈ p.tasks, task.status = .pending →
        ∀ block ∈ (blocksOf p.request.previousBlocks task.id).filter (·.locked),
          BlockAllowed p.start p.stop p.now p.request.toPlanningWindow task
            block.toTimeWindow) ∧
      PairwiseApart (lockedBlocks p.request.previousBlocks p.tasks) := by
  rw [locksOk_iff grid, ← and_assoc]
  refine and_congr_left fun _ => ?_
  simp only [mem_pending, and_imp, fits_iff grid]
  constructor
  · exact fun h => ⟨fun task ht hp => (h task ht hp).1, fun task ht hp => (h task ht hp).2⟩
  · exact fun h task ht hp => ⟨h.1 task ht hp, h.2 task ht hp⟩

end Planner

section
variable {zoneInfo : String → Zone} {request : PreviewRequest} {tasks : List TaskRecord}
  {preferences : PreferenceValues} {timezoneName : String} {now : Int}
  {preferenceVersion : Nat} {searchBudget : Int}

/-- The constructor and the lock loop take exactly the requests in order. -/
theorem requestOk_iff (preferences : PreferenceValues) {zone : Zone}
    (snapshot : SnapshotMatches request.taskIds tasks) :
    RequestOk zone request tasks now ↔
      ∃ p, Planner.init request tasks preferences zone now = .ok p ∧ p.LocksOk := by
  have locks : ∀ p, Planner.init request tasks preferences zone now = .ok p →
      (p.LocksOk ↔
        (∀ task ∈ tasks, task.status = .pending →
          ShareOk task ((blocksOf request.previousBlocks task.id).filter (·.locked))) ∧
        (∀ task ∈ tasks, task.status = .pending →
          ∀ block ∈ (blocksOf request.previousBlocks task.id).filter (·.locked),
            BlockAllowed (request.horizonStart zone) (request.horizonStop zone) now
              request.toPlanningWindow task block.toTimeWindow) ∧
        PairwiseApart (lockedBlocks request.previousBlocks tasks)) := by
    intro p hinit
    obtain ⟨hrequest, -, -, hnow, htasks, hstart, hstop⟩ := Planner.init_fields hinit
    have iff_ := Planner.locksOk_iff_allowed (Planner.init_grid hinit)
    rw [hrequest, hnow, htasks, hstart, hstop] at iff_
    exact iff_
  constructor
  · intro ok
    obtain ⟨p, hinit⟩ : ∃ p, Planner.init request tasks preferences zone now = .ok p :=
      Planner.init_iff.mpr ⟨ok.notPast, ⟨ok.horizon, ok.availability,
        ok.horizon.eventsAccepted_iff.mpr ⟨ok.eventsMeet, ok.eventsApart⟩⟩, snapshot⟩
    exact ⟨p, hinit, (locks p hinit).mpr ⟨ok.share, ok.allowed, ok.apart⟩⟩
  · rintro ⟨p, hinit, hlocks⟩
    obtain ⟨hdate, window, -⟩ := Planner.init_iff.mp ⟨p, hinit⟩
    obtain ⟨meet, apart⟩ := window.horizon.eventsAccepted_iff.mp window.events
    obtain ⟨share, allowed, locksApart⟩ := (locks p hinit).mp hlocks
    exact ⟨hdate, window.horizon, window.availability, meet, apart, share, allowed, locksApart⟩

/-- Any other request is refused. -/
theorem buildPreview_refused (snapshot : SnapshotMatches request.taskIds tasks)
    (refused : ¬ RequestOk (zoneInfo timezoneName) request tasks now) :
    ∃ error, buildPreview zoneInfo request tasks preferences timezoneName now
      preferenceVersion searchBudget = .error (.app error) := by
  unfold buildPreview
  cases hinit : Planner.init request tasks preferences (zoneInfo timezoneName) now with
  | error e =>
      obtain ⟨error, rfl⟩ := Planner.raises_init CheckError.refusal preferences
        (zoneInfo timezoneName) now (absurd snapshot) e hinit
      exact ⟨error, rfl⟩
  | ok p =>
      cases hpreserve : p.preservePrevious (p.initial searchBudget) with
      | error e =>
          obtain ⟨error, rfl⟩ := CheckError.refusal e (p.raises_preservePrevious _ e hpreserve)
          refine ⟨error, ?_⟩
          rw [ok_bind, hpreserve]
          rfl
      | ok state =>
          have locksOk := (Planner.preservePrevious_iff (Planner.init_grid hinit)).mp
            ⟨state, hpreserve⟩
          exact absurd ((requestOk_iff preferences snapshot).mpr ⟨p, hinit, locksOk⟩) refused

/-- A request in order is planned if its horizon lies in supported years. -/
theorem buildPreview_taken (snapshot : SnapshotMatches request.taskIds tasks)
    (ok : RequestOk (zoneInfo timezoneName) request tasks now)
    (start : SupportedYear (request.horizonStart (zoneInfo timezoneName)))
    (stop : SupportedYear (request.horizonStop (zoneInfo timezoneName))) :
    ∃ preview, buildPreview zoneInfo request tasks preferences timezoneName now
      preferenceVersion searchBudget = .ok preview := by
  obtain ⟨p, hinit, locksOk⟩ := (requestOk_iff preferences snapshot).mp ok
  obtain ⟨-, -, -, -, -, hstart, hstop⟩ := Planner.init_fields hinit
  refine buildPreview_total hinit locksOk ?_
  rw [hstart, hstop]
  exact ok.horizon.windowValid_iff.mpr ⟨start, stop⟩

/-- A request in order fails only with its horizon. -/
theorem raises_taken (snapshot : SnapshotMatches request.taskIds tasks)
    (ok : RequestOk (zoneInfo timezoneName) request tasks now) :
    Raises (· = .validation) (buildPreview zoneInfo request tasks preferences timezoneName now
      preferenceVersion searchBudget) := by
  obtain ⟨p, hinit, locksOk⟩ := (requestOk_iff preferences snapshot).mp ok
  have grid := Planner.init_grid hinit
  obtain ⟨state, hpreserve⟩ := Planner.preservePrevious_total grid searchBudget locksOk
  obtain ⟨state', hallocate⟩ := Planner.allocation_total grid hpreserve
  unfold buildPreview
  rw [hinit, ok_bind, hpreserve, ok_bind, hallocate, ok_bind]
  refine Raises.bind ?_ fun _ _ => raises_ok _
  unfold TimeWindow.make
  split
  · exact raises_ok _
  · exact raises_error rfl

/-- In supported years the planner only fails by refusing. -/
theorem raises_buildPreview (snapshot : SnapshotMatches request.taskIds tasks)
    (start : SupportedYear (request.horizonStart (zoneInfo timezoneName)))
    (stop : SupportedYear (request.horizonStop (zoneInfo timezoneName))) :
    Raises Refusal (buildPreview zoneInfo request tasks preferences timezoneName now
      preferenceVersion searchBudget) := by
  by_cases ok : RequestOk (zoneInfo timezoneName) request tasks now
  · have taken : ∃ preview, buildPreview zoneInfo request tasks preferences timezoneName now
        preferenceVersion searchBudget = .ok preview := buildPreview_taken snapshot ok start stop
    obtain ⟨preview, h⟩ := taken
    rw [h]
    exact raises_ok preview
  · have refused : ∃ error, buildPreview zoneInfo request tasks preferences timezoneName now
        preferenceVersion searchBudget = .error (.app error) := buildPreview_refused snapshot ok
    obtain ⟨error, h⟩ := refused
    rw [h]
    exact raises_error ⟨error, rfl⟩

end

end SmartPlanner

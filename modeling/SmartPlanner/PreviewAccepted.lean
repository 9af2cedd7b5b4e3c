import SmartPlanner.PreviewSound
import SmartPlanner.ScheduleValidation

/-!
What the planner proposes the store accepts: a returned preview is a layout that
`inspect_layout` reproduces, although it checks by another route.
-/

namespace SmartPlanner

open Intervals Outcome Sorting Tables ScheduleRepository

/-- The content a client saves a preview as. -/
structure SavesPreview (request : PreviewRequest) (preview : PlanPreview)
    (content : ScheduleContent) : Prop where
  startDate : content.startDate = request.startDate
  days : content.days = request.days
  taskIds : content.taskIds = request.taskIds
  availability : content.availability = request.availability
  fixedEvents : content.fixedEvents = preview.fixedEvents
  blocks : content.blocks = preview.blocks

theorem Planner.ordered_congr {p q : Planner} (htasks : p.tasks = q.tasks)
    (hstop : p.stop = q.stop) : p.ordered = q.ordered := by
  unfold ordered order pending
  rw [htasks, hstop]

theorem Planner.ignoredTaskIds_congr {p q : Planner} (htasks : p.tasks = q.tasks) :
    p.ignoredTaskIds = q.ignoredTaskIds := by
  unfold ignoredTaskIds
  rw [htasks]

section
variable {zoneInfo : String → Zone} {request : PreviewRequest} {tasks : List TaskRecord}
  {preferences : PreferenceValues} {timezoneName : String} {now : Int}
  {preferenceVersion : Nat} {searchBudget : Int} {preview : PlanPreview}

/-- A returned preview can be put into a save request. -/
theorem savesPreview_exists
    (h : buildPreview zoneInfo request tasks preferences timezoneName now preferenceVersion
      searchBudget = .ok preview) :
    ∃ content, SavesPreview request preview content := by
  obtain ⟨p, state, hinit, -, inv, -, -, hblocks, hevents, -⟩ := buildPreview_ok h
  have grid := Planner.init_grid hinit
  obtain ⟨hrequest, -⟩ := Planner.init_fields hinit
  obtain ⟨hdate, hdays, hdistinct, hids, hslots, hcount⟩ := request.planningValid
  have planningValid : (730120 ≤ request.startDate ∧ request.startDate ≤ 767002) ∧
      (request.days = 1 ∨ request.days = 7) ∧ request.taskIds.Nodup ∧
      request.taskIds.length ≤ 100 ∧ request.availability.length ≤ 28 ∧
      preview.fixedEvents.length ≤ 100 := by
    refine ⟨hdate, hdays, hdistinct, hids, hslots, ?_⟩
    rw [hevents]
    simpa [sortEvents] using hcount
  have blocksValid : preview.blocks.length ≤ 512 ∧
      ∀ block ∈ preview.blocks, block.taskId ∈ request.taskIds := by
    rw [hblocks]
    refine ⟨by simpa [sortBlocks, maxBlocks] using inv.count, fun block hb => ?_⟩
    obtain ⟨task, ht, hid, -⟩ := inv.sound.placed block (mem_sortBy.mp hb)
    rw [← hid, ← hrequest]
    exact grid.snapshot.2.1 task (Planner.mem_pending.mp ht).1
  exact ⟨⟨⟨request.startDate, request.days, request.taskIds, request.availability,
    preview.fixedEvents, planningValid⟩, preview.blocks, blocksValid⟩, rfl, rfl, rfl, rfl,
    rfl, rfl⟩

/-- Blocks of a preview do not start before its clock. -/
theorem preview_notPast
    (h : buildPreview zoneInfo request tasks preferences timezoneName now preferenceVersion
      searchBudget = .ok preview) : ∀ block ∈ preview.blocks, now ≤ block.start := by
  obtain ⟨p, state, hinit, -, inv, -, -, hblocks, -⟩ := buildPreview_ok h
  have grid := Planner.init_grid hinit
  obtain ⟨-, -, -, hnow, -⟩ := Planner.init_fields hinit
  intro block hb
  rw [hblocks] at hb
  obtain ⟨task, -, -, fits⟩ := inv.sound.placed block (mem_sortBy.mp hb)
  exact hnow ▸ ((Planner.fits_iff grid).mp fits).notPast

/-- The blocks of a preview are an acceptable layout of the window they were
planned for. -/
theorem preview_layoutOk
    (h : buildPreview zoneInfo request tasks preferences timezoneName now preferenceVersion
      searchBudget = .ok preview) :
    LayoutOk (zoneInfo timezoneName) request.toPlanningWindow preview.blocks tasks := by
  obtain ⟨p, state, hinit, -, inv, hstart, hstop, hblocks, -⟩ := buildPreview_ok h
  have grid := Planner.init_grid hinit
  obtain ⟨hrequest, -, -, -, htasks, hs, he⟩ := Planner.init_fields hinit
  obtain ⟨-, windowOk, snapshot⟩ := Planner.init_iff.mp ⟨p, hinit⟩
  have hfirst : request.horizonStart (zoneInfo timezoneName) = p.start := hs.symm
  have hlast : request.horizonStop (zoneInfo timezoneName) = p.stop := he.symm
  have perm : preview.blocks.Perm state.blocks := by
    rw [hblocks]
    exact sortBy_perm _ _
  have member : ∀ task, task ∈ tasks → task.status = .pending → task ∈ p.pending :=
    fun task ht hp => Planner.mem_pending.mpr ⟨htasks ▸ ht, hp⟩
  refine ⟨windowOk, ?_, snapshot, ?_, ?_, ?_, ?_, ?_⟩
  · rw [hfirst, hlast, ← hstart, ← hstop]
    exact preview.horizon.windowValid
  · rw [perm.length_eq]
    exact inv.count
  · intro block hb
    obtain ⟨task, ht, hid, -⟩ := inv.sound.placed block (perm.mem_iff.mp hb)
    obtain ⟨hmem, hp⟩ := Planner.mem_pending.mp ht
    exact ⟨task, htasks ▸ hmem, hp, hid.symm⟩
  · intro task ht hp
    exact (inv.share task (member task ht hp)).perm (blocksOf_perm perm.symm task.id)
  · intro task ht hp block hb
    obtain ⟨hmem, hid⟩ := mem_blocksOf.mp hb
    have fits := inv.sound.mem_fits grid (perm.mem_iff.mp hmem)
      (Planner.mem_pending.mp (member task ht hp)).1 hid.symm
    have allowed := (Planner.fits_iff grid).mp fits
    rw [hrequest] at allowed
    rw [hfirst, hlast]
    exact ⟨allowed.inside, allowed.inside.1, allowed.afterEarliest, allowed.beforeDeadline,
      allowed.available, allowed.apartEvents⟩
  · exact inv.sound.apart.perm perm.symm

/-- Sorting the events of a window changes nothing for the checker. -/
theorem LayoutOk.sortEvents {zone : Zone} {window sorted : PlanningWindow}
    {blocks : List PlanBlock} {tasks : List TaskRecord}
    (startDate : sorted.startDate = window.startDate)
    (days : sorted.days = window.days) (taskIds : sorted.taskIds = window.taskIds)
    (availability : sorted.availability = window.availability)
    (fixedEvents : sorted.fixedEvents = SmartPlanner.sortEvents window.fixedEvents)
    (layout : LayoutOk zone window blocks tasks) : LayoutOk zone sorted blocks tasks := by
  have hfirst : sorted.horizonStart zone = window.horizonStart zone := by
    rw [PlanningWindow.horizonStart, startDate, PlanningWindow.horizonStart]
  have hlast : sorted.horizonStop zone = window.horizonStop zone := by
    rw [PlanningWindow.horizonStop, startDate, days, PlanningWindow.horizonStop]
  refine ⟨⟨?_, ?_, ?_⟩, ?_, ?_, layout.count, layout.pending, layout.share, ?_, layout.apart⟩
  · unfold HorizonOk
    rw [startDate, days]
    exact layout.windowOk.horizon
  · rw [availability, hfirst, hlast]
    exact layout.windowOk.availability
  · rw [hfirst, hlast, fixedEvents]
    unfold EventsAccepted
    rw [SmartPlanner.sortEvents, SmartPlanner.sortEvents, sortBy_sortBy]
    exact layout.windowOk.events
  · rw [hfirst, hlast]
    exact layout.representable
  · rw [taskIds]
    exact layout.snapshot
  · intro task ht hp block hb
    have allowed := layout.allowed task ht hp block hb
    rw [hfirst, hlast]
    refine ⟨allowed.inside, allowed.notPast, allowed.afterEarliest, allowed.beforeDeadline,
      ?_, fun event hevent => ?_⟩
    · rw [availability]
      exact allowed.available
    · rw [fixedEvents] at hevent
      exact allowed.apartEvents event (mem_sortBy.mp hevent)

theorem SavesPreview.layoutOk {content : ScheduleContent}
    (h : buildPreview zoneInfo request tasks preferences timezoneName now preferenceVersion
      searchBudget = .ok preview) (saves : SavesPreview request preview content) :
    LayoutOk (zoneInfo timezoneName) content.toPlanningWindow content.blocks tasks := by
  obtain ⟨p, state, -, -, -, -, -, -, hevents, -⟩ := buildPreview_ok h
  rw [saves.blocks]
  exact (preview_layoutOk h).sortEvents saves.startDate saves.days saves.taskIds
    saves.availability (saves.fixedEvents.trans hevents)

/-- The checker lists the same shortfalls, in the same order. -/
theorem preview_report {content : ScheduleContent} {report : LayoutReport}
    (h : buildPreview zoneInfo request tasks preferences timezoneName now preferenceVersion
      searchBudget = .ok preview) (saves : SavesPreview request preview content)
    (inspected : inspectLayout zoneInfo content.toPlanningWindow content.blocks tasks
      preferences timezoneName = .ok report) :
    report.horizon = preview.horizon ∧ report.ignoredTaskIds = preview.ignoredTaskIds ∧
    report.missing.map (·.amount) = preview.unscheduled.map (·.amount) := by
  obtain ⟨p, state, hinit, -, inv, hstart, hstop, hblocks, -, hunscheduled, hignored, -⟩ :=
    buildPreview_ok h
  obtain ⟨-, -, -, -, htasks, hs, he⟩ := Planner.init_fields hinit
  obtain ⟨-, q, hqtasks, hqstop, hqs, hqe, hmissing, hqignored⟩ :=
    inspectLayout_report inspected
  have hlast : content.toPlanningWindow.horizonStop (zoneInfo timezoneName) = p.stop := by
    rw [he, PlanningWindow.horizonStop, saves.startDate, saves.days]
  have hordered : q.ordered = p.ordered :=
    Planner.ordered_congr (hqtasks.trans htasks.symm) (hqstop.trans hlast)
  refine ⟨?_, ?_, ?_⟩
  · rw [TimeWindow.mk.injEq]
    refine ⟨?_, ?_⟩
    · rw [hqs, hstart, hs, PlanningWindow.horizonStart, saves.startDate]
    · rw [hqe, hstop, hlast]
  · rw [hqignored, hignored]
    exact Planner.ignoredTaskIds_congr (hqtasks.trans htasks.symm)
  · rw [hmissing, hunscheduled, inv.accounted, hordered, saves.blocks, hblocks]
    exact List.filterMap_congr fun task _ => shortfall_perm (sortBy_perm _ _) task

/-- A preview whose events lie inside the horizon passes the first save. -/
theorem buildPreview_accepted
    (h : buildPreview zoneInfo request tasks preferences timezoneName now preferenceVersion
      searchBudget = .ok preview)
    (inside : ∀ event ∈ preview.fixedEvents,
      preview.horizon.start ≤ event.start ∧ event.stop ≤ preview.horizon.stop) :
    preview.blocks.length ≤ 512 ∧
    ∃ content, SavesPreview request preview content ∧
      (zoneInfo timezoneName).localDate now ≤ content.startDate ∧
      (∀ live, protectPlacements [] content.blocks live now = .ok ()) ∧
      ∃ report, inspectLayout zoneInfo content.toPlanningWindow content.blocks tasks
          preferences timezoneName = .ok report ∧
        report.horizon = preview.horizon ∧
        report.ignoredTaskIds = preview.ignoredTaskIds ∧
        report.missing.map (fun entry => (entry.taskId, entry.remainingMinutes)) =
          preview.unscheduled.map (fun entry => (entry.taskId, entry.remainingMinutes)) ∧
        ∀ event ∈ content.fixedEvents,
          report.horizon.start ≤ event.start ∧ event.stop ≤ report.horizon.stop := by
  obtain ⟨content, saves⟩ := savesPreview_exists h
  obtain ⟨report, inspected⟩ := inspectLayout_total preferences (saves.layoutOk h)
  obtain ⟨hhorizon, hignored, hmissing⟩ := preview_report h saves inspected
  obtain ⟨p, state, hinit, -⟩ := buildPreview_ok h
  refine ⟨?_, content, saves, ?_, ?_, report, inspected, hhorizon, hignored, hmissing, ?_⟩
  · rw [← saves.blocks]
    exact content.blocksValid.1
  · rw [saves.startDate]
    exact (Planner.init_iff.mp ⟨p, hinit⟩).1
  · intro live
    refine protectPlacements_ok.mpr ⟨by simp, fun block hb hlt => ?_⟩
    have hpast := preview_notPast h block (saves.blocks ▸ hb)
    omega
  · intro event hevent
    rw [hhorizon]
    exact inside event (saves.fixedEvents ▸ hevent)

theorem buildPreview_accepted_lecture :
    ∃ preview, buildPreview (fun _ => Zone.utc) lectureRequest [essay, reading]
        PreferenceValues.default "UTC" (lectureTime 480) 1 250000 = .ok preview ∧
      preview.blocks.length ≤ 512 ∧ ∃ content, SavesPreview lectureRequest preview content ∧
        ∃ report, inspectLayout (fun _ => Zone.utc) content.toPlanningWindow content.blocks
          [essay, reading] PreferenceValues.default "UTC" = .ok report := by
  have returned : okAnd (buildPreview (fun _ => Zone.utc) lectureRequest [essay, reading]
      PreferenceValues.default "UTC" (lectureTime 480) 1 250000) (fun preview =>
        preview.fixedEvents.all fun event => decide (preview.horizon.start ≤ event.start ∧
          event.stop ≤ preview.horizon.stop)) = true := by
    decide +kernel
  obtain ⟨preview, h, inside⟩ := exists_of_okAnd returned
  simp only [List.all_eq_true, decide_eq_true_eq] at inside
  obtain ⟨hcount, content, saves, -, -, report, inspected, -⟩ :=
    buildPreview_accepted h inside
  exact ⟨preview, h, hcount, content, saves, report, inspected⟩

end

end SmartPlanner

import SmartPlanner.FreshView
import SmartPlanner.PreviewAccepted

/-!
Re-planning a saved schedule at a clock and saving the result at the same clock.
The planner moves whatever has started, or refuses when it is locked; the save
path lets nothing that has started go. The two agree on schedules of which
nothing has started.
-/

namespace SmartPlanner

open Intervals Outcome Sorting Tables ScheduleRepository

/-- The preview request a client makes of a saved content. -/
def ScheduleContent.replan (content : ScheduleContent) : PreviewRequest :=
  ⟨content.toPlanningWindow, content.blocks, content.blocksValid⟩

/-- Every preview of the saved content at this clock may take its place at the
same clock. The replace names the same tasks. -/
def ReplanSaveable (zoneInfo : String → Zone) (store : Store) (owner : UUID)
    (saved : SavedSchedule) (tasks records : List TaskRecord) (preferences : PreferenceRecord)
    (t searchBudget : Int) : Prop :=
  ∀ preview, buildPreview zoneInfo saved.state.content.replan tasks
      preferences.toPreferenceValues saved.timezone t preferences.version searchBudget =
        .ok preview →
    protectPlacements saved.state.content.blocks preview.blocks
        (liveRows store owner saved.state.toCandidate (some saved.state.toCandidate)) t = .ok () ∧
      ∃ report, inspectLayout zoneInfo saved.state.content.toPlanningWindow preview.blocks records
        preferences.toPreferenceValues saved.timezone = .ok report

theorem SnapshotMatches.perm {taskIds : List UUID} {tasks records : List TaskRecord}
    (perm : tasks.Perm records) (h : SnapshotMatches taskIds tasks) :
    SnapshotMatches taskIds records := by
  obtain ⟨distinct, selected, all⟩ := h
  have ids := perm.map (·.id)
  exact ⟨ids.nodup_iff.mp distinct, fun task ht => selected task (perm.mem_iff.mpr ht),
    fun id hid => ids.mem_iff.mp (all id hid)⟩

section
variable {zone : Zone} {window : PlanningWindow} {blocks : List PlanBlock}
  {tasks records : List TaskRecord}

/-- The checker does not mind the order of the records. -/
theorem LayoutOk.perm (perm : tasks.Perm records) (layout : LayoutOk zone window blocks tasks) :
    LayoutOk zone window blocks records where
  windowOk := layout.windowOk
  representable := layout.representable
  snapshot := layout.snapshot.perm perm
  count := layout.count
  pending block hb := by
    obtain ⟨task, ht, h⟩ := layout.pending block hb
    exact ⟨task, perm.mem_iff.mp ht, h⟩
  share task ht := layout.share task (perm.mem_iff.mpr ht)
  allowed task ht := layout.allowed task (perm.mem_iff.mpr ht)
  apart := layout.apart

/-- The locks of an acceptable layout pass the lock phase as long as none of them
has started. -/
theorem LayoutOk.locksOk {p : Planner} (grid : p.Grid)
    (layout : LayoutOk zone window blocks p.tasks) (hwindow : p.request.toPlanningWindow = window)
    (hblocks : p.request.previousBlocks = blocks) (hstart : p.start = window.horizonStart zone)
    (hstop : p.stop = window.horizonStop zone)
    (future : ∀ block ∈ blocks, block.locked = true → p.now ≤ block.start) : p.LocksOk := by
  refine (Planner.locksOk_iff grid).mpr ⟨fun task ht => ?_, ?_⟩
  · obtain ⟨hmem, hp⟩ := Planner.mem_pending.mp ht
    rw [hblocks]
    refine ⟨(layout.share task hmem hp).sublist List.filter_sublist, fun block hb => ?_⟩
    obtain ⟨hown, hlocked⟩ := List.mem_filter.mp hb
    have allowed := layout.allowed task hmem hp block hown
    refine (Planner.fits_iff grid).mpr ?_
    rw [hstart, hstop, hwindow]
    exact { allowed with notPast := future block (mem_blocksOf.mp hown).1 hlocked }
  · rw [hblocks]
    exact layout.apart.sublist List.filter_sublist

end

/-- A saved layout of present records can be planned again unless a locked block
has started. -/
theorem replan_total {zoneInfo : String → Zone} {content : ScheduleContent}
    {tasks : List TaskRecord} (preferences : PreferenceValues) {timezoneName : String} {t : Int}
    (preferenceVersion : Nat) (searchBudget : Int)
    (layout : LayoutOk (zoneInfo timezoneName) content.toPlanningWindow content.blocks tasks)
    (notPast : (zoneInfo timezoneName).localDate t ≤ content.startDate)
    (future : ∀ block ∈ content.blocks, block.locked = true → t ≤ block.start) :
    ∃ preview, buildPreview zoneInfo content.replan tasks preferences timezoneName t
      preferenceVersion searchBudget = .ok preview := by
  obtain ⟨p, hinit⟩ : ∃ p, Planner.init content.replan tasks preferences (zoneInfo timezoneName)
      t = .ok p :=
    Planner.init_iff.mpr ⟨notPast, layout.windowOk, layout.snapshot⟩
  have grid := Planner.init_grid hinit
  obtain ⟨hrequest, -, -, hnow, htasks, hstart, hstop⟩ := Planner.init_fields hinit
  have locksOk : p.LocksOk := by
    refine LayoutOk.locksOk grid (htasks ▸ layout) ?_ ?_ hstart hstop (hnow ▸ future)
    · rw [hrequest, ScheduleContent.replan]
    · rw [hrequest, ScheduleContent.replan]
  refine buildPreview_total hinit locksOk ?_
  rw [hstart, hstop]
  exact layout.representable

/-- Among open tasks the save path keeps what has started, so it takes a preview
only when there is nothing to keep. -/
theorem replan_placements_iff {previous blocks : List PlanBlock} {live : List TaskRow} {t : Int}
    (opened : ∀ block ∈ previous, ∃ row, liveRow live block.taskId = some row ∧ OpenRow row)
    (later : ∀ block ∈ blocks, t ≤ block.start)
    (locksKept : ∀ block ∈ previous, block.locked = true → block ∈ blocks) :
    protectPlacements previous blocks live t = .ok () ↔ ∀ block ∈ previous, t ≤ block.start := by
  rw [protectPlacements_ok]
  constructor
  · rintro ⟨kept, -⟩ block hb
    by_contra hstarted
    obtain ⟨row, hrow, hopen⟩ := opened block hb
    have moved : blockKey block ∉ blocks.map blockKey := by
      intro hkey
      obtain ⟨other, hother, hsame⟩ := List.mem_map.mp hkey
      simp only [blockKey, Prod.mk.injEq] at hsame
      have hlater := later other hother
      omega
    exact hstarted (kept block hb row hrow hopen moved).2
  · intro future
    refine ⟨fun block hb row hrow hopen hmoved => ⟨?_, future block hb⟩, fun block hb hlt => ?_⟩
    · by_contra hlocked
      rw [Bool.not_eq_false] at hlocked
      exact hmoved (List.mem_map_of_mem (locksKept block hb hlocked))
    · have hlater := later block hb
      omega

/-- The blocks of a layout of present records belong to open tasks. -/
theorem opened_of_current {store : Store} {owner : UUID} {candidate : Candidate}
    {tasks : List TaskRecord} {values : PreferenceValues} {zone : Zone}
    (present : Current store owner candidate tasks values)
    (layout : LayoutOk zone candidate.content.toPlanningWindow candidate.content.blocks tasks) :
    ∀ block ∈ candidate.content.blocks, ∃ row,
      liveRow (liveRows store owner candidate (some candidate)) block.taskId = some row ∧
        OpenRow row := by
  intro block hb
  obtain ⟨task, ht, hpending, hid⟩ := layout.pending block hb
  obtain ⟨row, hrow, howner, hlive, hcolumns⟩ := present.records.stored task ht
  refine ⟨row, liveRow_liveRows.mpr ⟨hrow, howner, ?_, Or.inl ?_⟩, hlive, ?_⟩
  · rw [hcolumns, hid]
  · exact candidate.content.blocksValid.2 block hb
  · rw [hcolumns]
    exact hpending

/-- In every reachable store, a preview of a fresh saved schedule can be saved in
its place at the same clock exactly when a locked block has started, so that
there is no preview, or no block has started at all. -/
theorem replan_saveable_iff (zoneInfo : String → Zone) (commands : List Command)
    (owner scheduleId : UUID) (saved : SavedSchedule)
    (shown : view (reached zoneInfo commands) owner scheduleId = .ok saved)
    (fresh : saved.sources.stale = false) (records tasks : List TaskRecord)
    (preferences : PreferenceRecord)
    (read : saved.state.content.taskIds.mapM
      (Repository.getTask (reached zoneInfo commands) owner) = .ok records)
    (perm : tasks.Perm records) (t searchBudget : Int)
    (notPast : (zoneInfo saved.timezone).localDate t ≤ saved.state.content.startDate) :
    ReplanSaveable zoneInfo (reached zoneInfo commands) owner saved tasks records preferences t
        searchBudget ↔
      (∃ block ∈ saved.state.content.blocks, block.locked = true ∧ block.start < t) ∨
        ∀ block ∈ saved.state.content.blocks, t ≤ block.start := by
  have ok := storeOk_reached zoneInfo commands
  generalize reached zoneInfo commands = store at shown read ok ⊢
  obtain ⟨schedule, hs, -, rfl, current, hcurrent, hstate, -, -, htimezone, -, hsources⟩ :=
    view_ok shown
  rw [hsources, ← hstate] at fresh
  obtain ⟨found, values, present⟩ := current_of_fresh ok.sources.tasks fresh
  obtain ⟨hlookup, -⟩ := present.lookups ok.sources
  rw [hlookup] at read
  cases read
  have entry := (ok.schedules schedule hs).entries current hcurrent.1
  rw [hstate] at present
  obtain ⟨report, inspected, -⟩ := entry.derived _ _ present
  obtain ⟨layout, -⟩ := inspectLayout_report inspected
  have opened := opened_of_current present layout
  unfold ReplanSaveable
  rw [hstate, htimezone] at notPast ⊢
  have planned := layout.perm perm.symm
  have locksKept : ∀ preview, buildPreview zoneInfo current.state.content.replan tasks
      preferences.toPreferenceValues schedule.timezone t preferences.version searchBudget =
        .ok preview →
      ∀ block ∈ current.state.content.blocks, block.locked = true → block ∈ preview.blocks := by
    intro preview h block hb hlock
    obtain ⟨task, ht, hpending, hid⟩ := planned.pending block hb
    exact (buildPreview_sound h).locksKept block hb hlock ⟨task, ht, hid.symm, hpending⟩
  constructor
  · intro saveable
    by_cases hlocked : ∃ block ∈ current.state.content.blocks, block.locked = true ∧ block.start < t
    · exact Or.inl hlocked
    · right
      have future : ∀ block ∈ current.state.content.blocks, block.locked = true →
          t ≤ block.start := by
        simpa only [not_exists, not_and, not_lt] using hlocked
      obtain ⟨preview, h⟩ := replan_total preferences.toPreferenceValues preferences.version
        searchBudget planned notPast future
      exact (replan_placements_iff opened (preview_notPast h) (locksKept preview h)).mp
        (saveable preview h).1
  · intro condition preview h
    have later := preview_notPast h
    have future : ∀ block ∈ current.state.content.blocks, t ≤ block.start := by
      rcases condition with ⟨block, hb, hlock, hstarted⟩ | future
      · have hlater := later block (locksKept preview h block hb hlock)
        omega
      · exact future
    refine ⟨(replan_placements_iff opened later (locksKept preview h)).mpr future, ?_⟩
    exact inspectLayout_total _ ((preview_layoutOk h).perm perm)

theorem replan_saveable_essay :
    ∃ saved records preferences,
      view (reached (fun _ => Zone.utc) essayRun) 1 7 = .ok saved ∧
      saved.state.content.blocks ≠ [] ∧
      ReplanSaveable (fun _ => Zone.utc) (reached (fun _ => Zone.utc) essayRun) 1 saved records
        records preferences (lectureTime 480) maxCandidates := by
  have shown : okAnd (view (reached (fun _ => Zone.utc) essayRun) 1 7) (fun saved =>
      decide (saved.sources.stale = false ∧ saved.state.content.blocks ≠ [] ∧
        (Zone.utc.localDate (lectureTime 480)) ≤ saved.state.content.startDate ∧
        ∀ block ∈ saved.state.content.blocks, lectureTime 480 ≤ block.start) &&
      okAnd (saved.state.content.taskIds.mapM
        (Repository.getTask (reached (fun _ => Zone.utc) essayRun) 1)) fun _ => true) = true := by
    decide +kernel
  have preferred : okAnd (Repository.getPreferences (reached (fun _ => Zone.utc) essayRun) 1)
      (fun _ => true) = true := by
    decide +kernel
  obtain ⟨saved, h, hsaved⟩ := exists_of_okAnd shown
  obtain ⟨preferences, -, -⟩ := exists_of_okAnd preferred
  rw [Bool.and_eq_true, decide_eq_true_eq] at hsaved
  obtain ⟨⟨fresh, hblocks, notPast, future⟩, hread⟩ := hsaved
  obtain ⟨records, read, -⟩ := exists_of_okAnd hread
  exact ⟨saved, records, preferences, h, hblocks,
    (replan_saveable_iff (fun _ => Zone.utc) essayRun 1 7 saved h fresh records records preferences
      read (.refl _) (lectureTime 480) maxCandidates notPast).mpr (Or.inr future)⟩

/-- Ten minutes after the essay has started the planner drops it, and the save
refuses. -/
theorem replan_essay_started :
    ∃ saved records preferences preview,
      view (reached (fun _ => Zone.utc) essayRun) 1 7 = .ok saved ∧
      saved.sources.stale = false ∧
      saved.state.content.taskIds.mapM
        (Repository.getTask (reached (fun _ => Zone.utc) essayRun) 1) = .ok records ∧
      Repository.getPreferences (reached (fun _ => Zone.utc) essayRun) 1 = .ok preferences ∧
      Zone.utc.localDate (lectureTime 610) ≤ saved.state.content.startDate ∧
      buildPreview (fun _ => Zone.utc) saved.state.content.replan records
        preferences.toPreferenceValues saved.timezone (lectureTime 610) preferences.version
        maxCandidates = .ok preview ∧
      protectPlacements saved.state.content.blocks preview.blocks
        (liveRows (reached (fun _ => Zone.utc) essayRun) 1 saved.state.toCandidate
          (some saved.state.toCandidate)) (lectureTime 610) =
        .error (.app .startedBlockConflict) := by
  have replanned : okAnd (view (reached (fun _ => Zone.utc) essayRun) 1 7) (fun saved =>
      okAnd (saved.state.content.taskIds.mapM
        (Repository.getTask (reached (fun _ => Zone.utc) essayRun) 1)) fun records =>
      okAnd (Repository.getPreferences (reached (fun _ => Zone.utc) essayRun) 1) fun preferences =>
      okAnd (buildPreview (fun _ => Zone.utc) saved.state.content.replan records
        preferences.toPreferenceValues saved.timezone (lectureTime 610) preferences.version
        maxCandidates) fun preview =>
      decide (saved.sources.stale = false ∧
        Zone.utc.localDate (lectureTime 610) ≤ saved.state.content.startDate ∧
        protectPlacements saved.state.content.blocks preview.blocks
          (liveRows (reached (fun _ => Zone.utc) essayRun) 1 saved.state.toCandidate
            (some saved.state.toCandidate)) (lectureTime 610) =
          .error (.app .startedBlockConflict))) = true := by
    decide +kernel
  obtain ⟨saved, shown, h⟩ := exists_of_okAnd replanned
  obtain ⟨records, read, h⟩ := exists_of_okAnd h
  obtain ⟨preferences, preferred, h⟩ := exists_of_okAnd h
  obtain ⟨preview, planned, h⟩ := exists_of_okAnd h
  obtain ⟨fresh, notPast, refused⟩ := of_decide_eq_true h
  exact ⟨saved, records, preferences, preview, shown, fresh, read, preferred, notPast, planned,
    refused⟩

end SmartPlanner

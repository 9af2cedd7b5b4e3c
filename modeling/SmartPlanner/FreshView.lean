import SmartPlanner.StoreReached

/-!
A fresh view can be trusted: what it shows is what the checker answers for the
records the client reads at the same moment.
-/

namespace SmartPlanner

open Outcome Tables ScheduleRepository

theorem Repository.getTask_ok {store : Store} {owner taskId : UUID} {task : TaskRecord} :
    Repository.getTask store owner taskId = .ok task ↔
      ∃ row ∈ store.tasks, row.id = taskId ∧ row.userId = owner ∧ row.deletedAt = none ∧
        row.toTaskColumns = task.toTaskColumns := by
  unfold Repository.getTask
  cases hfind : store.tasks.rows.find? fun row => decide (row.id = taskId) &&
      decide (row.userId = owner) && decide (row.deletedAt = none) with
  | none =>
      rw [List.find?_eq_none] at hfind
      simp only [reduceCtorEq, false_iff]
      rintro ⟨row, hrow, hid, howner, hlive, -⟩
      exact hfind row hrow (by simp [hid, howner, hlive])
  | some row =>
      have hguard := List.find?_some hfind
      simp only [Bool.and_eq_true, decide_eq_true_eq] at hguard
      simp only [TaskRecord.modelValidate_ok]
      constructor
      · exact fun h => ⟨row, List.mem_of_find?_eq_some hfind, hguard.1.1, hguard.1.2, hguard.2,
          h.symm⟩
      · rintro ⟨other, hother, hid, -, -, hcolumns⟩
        have hsame := store.tasks.eq_of_key (List.mem_of_find?_eq_some hfind) hother
          (hguard.1.1.trans hid.symm)
        rw [hsame, hcolumns]

theorem Repository.getPreferences_ok {store : Store} {owner : UUID} {row : PreferenceRow}
    (hrow : row ∈ store.preferences) (howner : row.userId = owner)
    (valid : VersionValid row.version) :
    ∃ record, Repository.getPreferences store owner = .ok record ∧
      record.toPreferenceValues = row.values := by
  unfold Repository.getPreferences
  rw [Table.find?_eq_some.mpr ⟨hrow, howner⟩]
  exact ⟨⟨row.values, row.userId, row.version, row.updatedAt, valid⟩,
    PreferenceRecord.modelValidate_ok.mpr ⟨rfl, rfl, rfl, rfl⟩, rfl⟩

/-- The records of a current candidate are the ones the client reads. -/
theorem Current.lookups {store : Store} {owner : UUID} {candidate : Candidate}
    {tasks : List TaskRecord} {values : PreferenceValues} (valid : SourcesValid store)
    (current : Current store owner candidate tasks values) :
    candidate.content.taskIds.mapM (Repository.getTask store owner) = .ok tasks ∧
    ∃ record, Repository.getPreferences store owner = .ok record ∧
      record.toPreferenceValues = values := by
  refine ⟨?_, ?_⟩
  · have inverse : ∀ id task, Repository.getTask store owner id = .ok task → task.id = id := by
      intro id task h
      obtain ⟨row, -, hid, -, -, hcolumns⟩ := Repository.getTask_ok.mp h
      rw [← hcolumns, hid]
    refine (mapM_ok_of_inverse inverse).mpr ⟨current.records.ids_eq, fun task ht => ?_⟩
    obtain ⟨row, hrow, howner, hlive, hcolumns⟩ := current.records.stored task ht
    exact Repository.getTask_ok.mpr ⟨row, hrow, by rw [hcolumns], howner, hlive, hcolumns⟩
  · obtain ⟨row, hrow, howner, -, rfl⟩ := current.preferences
    exact Repository.getPreferences_ok hrow howner (valid.preferences row hrow)

theorem view_ok {store : Store} {owner scheduleId : UUID} {saved : SavedSchedule}
    (h : view store owner scheduleId = .ok saved) :
    ∃ schedule ∈ store.schedules, schedule.id = scheduleId ∧ schedule.userId = owner ∧
      ∃ current, CurrentRow store schedule current ∧ saved.state = current.state ∧
        saved.version = schedule.version ∧
        saved.historyRevision = schedule.currentRevision ∧
        saved.timezone = schedule.timezone ∧ saved.horizon = schedule.horizon ∧
        saved.sources = sourceStatus store owner current.state := by
  unfold view at h
  simp only [bind_ok, pure_eq_ok, Except.ok.injEq] at h
  obtain ⟨found, hheader, rfl⟩ := h
  obtain ⟨current, hs, rfl, rfl, hcurrent, hrevision, hstate, -⟩ := header_ok.mp hheader
  exact ⟨found.schedule, hs, rfl, rfl, current, ⟨hcurrent, hrevision⟩, hstate, rfl, rfl, rfl,
    rfl, by rw [← hstate]⟩

/-- In every reachable store the checker accepts the layout of a fresh view and
answers what the view shows, whichever command made it current. -/
theorem fresh_view_inspected (zoneInfo : String → Zone) (commands : List Command)
    (owner scheduleId : UUID) (saved : SavedSchedule)
    (shown : view (reached zoneInfo commands) owner scheduleId = .ok saved)
    (fresh : saved.sources.stale = false) :
    ∃ tasks preferences,
      saved.state.content.taskIds.mapM
        (Repository.getTask (reached zoneInfo commands) owner) = .ok tasks ∧
      Repository.getPreferences (reached zoneInfo commands) owner = .ok preferences ∧
      inspectLayout zoneInfo saved.state.content.toPlanningWindow saved.state.content.blocks tasks
          preferences.toPreferenceValues saved.timezone =
        .ok ⟨saved.horizon, saved.state.unscheduled, saved.state.ignoredTaskIds,
          saved.state.warnings⟩ ∧
      saved.state.taskTitles = tasks.map fun task => (task.id, task.title) := by
  have ok := storeOk_reached zoneInfo commands
  generalize reached zoneInfo commands = store at shown ok ⊢
  obtain ⟨schedule, hs, rfl, rfl, current, hcurrent, hstate, -, -, htimezone, hhorizon,
    hsources⟩ :=
    view_ok shown
  rw [hsources] at fresh
  obtain ⟨tasks, values, records⟩ := current_of_fresh ok.sources.tasks fresh
  obtain ⟨hlookup, record, hrecord, rfl⟩ := records.lookups ok.sources
  obtain ⟨report, inspected, hreport, hsaved⟩ :=
    ((ok.schedules schedule hs).entries current hcurrent.1).derived tasks _ records
  refine ⟨tasks, record, ?_, hrecord, ?_, ?_⟩
  · rw [hstate]
    exact hlookup
  · rw [hstate, htimezone, hhorizon, inspected, hsaved, ← hreport]
    rfl
  · rw [hstate, hsaved]
    rfl

theorem fresh_view_inspected_essay :
    ∃ saved, view (reached (fun _ => Zone.utc) essayRun) 1 7 = .ok saved ∧
      saved.sources.stale = false ∧ saved.version = 2 ∧
      ∃ tasks preferences,
        inspectLayout (fun _ => Zone.utc) saved.state.content.toPlanningWindow
            saved.state.content.blocks tasks preferences saved.timezone =
          .ok ⟨saved.horizon, saved.state.unscheduled, saved.state.ignoredTaskIds,
            saved.state.warnings⟩ := by
  have shown : okAnd (view (reached (fun _ => Zone.utc) essayRun) 1 7) (fun saved =>
      decide (saved.sources.stale = false) && decide (saved.version = 2)) = true := by
    decide +kernel
  obtain ⟨saved, h, hfresh⟩ := exists_of_okAnd shown
  simp only [Bool.and_eq_true, decide_eq_true_eq] at hfresh
  obtain ⟨tasks, preferences, -, -, inspected, -⟩ :=
    fresh_view_inspected (fun _ => Zone.utc) essayRun 1 7 saved h hfresh.1
  exact ⟨saved, h, hfresh.1, hfresh.2, tasks, preferences.toPreferenceValues, inspected⟩

end SmartPlanner

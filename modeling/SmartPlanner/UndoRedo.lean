import SmartPlanner.FreshView
import SmartPlanner.HistoryRefinement
import SmartPlanner.ScheduleAccepts

/-!
Undo then redo is the identity on a fresh schedule. The redo is validated again;
it passes because the version it returns to was accepted for the same records,
and because the version it leaves was once replaced by it.
-/

namespace SmartPlanner

open Histories Outcome Tables ScheduleRepository

section
variable {zoneInfo : String → Zone} {store store' : Store} {schedule : ScheduleRow}
  {current goal : VersionRow} {now : Int}

/-- The placements of the version an undo left may be taken up again. -/
theorem placements_back {tasks goalTasks : List TaskRecord} {values goalValues : PreferenceValues}
    {report : LayoutReport} (entry : EntryOk zoneInfo store schedule current)
    (joined : Joined store schedule.userId goal current)
    (back : Current store schedule.userId current.state.toCandidate tasks values)
    (undone : Validated zoneInfo store schedule.userId goal.state.toCandidate schedule.timezone
      (some current.state.toCandidate) now goalTasks goalValues report) :
    PlacementsKept goal.state.content.blocks current.state.content.blocks
      (liveRows store schedule.userId current.state.toCandidate (some goal.state.toCandidate))
      now := by
  refine ⟨fun block hb row hrow hopen hdropped => ⟨?_, ?_⟩, fun block hb hlt => ?_⟩
  · -- a dropped lock belongs to a task that has changed since, yet the undo found it unchanged
    obtain ⟨hmem, howner, hid, -⟩ := liveRow_liveRows.mp hrow
    cases hlocked : block.locked with
    | false => rfl
    | true =>
        have hselected := goal.state.content.blocksValid.2 block hb
        rw [← undone.current.records.ids_eq] at hselected
        obtain ⟨task, ht, htid⟩ := List.mem_map.mp hselected
        obtain ⟨other, hother, -, -, hcolumns⟩ := undone.current.records.stored task ht
        have hsame : row = other := store.tasks.eq_of_key hmem hother (by rw [hid, hcolumns, htid])
        refine absurd ?_ (joined block hb hlocked hdropped row hmem howner hid hopen)
        have hnamed := undone.current.versions task ht
        rw [hsame, hcolumns]
        exact hnamed
  · by_contra hlt
    exact hdropped (undone.placements.notBackdated block hb (not_le.mp hlt))
  · by_contra hdropped
    obtain ⟨report', inspected, -⟩ := entry.derived tasks values back
    obtain ⟨layout, -⟩ := inspectLayout_report inspected
    obtain ⟨task, ht, hpending, hid⟩ := layout.pending block hb
    obtain ⟨row, hrow, howner, hlive, hcolumns⟩ := back.records.stored task ht
    have hopen : OpenRow row := ⟨hlive, by rw [hcolumns]; exact hpending⟩
    have hselected := current.state.content.blocksValid.2 block hb
    have hfound : liveRow (liveRows store schedule.userId goal.state.toCandidate
        (some current.state.toCandidate)) block.taskId = some row :=
      liveRow_liveRows.mpr ⟨hrow, howner, by rw [hcolumns, hid],
        Or.inr ⟨current.state.toCandidate, rfl, hselected⟩⟩
    have hkept := undone.placements.kept block hb row hfound hopen hdropped
    omega

theorem Current.congr {owner : UUID} {candidate : Candidate} {tasks : List TaskRecord}
    {values : PreferenceValues} (current : Current store owner candidate tasks values)
    (htasks : store'.tasks = store.tasks) (hpreferences : store'.preferences = store.preferences) :
    Current store' owner candidate tasks values := by
  refine ⟨⟨current.records.ids_eq, ?_⟩, current.versions, ?_⟩
  · rw [htasks]
    exact current.records.stored
  · rw [hpreferences]
    exact current.preferences

/-- After a commit that left the versions alone, the tasks of any stored version
that was in force are free for its schedule. -/
theorem tasksFree_back {candidate : Candidate} {receipt : CommandRow} {moved : ScheduleRow}
    (ok : StoreOk zoneInfo store) (hs : schedule ∈ store.schedules)
    (hcurrent : CurrentRow store schedule current)
    (commit : Commit store store' moved candidate receipt) (hid : moved.id = schedule.id) :
    TasksFree store' schedule.userId schedule.id current.state.toCandidate := by
  intro row hrow hrowner hblock
  rcases (commit.allocations row).mp hrow with ⟨hold, -⟩ | ⟨-, hsame, -⟩
  · have hmine := (ok.allocated schedule hs current hcurrent row.taskId).mpr hblock
    rw [store.allocations.eq_of_key hold hmine (by rw [hrowner])]
  · rw [hsame, hid]

/-- The version an undo left is valid again, at the same instant. -/
theorem Travelled.validated_back {owner scheduleId : UUID} {stamp : Int} {data : HistoryCommand}
    {result : ScheduleResult} {tasks goalTasks : List TaskRecord}
    {values goalValues : PreferenceValues} {report : LayoutReport}
    (ok : StoreOk zoneInfo store)
    (back : Current store schedule.userId current.state.toCandidate tasks values)
    (undone : Travelled zoneInfo store owner scheduleId now stamp data .undo result store' schedule
      current goal goalTasks goalValues report) :
    ∃ report', Validated zoneInfo store' schedule.userId current.state.toCandidate
      schedule.timezone (some goal.state.toCandidate) now tasks values report' := by
  have addressed := undone.addressed
  have hid := addressed.schedule_id
  have howner := addressed.schedule_user
  subst hid howner
  have hcurrent := addressed.currentRow
  have scheduleOk := ok.schedules schedule addressed.schedule_mem
  have entry := scheduleOk.entries current hcurrent.1
  obtain ⟨report', inspected, hhorizon, -⟩ := entry.derived tasks values back
  have shows := shows_cursorAt hcurrent
  have neighbour := undone.neighbour
  rw [shows.target_eq, Option.map_eq_some_iff] at neighbour
  obtain ⟨z', hmove, hgoal⟩ := neighbour
  have joined : Joined store schedule.userId goal current := by
    rw [← hgoal]
    exact Zipper.rel_of_undo hmove (shows.rows ▸ scheduleOk.joined)
  have placements := placements_back entry joined back undone.valid
  have live : liveRows store' schedule.userId current.state.toCandidate
      (some goal.state.toCandidate) = liveRows store schedule.userId current.state.toCandidate
      (some goal.state.toCandidate) := by
    unfold liveRows
    rw [undone.commit.tasks]
  refine ⟨report', back.congr undone.commit.tasks undone.commit.preferences, nofun, ?_,
    live ▸ placements, inspected, ?_⟩
  · intro old hold
    rw [← Option.mem_some.mp hold]
    exact scheduleOk.sameDates current hcurrent.1 goal (target_mem undone.neighbour)
  · intro event hevent
    rw [hhorizon, entry.horizonStart, entry.horizonStop]
    refine entry.sound.inside event.toTimeWindow ?_
    exact List.mem_append_right _ (List.mem_map_of_mem hevent)

/-- After an undo the version it left is the neighbour to redo. -/
theorem Travelled.target_back {owner scheduleId : UUID} {stamp : Int} {data : HistoryCommand}
    {result : ScheduleResult} {tasks : List TaskRecord} {values : PreferenceValues}
    {report : LayoutReport}
    (undone : Travelled zoneInfo store owner scheduleId now stamp data .undo result store' schedule
      current goal tasks values report) :
    target store' schedule.id goal.revision .redo = some current := by
  have hid := undone.addressed.schedule_id
  subst hid
  have shows := shows_cursorAt undone.addressed.currentRow
  have neighbour := undone.neighbour
  rw [shows.target_eq, Option.map_eq_some_iff] at neighbour
  obtain ⟨z', hmove, rfl⟩ := neighbour
  have shows' : Shows store' (schedule.moved (data.expectedVersion + 1) z'.current.revision stamp)
      z' := by
    refine ⟨?_, rfl⟩
    rw [Zipper.undo_toList hmove, ← shows.rows]
    exact historyRows_congr undone.versions schedule.id
  have redo : z'.redo = some _ := Zipper.redo_of_undo hmove
  have h := shows'.target_eq .redo
  simp only [Direction.move, redo] at h
  exact h

/-- What an undo leaves for the redo that follows it. -/
theorem Travelled.addressed_back {owner scheduleId : UUID} {stamp : Int}
    {data data' : HistoryCommand} {result : ScheduleResult} {tasks : List TaskRecord}
    {values : PreferenceValues} {report : LayoutReport}
    (undone : Travelled zoneInfo store owner scheduleId now stamp data .undo result store' schedule
      current goal tasks values report)
    (newRequest : store'.commands.find? (owner, data'.clientRequestId) = none)
    (version : data'.expectedVersion = result.appliedVersion)
    (below : result.appliedVersion < versionLimit) :
    Addressed store' owner scheduleId data'.clientRequestId data'.expectedVersion
      (schedule.moved (data.expectedVersion + 1) goal.revision stamp) goal := by
  have addressed := undone.addressed
  have applied := undone.answer.2.1
  have hid := addressed.schedule_id
  subst hid
  refine ⟨undone.commit.users ▸ addressed.account, (undone.commit.schedules _).mpr (Or.inr rfl),
    rfl, addressed.schedule_user, ?_, rfl, newRequest, ?_, version ▸ below⟩
  · rw [historyRows_congr undone.versions]
    exact target_mem undone.neighbour
  · rw [version, applied]
    rfl

/-- Undo and redo leave the allocations as they were. -/
theorem allocations_back {forward : Candidate} {receipt receipt' : CommandRow}
    {moved moved' : ScheduleRow} {store'' : Store} (ok : StoreOk zoneInfo store)
    (hs : schedule ∈ store.schedules) (hcurrent : CurrentRow store schedule current)
    (undone : Commit store store' moved forward receipt)
    (redone : Commit store' store'' moved' current.state.toCandidate receipt')
    (hid : moved.id = schedule.id) (howner : moved.userId = schedule.userId)
    (hid' : moved'.id = schedule.id) (howner' : moved'.userId = schedule.userId)
    (row : AllocationRow) : row ∈ store''.allocations ↔ row ∈ store.allocations := by
  rw [redone.allocations, undone.allocations, hid, howner, hid', howner']
  have mine := ok.allocated schedule hs current hcurrent row.taskId
  by_cases hrow : row.userId = schedule.userId ∧ row.scheduleId = schedule.id
  · obtain ⟨h₁, h₂⟩ := hrow
    rw [← h₁, ← h₂] at mine ⊢
    simpa using mine.symm
  · simp only [hrow, not_false_eq_true, and_true]
    constructor
    · rintro ((h | h) | h)
      · exact h
      · exact absurd ⟨h.1, h.2.1⟩ hrow
      · exact absurd ⟨h.1, h.2.1⟩ hrow
    · exact fun h => Or.inl (Or.inl h)

end

/-- In every reachable store, an undo of a fresh schedule that is followed at the
same instant by a redo with a new request and the new version comes back to the
same revision, history, layout and allocations. -/
theorem redo_after_undo (zoneInfo : String → Zone) (commands : List Command)
    (owner scheduleId : UUID) (saved : SavedSchedule) (data data' : HistoryCommand)
    (now stamp stamp' : Int) (result : ScheduleResult) (store' : Store)
    (shown : view (reached zoneInfo commands) owner scheduleId = .ok saved)
    (fresh : saved.sources.stale = false)
    (undone : travel zoneInfo (reached zoneInfo commands) owner scheduleId data .undo now stamp =
      .ok (result, store'))
    (committed : result.replayed = false)
    (newRequest : store'.commands.find? (owner, data'.clientRequestId) = none)
    (version : data'.expectedVersion = result.appliedVersion)
    (below : result.appliedVersion < versionLimit) :
    ∃ result' store'', travel zoneInfo store' owner scheduleId data' .redo now stamp' =
        .ok (result', store'') ∧ result'.replayed = false ∧
      result'.schedule.historyRevision = saved.historyRevision ∧
      result'.schedule.state = saved.state ∧ result'.schedule.version = saved.version + 2 ∧
      store''.versions = (reached zoneInfo commands).versions ∧
      ∀ row, row ∈ store''.allocations ↔ row ∈ (reached zoneInfo commands).allocations := by
  have ok := storeOk_reached zoneInfo commands
  generalize reached zoneInfo commands = store at shown undone ok ⊢
  obtain ⟨schedule, hs, rfl, rfl, current, hcurrent, hstate, hversion, hrevision, -, -, hsources⟩ :=
    view_ok shown
  rw [hsources] at fresh
  obtain ⟨tasks, values, back⟩ := current_of_fresh ok.sources.tasks fresh
  rcases travel_ok undone with ⟨hreplayed, -⟩ | ⟨found, current', goal, goalTasks, goalValues,
    report, first⟩
  · rw [committed] at hreplayed
    contradiction
  have hfound := store.schedules.eq_of_key first.addressed.schedule_mem hs
    first.addressed.schedule_id
  subst hfound
  have hsame := first.addressed.currentRow.unique hcurrent
  subst hsame
  obtain ⟨report', valid⟩ := first.validated_back ok back
  have addressed := first.addressed_back newRequest version below
  have free := tasksFree_back ok hs hcurrent first.commit rfl
  have present : current' ∈ historyRows store' found.id := by
    rw [historyRows_congr first.versions]
    exact hcurrent.1
  obtain ⟨result', store'', redone, hnew⟩ :=
    travel_total stamp' addressed first.target_back present valid free
  refine ⟨result', store'', redone, hnew, ?_⟩
  rcases travel_ok redone with ⟨hreplayed, -⟩ | ⟨found', goal', current'', tasks', values',
    report'', second⟩
  · rw [hnew] at hreplayed
    contradiction
  have hmoved := store'.schedules.eq_of_key second.addressed.schedule_mem addressed.schedule_mem
    second.addressed.schedule_id
  subst hmoved
  have hback : current'' = current' :=
    Option.some.inj (second.neighbour.symm.trans first.target_back)
  subst hback
  obtain ⟨shown', hs', hid', -, final, hfinal, hstate', hversion', hrevision', -⟩ :=
    view_ok second.answer.2.2
  have hrow := store''.schedules.eq_of_key hs' ((second.commit.schedules _).mpr (Or.inr rfl)) hid'
  subst hrow
  have hsettled : final = current'' :=
    hfinal.unique (b := current'')
      ⟨(historyRows_congr second.versions found.id).symm ▸ present, rfl⟩
  refine ⟨?_, ?_, ?_, second.versions.trans first.versions,
    allocations_back ok hs hcurrent first.commit second.commit rfl rfl rfl rfl⟩
  · rw [hrevision', hrevision, ← hcurrent.2]
    rfl
  · rw [hstate', hstate, hsettled]
  · rw [hversion', hversion, first.addressed.version_eq]
    change data'.expectedVersion + 1 = _
    rw [version, first.answer.2.1]

theorem redo_after_undo_essay :
    ∃ saved result store', view (reached (fun _ => Zone.utc) essayRun) 1 7 = .ok saved ∧
      travel (fun _ => Zone.utc) (reached (fun _ => Zone.utc) essayRun) 1 7
        ⟨12, 2, by decide⟩ .undo (lectureTime 480) 0 = .ok (result, store') ∧
      ∃ result' store'', travel (fun _ => Zone.utc) store' 1 7 ⟨13, 3, by decide⟩ .redo
          (lectureTime 480) 0 = .ok (result', store'') ∧
        result'.schedule.state = saved.state ∧ result'.schedule.version = saved.version + 2 := by
  have shown : okAnd (view (reached (fun _ => Zone.utc) essayRun) 1 7)
      (fun saved => !saved.sources.stale) = true := by
    decide +kernel
  have undone : okAnd (travel (fun _ => Zone.utc) (reached (fun _ => Zone.utc) essayRun) 1 7
      ⟨12, 2, by decide⟩ .undo (lectureTime 480) 0) (fun answer =>
        !answer.1.replayed && decide (answer.2.commands.find? (1, 13) = none) &&
          decide (answer.1.appliedVersion = 3)) = true := by
    decide +kernel
  obtain ⟨saved, hview, fresh⟩ := exists_of_okAnd shown
  obtain ⟨⟨result, store'⟩, htravel, htrue⟩ := exists_of_okAnd undone
  simp only [Bool.and_eq_true, Bool.not_eq_true', decide_eq_true_eq] at fresh htrue
  obtain ⟨⟨committed, newRequest⟩, happlied⟩ := htrue
  obtain ⟨result', store'', hredo, -, -, hstate, hversion, -⟩ :=
    redo_after_undo (fun _ => Zone.utc) essayRun 1 7 saved ⟨12, 2, by decide⟩ ⟨13, 3, by decide⟩
      (lectureTime 480) 0 0 result store' hview fresh htravel committed newRequest happlied.symm
      (by rw [happlied]; decide)
  exact ⟨saved, result, store', hview, htravel, result', store'', hredo, hstate, hversion⟩

end SmartPlanner

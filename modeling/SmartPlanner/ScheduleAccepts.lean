import SmartPlanner.ScheduleCommits

/-!
When a schedule command is accepted: an addressed schedule, a valid layout and
tasks that no other schedule holds are enough. The converses of `replace_ok` and
`travel_ok`.
-/

namespace SmartPlanner

open Outcome Sorting Tables Histories ScheduleRepository

section
variable {zoneInfo : String → Zone} {store : Store} {owner scheduleId : UUID}
  {now : Int} {schedule : ScheduleRow} {current : VersionRow}

/-- The checks an addressed schedule passes before its layout is looked at. -/
theorem Addressed.checks {requestId : UUID} {expectedVersion : Nat} (digest : CommandDigest)
    (addressed : Addressed store owner scheduleId requestId expectedVersion schedule current) :
    ∃ zone found, ownerLock store owner = .ok zone ∧ header store owner scheduleId = .ok found ∧
      found.schedule = schedule ∧ found.state = current.state ∧
      replay store owner requestId digest = .ok none ∧
      nextVersion found expectedVersion = .ok (expectedVersion + 1) := by
  obtain ⟨user, huser, hid⟩ := addressed.account
  have hsid := addressed.schedule_id
  have howner := addressed.schedule_user
  subst hsid howner
  obtain ⟨found, hfound, hschedule, hstate⟩ :=
    header_total addressed.schedule_mem addressed.current_mem addressed.current_revision
  refine ⟨user.timezone, found, ownerLock_ok.mpr ⟨user, huser, hid, rfl⟩, hfound, hschedule,
    hstate, replay_none.mpr addressed.unanswered, nextVersion_ok.mpr ⟨?_, addressed.version_lt,
      rfl⟩⟩
  rw [hschedule]
  exact addressed.version_eq

/-- After the cursor has moved to a version that is stored, the schedule can be
read. -/
theorem header_moved {moved : Store} (version : Nat) (stamp : Int) {goal : VersionRow}
    (hs : schedule ∈ store.schedules) (goal_mem : goal ∈ historyRows moved schedule.id)
    (hmoved : moved.schedules =
      (moveCursor store schedule.userId schedule.id version goal.revision stamp).schedules) :
    ∃ found, header moved schedule.userId schedule.id = .ok found := by
  have present : schedule.moved version goal.revision stamp ∈ moved.schedules := by
    rw [hmoved]
    exact (mem_moveCursor hs _).mpr (Or.inr rfl)
  obtain ⟨found, hfound, -⟩ := header_total present goal_mem rfl
  exact ⟨found, hfound⟩

/-- No other schedule of the owner holds a task of this layout. -/
def TasksFree (store : Store) (owner scheduleId : UUID) (state : Candidate) : Prop :=
  ∀ row ∈ store.allocations, row.userId = owner →
    (∃ block ∈ state.content.blocks, block.taskId = row.taskId) → row.scheduleId = scheduleId

theorem travel_total (stamp : Int) {data : HistoryCommand} {direction : Direction}
    {goal : VersionRow} {tasks : List TaskRecord} {values : PreferenceValues}
    {report : LayoutReport}
    (addressed : Addressed store owner scheduleId data.clientRequestId data.expectedVersion
      schedule current)
    (neighbour : target store scheduleId schedule.currentRevision direction = some goal)
    (goal_mem : goal ∈ historyRows store scheduleId)
    (valid : Validated zoneInfo store owner goal.state.toCandidate schedule.timezone
      (some current.state.toCandidate) now tasks values report)
    (free : TasksFree store owner scheduleId goal.state.toCandidate) :
    ∃ result store', travel zoneInfo store owner scheduleId data direction now stamp =
      .ok (result, store') ∧ result.replayed = false := by
  obtain ⟨zone, found, hlock, hheader, hschedule, hstate, hreplay, hversion⟩ :=
    addressed.checks (.travel direction scheduleId data)
  obtain ⟨allocated, halloc⟩ := allocations_total free
  obtain ⟨-, -, hallocated⟩ := allocations_ok halloc
  have hid := addressed.schedule_id
  have howner := addressed.schedule_user
  subst hid howner
  obtain ⟨found', hpresent⟩ : ∃ found', header (moveCursor allocated schedule.userId schedule.id
      (data.expectedVersion + 1) goal.revision stamp) schedule.userId schedule.id =
        .ok found' := by
    have hmem : goal ∈ historyRows (moveCursor allocated schedule.userId schedule.id
        (data.expectedVersion + 1) goal.revision stamp) schedule.id := by
      rw [hallocated]
      exact goal_mem
    refine header_moved (data.expectedVersion + 1) stamp addressed.schedule_mem hmem ?_
    rw [hallocated]
    rfl
  have fresh : (moveCursor allocated schedule.userId schedule.id (data.expectedVersion + 1)
      goal.revision stamp).commands.find? (schedule.userId, data.clientRequestId) = none := by
    rw [hallocated]
    exact addressed.unanswered
  obtain ⟨result, store', hfinish⟩ := finish_total (.travel direction schedule.id data)
    (data.expectedVersion + 1) fresh hpresent
  refine ⟨result, store', ?_, (finish_ok hfinish).2.2.2.1⟩
  unfold travel
  rw [hlock, ok_bind, hheader, ok_bind, hreplay, ok_bind]
  simp only
  rw [hversion, ok_bind, hschedule, neighbour, hstate]
  simp only
  rw [validate_ok.mpr ⟨tasks, values, report, valid, rfl, rfl⟩, ok_bind, halloc, ok_bind]
  exact hfinish

theorem replace_total (stamp : Int) {data : ScheduleReplace} {tasks : List TaskRecord}
    {values : PreferenceValues} {report : LayoutReport}
    (addressed : Addressed store owner scheduleId data.clientRequestId data.expectedVersion
      schedule current)
    (bounded : ∀ row ∈ historyRows store scheduleId, row.revision ≤ schedule.version)
    (valid : Validated zoneInfo store owner data.toCandidate schedule.timezone
      (some current.state.toCandidate) now tasks values report)
    (free : TasksFree store owner scheduleId data.toCandidate) :
    ∃ result store', replace zoneInfo store owner scheduleId data now stamp =
      .ok (result, store') ∧ result.replayed = false := by
  obtain ⟨zone, found, hlock, hheader, hschedule, hstate, hreplay, hversion⟩ :=
    addressed.checks (.replace scheduleId data)
  obtain ⟨allocated, halloc⟩ := allocations_total free
  obtain ⟨-, -, hallocated⟩ := allocations_ok halloc
  have hid := addressed.schedule_id
  have howner := addressed.schedule_user
  subst hid howner
  rw [addressed.version_eq] at bounded
  obtain ⟨inserted, hinsert⟩ : ∃ inserted, insertState (deleteVersions allocated schedule.id
      fun row => schedule.currentRevision < row.revision) schedule.userId schedule.id
        (data.expectedVersion + 1) (savedState data.toCandidate tasks report) stamp =
          .ok inserted := by
    refine insertState_total fun row hrow hsame => ?_
    obtain ⟨hmem, -⟩ := Table.mem_delete.mp hrow
    rw [hallocated] at hmem
    have hle := bounded row (mem_historyRows.mpr ⟨hmem, hsame.1⟩)
    omega
  obtain ⟨hversions, -, hinserted⟩ := insertState_ok hinsert
  obtain ⟨moved, hmoved⟩ : ∃ moved, moved = moveCursor inserted schedule.userId schedule.id
    (data.expectedVersion + 1) (data.expectedVersion + 1) stamp := ⟨_, rfl⟩
  have hs : schedule ∈ inserted.schedules := by
    rw [hinserted, hallocated]
    exact addressed.schedule_mem
  obtain ⟨found', hpresent⟩ : ∃ found', header (deleteVersions moved schedule.id fun row =>
      row.revision ∉ keptRevisions moved schedule.id) schedule.userId schedule.id =
        .ok found' := by
    have history := historyRows_replaced (by rw [hallocated]; rfl) hversions
      (show moved.versions = inserted.versions by rw [hmoved]; rfl) rfl rfl bounded
    have hmem : (⟨schedule.id, schedule.userId, data.expectedVersion + 1,
        savedState data.toCandidate tasks report, stamp⟩ : VersionRow) ∈
        historyRows (deleteVersions moved schedule.id fun row =>
          row.revision ∉ keptRevisions moved schedule.id) schedule.id := by
      rw [history, historyLimit, newest_append_singleton]
      exact List.mem_append_right _ (List.mem_singleton_self _)
    refine header_moved (data.expectedVersion + 1) stamp hs hmem ?_
    rw [hmoved]
    rfl
  have fresh : (deleteVersions moved schedule.id fun row =>
      row.revision ∉ keptRevisions moved schedule.id).commands.find?
        (schedule.userId, data.clientRequestId) = none := by
    rw [hmoved, hinserted, hallocated]
    exact addressed.unanswered
  obtain ⟨result, store', hfinish⟩ := finish_total (.replace schedule.id data)
    (data.expectedVersion + 1) fresh hpresent
  refine ⟨result, store', ?_, (finish_ok hfinish).2.2.2.1⟩
  unfold replace
  rw [hlock, ok_bind, hheader, ok_bind, hreplay, ok_bind]
  simp only
  rw [hversion, ok_bind, hschedule, hstate,
    validate_ok.mpr ⟨tasks, values, report, valid, rfl, rfl⟩, ok_bind]
  simp only
  rw [show (savedState data.toCandidate tasks report).toCandidate = data.toCandidate from rfl,
    halloc, ok_bind, hinsert, ok_bind, ← hmoved]
  exact hfinish

end

end SmartPlanner

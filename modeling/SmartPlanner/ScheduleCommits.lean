import SmartPlanner.ScheduleTables
import SmartPlanner.Library.History

/-!
The effect of the three schedule commands. A command that is answered without
an error either repeats a stored receipt and changes nothing, or commits: it
passed its checks, and every table of the next store is known.
-/

namespace SmartPlanner

open Outcome Sorting Tables Histories ScheduleRepository

/-- Deleting among the versions of one schedule. -/
theorem historyRows_delete {store : Store} {scheduleId : UUID} (q : VersionRow → Bool) (id : UUID) :
    historyRows (deleteVersions store scheduleId q) id =
      if id = scheduleId then (historyRows store scheduleId).filter (!q ·)
      else historyRows store id := by
  unfold historyRows deleteVersions
  split
  · next heq =>
      subst heq
      rw [← sortBy_filter _ (select_revisions_distinct store id)]
      congr 1
      simp only [Table.select, Table.delete, List.filter_filter]
      refine List.filter_congr fun row _ => ?_
      by_cases hid : row.scheduleId = id <;> simp [hid]
  · next hne =>
      congr 1
      simp only [Table.select, Table.delete, List.filter_filter]
      refine List.filter_congr fun row _ => ?_
      by_cases hid : row.scheduleId = id
      · have hother : row.scheduleId ≠ scheduleId := fun h => hne (hid.symm.trans h)
        simp [hid, hne]
      · simp [hid]

/-- Inserting a version above all others of its schedule. -/
theorem historyRows_insert {store store' : Store} {row : VersionRow}
    (inserted : store'.versions.rows = store.versions.rows ++ [row])
    (above : ∀ old ∈ historyRows store row.scheduleId, old.revision < row.revision) :
    historyRows store' row.scheduleId = historyRows store row.scheduleId ++ [row] := by
  unfold historyRows Table.select
  rw [inserted, List.filter_append, show [row].filter (fun other =>
    decide (other.scheduleId = row.scheduleId)) = [row] by simp]
  apply sortBy_append_last (select_revisions_distinct store row.scheduleId)
  intro old hold
  exact above old (mem_sortBy.mpr hold)

theorem historyRows_insert_other {store store' : Store} {row : VersionRow}
    (inserted : store'.versions.rows = store.versions.rows ++ [row]) {id : UUID}
    (hne : id ≠ row.scheduleId) : historyRows store' id = historyRows store id := by
  unfold historyRows Table.select
  rw [inserted, List.filter_append, show [row].filter (fun other =>
    decide (other.scheduleId = id)) = [] by simp [Ne.symm hne], List.append_nil]

theorem historyRows_congr {store store' : Store} (h : store'.versions = store.versions)
    (id : UUID) : historyRows store' id = historyRows store id := by
  unfold historyRows
  rw [h]

/-- The tables after a commit that makes `state` the layout of a schedule whose
row is now `schedule`. -/
structure Commit (store store' : Store) (schedule : ScheduleRow) (state : Candidate)
    (receipt : CommandRow) : Prop where
  users : store'.users = store.users
  preferences : store'.preferences = store.preferences
  tasks : store'.tasks = store.tasks
  recurrences : store'.recurrences = store.recurrences
  events : store'.events = store.events
  schedules : ∀ row, row ∈ store'.schedules ↔
    (row ∈ store.schedules ∧ row.id ≠ schedule.id) ∨ row = schedule
  otherHistories : ∀ id, id ≠ schedule.id → historyRows store' id = historyRows store id
  unallocated : ∀ row ∈ store.allocations, row.userId = schedule.userId →
    (∃ block ∈ state.content.blocks, block.taskId = row.taskId) → row.scheduleId = schedule.id
  allocations : ∀ row, row ∈ store'.allocations ↔
    (row ∈ store.allocations ∧
      ¬ (row.userId = schedule.userId ∧ row.scheduleId = schedule.id)) ∨
    (row.userId = schedule.userId ∧ row.scheduleId = schedule.id ∧
      ∃ block ∈ state.content.blocks, block.taskId = row.taskId)
  commands : store'.commands.rows = store.commands.rows ++ [receipt]

section
variable (zoneInfo : String → Zone) (store : Store) (owner scheduleId : UUID)
  (now stamp : Int)

/-- A create command that committed. -/
structure Created (data : ScheduleCreate) (result : ScheduleResult) (store' : Store)
    (zone : String) (tasks : List TaskRecord) (values : PreferenceValues)
    (report : LayoutReport) : Prop where
  account : ∃ user ∈ store.users, user.id = owner ∧ user.timezone = zone
  unanswered : store.commands.find? (owner, data.clientRequestId) = none
  valid : Validated zoneInfo store owner data.toCandidate zone none now tasks values report
  separate : ∀ row ∈ store.schedules, row.userId = owner → row.horizon.Apart report.horizon
  freshId : ∀ row ∈ store.schedules, row.id ≠ scheduleId
  commit : Commit store store' ⟨scheduleId, owner, report.horizon, zone, 1, 1, stamp, stamp⟩
    data.toCandidate ⟨owner, data.clientRequestId, scheduleId, .create data, 1⟩
  versions : store'.versions.rows = store.versions.rows ++
    [⟨scheduleId, owner, 1, savedState data.toCandidate tasks report, stamp⟩]
  answer : result.replayed = false ∧ result.appliedVersion = 1 ∧
    view store' owner scheduleId = .ok result.schedule

/-- The row, the current version and the checks that replace and travel share. -/
structure Addressed (requestId : UUID) (expectedVersion : Nat) (schedule : ScheduleRow)
    (current : VersionRow) : Prop where
  account : ∃ user ∈ store.users, user.id = owner
  schedule_mem : schedule ∈ store.schedules
  schedule_id : schedule.id = scheduleId
  schedule_user : schedule.userId = owner
  current_mem : current ∈ historyRows store scheduleId
  current_revision : current.revision = schedule.currentRevision
  unanswered : store.commands.find? (owner, requestId) = none
  version_eq : schedule.version = expectedVersion
  version_lt : expectedVersion < versionLimit

/-- A replace command that committed. -/
structure Replaced (data : ScheduleReplace) (result : ScheduleResult) (store' : Store)
    (schedule : ScheduleRow) (current : VersionRow) (tasks : List TaskRecord)
    (values : PreferenceValues) (report : LayoutReport) : Prop where
  addressed : Addressed store owner scheduleId data.clientRequestId data.expectedVersion
    schedule current
  valid : Validated zoneInfo store owner data.toCandidate schedule.timezone
    (some current.state.toCandidate) now tasks values report
  commit : Commit store store'
    (schedule.moved (data.expectedVersion + 1) (data.expectedVersion + 1) stamp)
    data.toCandidate ⟨owner, data.clientRequestId, scheduleId, .replace scheduleId data,
      data.expectedVersion + 1⟩
  history : (∀ row ∈ historyRows store scheduleId, row.revision ≤ schedule.version) →
    historyRows store' scheduleId = newest historyLimit
      ((historyRows store scheduleId).filter (·.revision ≤ current.revision) ++
        [⟨scheduleId, owner, data.expectedVersion + 1,
          savedState data.toCandidate tasks report, stamp⟩])
  answer : result.replayed = false ∧ result.appliedVersion = data.expectedVersion + 1 ∧
    view store' owner scheduleId = .ok result.schedule

/-- An undo or redo command that committed. -/
structure Travelled (data : HistoryCommand) (direction : Direction) (result : ScheduleResult)
    (store' : Store) (schedule : ScheduleRow) (current goal : VersionRow)
    (tasks : List TaskRecord) (values : PreferenceValues) (report : LayoutReport) : Prop where
  addressed : Addressed store owner scheduleId data.clientRequestId data.expectedVersion
    schedule current
  neighbour : target store scheduleId schedule.currentRevision direction = some goal
  valid : Validated zoneInfo store owner goal.state.toCandidate schedule.timezone
    (some current.state.toCandidate) now tasks values report
  commit : Commit store store' (schedule.moved (data.expectedVersion + 1) goal.revision stamp)
    goal.state.toCandidate ⟨owner, data.clientRequestId, scheduleId,
      .travel direction scheduleId data, data.expectedVersion + 1⟩
  versions : store'.versions = store.versions
  answer : result.replayed = false ∧ result.appliedVersion = data.expectedVersion + 1 ∧
    view store' owner scheduleId = .ok result.schedule

end

section
variable {zoneInfo : String → Zone} {store store' : Store} {owner scheduleId : UUID}
  {now stamp : Int} {result : ScheduleResult}

theorem create_ok {data : ScheduleCreate}
    (h : create zoneInfo store owner data scheduleId now stamp = .ok (result, store')) :
    (result.replayed = true ∧ store' = store) ∨
    ∃ zone tasks values report, Created zoneInfo store owner scheduleId now stamp data result
      store' zone tasks values report := by
  unfold create at h
  simp only [bind_ok] at h
  obtain ⟨zone, hzone, answer, hreplay, h⟩ := h
  cases answer with
  | some answer =>
      simp only [pure_eq_ok, Except.ok.injEq, Prod.mk.injEq] at h
      obtain ⟨rfl, rfl⟩ := h
      exact Or.inl ⟨replay_some hreplay, rfl⟩
  | none =>
      simp only [bind_ok] at h
      obtain ⟨⟨state, horizon⟩, hvalid, u, hoverlap, schedules, hschedules, inserted, hinsert,
        allocated, halloc, hfinish⟩ := h
      rw [raiseIf_ok] at hoverlap
      obtain ⟨tasks, values, report, valid, rfl, rfl⟩ := validate_ok.mp hvalid
      obtain ⟨hversions, -, hinserted⟩ := insertState_ok hinsert
      obtain ⟨hfree, hrows, hallocated⟩ := allocations_ok halloc
      obtain ⟨hcommands, hfinished, hview, hreplayed, happlied⟩ := finish_ok hfinish
      obtain ⟨hnew, -⟩ := Table.insert?_eq_some (insertRow_ok.mp hschedules)
      right
      refine ⟨zone, tasks, values, report, ownerLock_ok.mp hzone, replay_none.mp hreplay, valid,
        fun row hrow howner => ?_, hnew, ?_, ?_, hreplayed, happlied, hview⟩
      · by_contra hapart
        unfold TimeWindow.Apart at hapart
        rw [not_or, not_le, not_le] at hapart
        exact hoverlap ⟨row, hrow, howner, hapart.2, hapart.1⟩
      · rw [hfinished, hallocated, hinserted]
        refine ⟨rfl, rfl, rfl, rfl, rfl, fun row => ?_, fun id hid => ?_, ?_, ?_, ?_⟩
        · rw [Table.mem_insert? (insertRow_ok.mp hschedules)]
          refine or_congr_left ⟨fun hrow => ⟨hrow, hnew row hrow⟩, fun hrow => hrow.1⟩
        · exact historyRows_insert_other hversions hid
        · intro row hrow howner hblock
          rw [hinserted] at hfree
          exact hfree row hrow howner hblock
        · intro row
          rw [hinserted] at hrows
          exact hrows row
        · rw [hallocated, hinserted] at hcommands
          exact hcommands
      · rw [hfinished, hallocated]
        exact hversions

theorem addressed_of {requestId : UUID} {expectedVersion version : Nat} {digest : CommandDigest}
    {zone : String} {found : ScheduleHeader} (hzone : ownerLock store owner = .ok zone)
    (hheader : header store owner scheduleId = .ok found)
    (hreplay : replay store owner requestId digest = .ok none)
    (hversion : nextVersion found expectedVersion = .ok version) :
    ∃ current : VersionRow, found.state = current.state ∧ version = expectedVersion + 1 ∧
      Addressed store owner scheduleId requestId expectedVersion found.schedule current := by
  obtain ⟨user, huser, hid, -⟩ := ownerLock_ok.mp hzone
  obtain ⟨current, hschedule, hsid, howner, hcurrent, hrevision, hstate, -⟩ :=
    header_ok.mp hheader
  obtain ⟨heq, hlt, rfl⟩ := nextVersion_ok.mp hversion
  exact ⟨current, hstate, rfl, ⟨user, huser, hid⟩, hschedule, hsid, howner, hcurrent,
    hrevision, replay_none.mp hreplay, heq, hlt⟩

/-- The history after a replace: the future is cut, the new version appended and
the oldest versions pruned. -/
theorem historyRows_replaced {store trimmed inserted moved final : Store} {revision cursor : Nat}
    {row : VersionRow}
    (htrimmed : trimmed.versions =
      (deleteVersions store row.scheduleId fun old => cursor < old.revision).versions)
    (hinserted : inserted.versions.rows = trimmed.versions.rows ++ [row])
    (hmoved : moved.versions = inserted.versions)
    (hfinal : final.versions = (deleteVersions moved row.scheduleId fun old =>
      old.revision ∉ keptRevisions moved row.scheduleId).versions)
    (hrevision : row.revision = revision + 1)
    (bounded : ∀ old ∈ historyRows store row.scheduleId, old.revision ≤ revision) :
    historyRows final row.scheduleId = newest historyLimit
      ((historyRows store row.scheduleId).filter (·.revision ≤ cursor) ++ [row]) := by
  have hcut : historyRows trimmed row.scheduleId =
      (historyRows store row.scheduleId).filter (·.revision ≤ cursor) := by
    rw [historyRows_congr htrimmed, historyRows_delete, if_pos rfl]
    refine List.filter_congr fun old _ => ?_
    rw [← decide_not, decide_eq_decide, not_lt]
  have happended : historyRows moved row.scheduleId =
      (historyRows store row.scheduleId).filter (·.revision ≤ cursor) ++ [row] := by
    rw [historyRows_congr hmoved, historyRows_insert hinserted, hcut]
    intro old hold
    rw [hcut, List.mem_filter] at hold
    have hle := bounded old hold.1
    omega
  rw [historyRows_congr hfinal, historyRows_delete, if_pos rfl, ← happended,
    ← filter_newest (historyRows_revisions_nodup moved row.scheduleId)]
  refine List.filter_congr fun old _ => ?_
  rw [← decide_not, decide_eq_decide, not_not]
  rfl

theorem replace_ok {data : ScheduleReplace}
    (h : replace zoneInfo store owner scheduleId data now stamp = .ok (result, store')) :
    (result.replayed = true ∧ store' = store ∧
      store.commands.find? (owner, data.clientRequestId) ≠ none) ∨
    ∃ schedule current tasks values report, Replaced zoneInfo store owner scheduleId now stamp
      data result store' schedule current tasks values report := by
  unfold replace at h
  simp only [bind_ok] at h
  obtain ⟨zone, hzone, found, hheader, answer, hreplay, h⟩ := h
  cases answer with
  | some answer =>
      simp only [pure_eq_ok, Except.ok.injEq, Prod.mk.injEq] at h
      obtain ⟨rfl, rfl⟩ := h
      refine Or.inl ⟨replay_some hreplay, rfl, fun unanswered => ?_⟩
      rw [replay_none.mpr unanswered] at hreplay
      cases hreplay
  | none =>
      simp only [bind_ok] at h
      obtain ⟨version, hversion, ⟨state, horizon⟩, hvalid, allocated, halloc, inserted, hinsert,
        hfinish⟩ := h
      obtain ⟨current, hstate, rfl, addressed⟩ := addressed_of hzone hheader hreplay hversion
      rw [hstate] at hvalid
      obtain ⟨tasks, values, report, valid, rfl, rfl⟩ := validate_ok.mp hvalid
      simp only at halloc hinsert hfinish
      obtain ⟨hfree, hrows, hallocated⟩ := allocations_ok halloc
      obtain ⟨hversions, -, hinserted⟩ := insertState_ok hinsert
      obtain ⟨hcommands, hfinished, hview, hreplayed, happlied⟩ := finish_ok hfinish
      have hid := addressed.schedule_id
      have huser := addressed.schedule_user
      subst hid huser
      have hschedules : inserted.schedules = store.schedules := by
        rw [hinserted, hallocated]
        rfl
      obtain ⟨moved, hmoved, hcursor, hpruned⟩ : ∃ moved : Store,
          moved.versions = inserted.versions ∧
          (∀ row, row ∈ moved.schedules ↔ (row ∈ store.schedules ∧ row.id ≠ found.schedule.id) ∨
            row = found.schedule.moved (data.expectedVersion + 1) (data.expectedVersion + 1)
              stamp) ∧
          store' = { deleteVersions moved found.schedule.id fun old =>
            old.revision ∉ keptRevisions moved found.schedule.id with
            commands := store'.commands } := by
        refine ⟨moveCursor inserted found.schedule.userId found.schedule.id
          (data.expectedVersion + 1) (data.expectedVersion + 1) stamp, rfl, fun row => ?_,
          hfinished⟩
        rw [← hschedules]
        exact mem_moveCursor (hschedules ▸ addressed.schedule_mem) row
      have hversions' : store'.versions = (deleteVersions moved found.schedule.id fun old =>
          old.revision ∉ keptRevisions moved found.schedule.id).versions := by
        rw [hpruned]
      obtain ⟨husers, hpreferences, htasks, hrecurrences, hevents⟩ :
          store'.users = store.users ∧ store'.preferences = store.preferences ∧
          store'.tasks = store.tasks ∧ store'.recurrences = store.recurrences ∧
          store'.events = store.events := by
        rw [hfinished, hinserted, hallocated]
        exact ⟨rfl, rfl, rfl, rfl, rfl⟩
      right
      refine ⟨found.schedule, current, tasks, values, report, addressed, valid,
        ⟨husers, hpreferences, htasks, hrecurrences, hevents, fun row => ?_, fun id hne => ?_,
          hfree, fun row => ?_, ?_⟩, fun bounded => ?_, hreplayed, happlied, hview⟩
      · rw [hpruned]
        exact hcursor row
      · change id ≠ found.schedule.id at hne
        rw [historyRows_congr hversions', historyRows_delete, if_neg hne,
          historyRows_congr hmoved, historyRows_insert_other hversions hne,
          historyRows_delete, if_neg hne, hallocated]
        rfl
      · rw [hfinished, hinserted]
        exact hrows row
      · rw [hcommands, hinserted, hallocated]
        rfl
      · rw [addressed.current_revision]
        refine historyRows_replaced ?_ hversions hmoved hversions' rfl ?_
        · rw [hallocated]
          rfl
        · intro old hold
          rw [← addressed.version_eq]
          exact bounded old hold

theorem travel_ok {data : HistoryCommand} {direction : Direction}
    (h : travel zoneInfo store owner scheduleId data direction now stamp =
      .ok (result, store')) :
    (result.replayed = true ∧ store' = store) ∨
    ∃ schedule current goal tasks values report, Travelled zoneInfo store owner scheduleId now
      stamp data direction result store' schedule current goal tasks values report := by
  unfold travel at h
  simp only [bind_ok] at h
  obtain ⟨zone, hzone, found, hheader, answer, hreplay, h⟩ := h
  cases answer with
  | some answer =>
      simp only [pure_eq_ok, Except.ok.injEq, Prod.mk.injEq] at h
      obtain ⟨rfl, rfl⟩ := h
      exact Or.inl ⟨replay_some hreplay, rfl⟩
  | none =>
      simp only [bind_ok] at h
      obtain ⟨version, hversion, h⟩ := h
      obtain ⟨current, hstate, rfl, addressed⟩ := addressed_of hzone hheader hreplay hversion
      cases hgoal : target store scheduleId found.schedule.currentRevision direction with
      | none =>
          rw [hgoal] at h
          contradiction
      | some goal =>
          rw [hgoal] at h
          simp only [bind_ok] at h
          obtain ⟨⟨state, horizon⟩, hvalid, allocated, halloc, hfinish⟩ := h
          rw [hstate] at hvalid
          obtain ⟨tasks, values, report, valid, rfl, rfl⟩ := validate_ok.mp hvalid
          obtain ⟨hfree, hrows, hallocated⟩ := allocations_ok halloc
          obtain ⟨hcommands, hfinished, hview, hreplayed, happlied⟩ := finish_ok hfinish
          have hid := addressed.schedule_id
          have huser := addressed.schedule_user
          subst hid huser
          have hschedules : allocated.schedules = store.schedules := by rw [hallocated]
          obtain ⟨husers, hpreferences, htasks, hrecurrences, hevents, hversions⟩ :
              store'.users = store.users ∧ store'.preferences = store.preferences ∧
              store'.tasks = store.tasks ∧ store'.recurrences = store.recurrences ∧
              store'.events = store.events ∧ store'.versions = store.versions := by
            rw [hfinished, hallocated]
            exact ⟨rfl, rfl, rfl, rfl, rfl, rfl⟩
          right
          refine ⟨found.schedule, current, goal, tasks, values, report, addressed, hgoal, valid,
            ⟨husers, hpreferences, htasks, hrecurrences, hevents, fun row => ?_,
              fun id _ => historyRows_congr hversions id, hfree, fun row => ?_, ?_⟩,
            hversions, hreplayed, happlied, hview⟩
          · rw [hfinished, ← hschedules]
            exact mem_moveCursor (hschedules ▸ addressed.schedule_mem) row
          · rw [hfinished]
            exact hrows row
          · rw [hcommands, hallocated]
            rfl

end

end SmartPlanner

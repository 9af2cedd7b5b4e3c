import SmartPlanner.StoreInvariant
import SmartPlanner.PreviewSound

/-!
Every reachable store satisfies the invariant: what each schedule command leaves
of its schedule, and the induction over the run.
-/

namespace SmartPlanner

open Histories Outcome Tables ScheduleRepository

/-- A version accepted now is what the checker reports for the present
records. -/
theorem Validated.entryOk {zoneInfo : String → Zone} {store : Store} {candidate : Candidate}
    {previous : Option Candidate} {now : Int} {tasks : List TaskRecord}
    {values : PreferenceValues} {report : LayoutReport} {schedule : ScheduleRow}
    {row : VersionRow}
    (valid : Validated zoneInfo store schedule.userId candidate schedule.timezone previous now
      tasks values report) (horizon : schedule.horizon = report.horizon)
    (owner : row.userId = schedule.userId) (state : row.state = savedState candidate tasks report) :
    EntryOk zoneInfo store schedule row := by
  obtain ⟨-, p, -, -, hstart, hstop, -⟩ := inspectLayout_report valid.inspected
  have hcandidate : row.state.toCandidate = candidate := by
    rw [state]
    rfl
  refine ⟨owner, ?_, ?_, ?_, ⟨fun entry hentry => ?_, ?_⟩, fun tasks' values' current => ?_⟩
  · rw [horizon, hcandidate, hstart]
  · rw [horizon, hcandidate, hstop]
  · rw [hcandidate]
    exact valid.contentSound
  · rw [hcandidate] at hentry
    have hid : entry.1 ∈ tasks.map (·.id) := by
      rw [valid.current.records.ids_eq, ← candidate.selected_iff]
      exact List.mem_map_of_mem hentry
    obtain ⟨task, ht, hfst⟩ := List.mem_map.mp hid
    obtain ⟨old, hold, howner, -, hcolumns⟩ := valid.current.records.stored task ht
    have hsame := List.inj_on_of_nodup_map candidate.versions_distinct
      (valid.current.versions task ht) hentry hfst
    refine ⟨old, hold, howner, ?_, ?_⟩
    · rw [hcolumns, hfst]
    · rw [hcolumns, ← hsame]
  · obtain ⟨old, hold, howner, hversion, -⟩ := valid.current.preferences
    exact ⟨old, hold, howner, by rw [hcandidate, hversion]⟩
  · rw [hcandidate] at current ⊢
    have htasks : tasks' = tasks := current.records.unique valid.current.records
    obtain ⟨a, ha, hao, -, hav⟩ := current.preferences
    obtain ⟨b, hb, hbo, -, hbv⟩ := valid.current.preferences
    have hvalues : values' = values := by
      rw [← hav, ← hbv, store.preferences.eq_of_key ha hb (hao.trans hbo.symm)]
    rw [htasks, hvalues]
    exact ⟨report, valid.inspected, horizon.symm, state⟩

/-- A replace joins the version in force to the new one. -/
theorem Validated.joined {zoneInfo : String → Zone} {store : Store} {owner : UUID} {zone : String}
    {now : Int} {tasks : List TaskRecord} {values : PreferenceValues} {report : LayoutReport}
    {lower upper : VersionRow}
    (valid : Validated zoneInfo store owner upper.state.toCandidate zone
      (some lower.state.toCandidate) now tasks values report) :
    Joined store owner lower upper := by
  intro block hb hlocked hdropped row hrow howner hid hopen _
  have hselected := lower.state.content.blocksValid.2 block hb
  have hlive : liveRow (liveRows store owner upper.state.toCandidate
      (some lower.state.toCandidate)) block.taskId = some row :=
    liveRow_liveRows.mpr ⟨hrow, howner, hid, Or.inr ⟨lower.state.toCandidate, rfl, hselected⟩⟩
  have hkept := valid.placements.kept block hb row hlive hopen hdropped
  rw [hlocked] at hkept
  exact absurd hkept.1 (by decide)

section
variable {zoneInfo : String → Zone} {store store' : Store} {owner scheduleId : UUID}
  {now stamp : Int} {result : ScheduleResult}

/-- A new schedule has one version. -/
theorem Created.history {data : ScheduleCreate} {zone : String} {tasks : List TaskRecord}
    {values : PreferenceValues} {report : LayoutReport} (ok : StoreOk zoneInfo store)
    (created : Created zoneInfo store owner scheduleId now stamp data result store' zone tasks
      values report) :
    historyRows store' scheduleId = [⟨scheduleId, owner, 1,
      savedState data.toCandidate tasks report, stamp⟩] := by
  have before : historyRows store scheduleId = [] := by
    rw [List.eq_nil_iff_forall_not_mem]
    intro row hrow
    obtain ⟨hmem, hid⟩ := mem_historyRows.mp hrow
    obtain ⟨schedule, hs, hsame⟩ := ok.versionsOwned row hmem
    exact created.freshId schedule hs (hsame.trans hid)
  have after := historyRows_insert created.versions (by simp [before])
  rwa [before, List.nil_append] at after

theorem Created.cursor {data : ScheduleCreate} {zone : String} {tasks : List TaskRecord}
    {values : PreferenceValues} {report : LayoutReport} (ok : StoreOk zoneInfo store)
    (created : Created zoneInfo store owner scheduleId now stamp data result store' zone tasks
      values report) :
    CurrentRow store' ⟨scheduleId, owner, report.horizon, zone, 1, 1, stamp, stamp⟩
      ⟨scheduleId, owner, 1, savedState data.toCandidate tasks report, stamp⟩ := by
  refine ⟨?_, rfl⟩
  rw [created.history ok]
  exact List.mem_singleton_self _

theorem StoreOk.created {data : ScheduleCreate} {zone : String} {tasks : List TaskRecord}
    {values : PreferenceValues} {report : LayoutReport} (ok : StoreOk zoneInfo store)
    (created : Created zoneInfo store owner scheduleId now stamp data result store' zone tasks
      values report) : StoreOk zoneInfo store' := by
  have commit := created.commit
  have after := created.history ok
  refine ok.commit commit (fun row hrow hid => absurd hid (created.freshId row hrow)) ?_
    ⟨_, created.cursor ok, rfl⟩ fun row hrow _ howner => created.separate row hrow howner
  obtain ⟨user, huser, hid, -⟩ := created.account
  refine ⟨⟨user, commit.users ▸ huser, hid⟩, ⟨_, created.cursor ok⟩, le_rfl, ?_, ?_, ?_, ?_, ?_⟩
  · simp [after]
  · simp [after, historyLimit]
  · rw [after]
    intro row hrow
    rw [List.mem_singleton.mp hrow]
    have entry : EntryOk zoneInfo store
        ⟨scheduleId, owner, report.horizon, zone, 1, 1, stamp, stamp⟩
        ⟨scheduleId, owner, 1, savedState data.toCandidate tasks report, stamp⟩ :=
      created.valid.entryOk rfl rfl rfl
    exact entry.mono commit.evolve
  · simp [after]
  · rw [after]
    exact .singleton _

/-- What the commands on a schedule start from. -/
theorem Addressed.currentRow {requestId : UUID} {expectedVersion : Nat} {schedule : ScheduleRow}
    {current : VersionRow}
    (addressed : Addressed store owner scheduleId requestId expectedVersion schedule current) :
    CurrentRow store schedule current :=
  ⟨addressed.schedule_id ▸ addressed.current_mem, addressed.current_revision⟩

theorem Addressed.sameOwner {requestId : UUID} {expectedVersion : Nat} {schedule : ScheduleRow}
    {current : VersionRow}
    (addressed : Addressed store owner scheduleId requestId expectedVersion schedule current) :
    ∀ row ∈ store.schedules, row.id = schedule.id → row.userId = schedule.userId :=
  fun _ hrow hid => congrArg _ (store.schedules.eq_of_key hrow addressed.schedule_mem hid)

theorem Addressed.separate {requestId : UUID} {expectedVersion : Nat} {schedule : ScheduleRow}
    {current : VersionRow} (ok : StoreOk zoneInfo store)
    (addressed : Addressed store owner scheduleId requestId expectedVersion schedule current) :
    ∀ row ∈ store.schedules, row.id ≠ schedule.id → row.userId = schedule.userId →
      row.horizon.Apart schedule.horizon :=
  fun row hrow hne howner => ok.apart row hrow schedule addressed.schedule_mem howner hne

/-- The zipper of a schedule at one of its versions. -/
theorem historyRows_zipper {schedule : ScheduleRow} {current : VersionRow}
    (hcurrent : CurrentRow store schedule current) :
    (Zipper.cursorAt (·.revision) (historyRows store schedule.id) current).toList =
      historyRows store schedule.id :=
  Zipper.toList_cursorAt (historyRows_increasing store schedule.id) hcurrent.1

/-- The horizon of a schedule does not change with its layout. -/
theorem Validated.horizon_eq {candidate : Candidate} {tasks : List TaskRecord}
    {values : PreferenceValues} {report : LayoutReport} {schedule : ScheduleRow}
    {current : VersionRow} (entry : EntryOk zoneInfo store schedule current)
    (valid : Validated zoneInfo store schedule.userId candidate schedule.timezone
      (some current.state.toCandidate) now tasks values report) :
    schedule.horizon = report.horizon := by
  obtain ⟨-, p, -, -, hstart, hstop, -⟩ := inspectLayout_report valid.inspected
  obtain ⟨hdate, hdays⟩ := valid.sameHorizon current.state.toCandidate rfl
  rw [TimeWindow.mk.injEq, hstart, hstop, entry.horizonStart, entry.horizonStop]
  unfold PlanningWindow.horizonStart PlanningWindow.horizonStop
  rw [hdate, hdays]
  exact ⟨rfl, rfl⟩

/-- Moving the cursor touches nothing a version depends on. -/
theorem EntryOk.moved {schedule : ScheduleRow} {row : VersionRow}
    (entry : EntryOk zoneInfo store schedule row) (version revision : Nat) (stamp : Int) :
    EntryOk zoneInfo store (schedule.moved version revision stamp) row :=
  ⟨entry.owner, entry.horizonStart, entry.horizonStop, entry.sound, entry.known, entry.derived⟩

theorem Replaced.history_push {data : ScheduleReplace} {schedule : ScheduleRow}
    {current : VersionRow} {tasks : List TaskRecord} {values : PreferenceValues}
    {report : LayoutReport} (ok : StoreOk zoneInfo store)
    (replaced : Replaced zoneInfo store owner scheduleId now stamp data result store' schedule
      current tasks values report) :
    historyRows store' schedule.id =
      ((Zipper.cursorAt (·.revision) (historyRows store schedule.id) current).push historyLimit
        ⟨scheduleId, owner, data.expectedVersion + 1, savedState data.toCandidate tasks report,
          stamp⟩).toList := by
  have hid := replaced.addressed.schedule_id
  subst hid
  have hcurrent := replaced.addressed.currentRow
  have bounded := (ok.schedules schedule replaced.addressed.schedule_mem).bounded
  have hlist := historyRows_zipper hcurrent
  have hcut := @Zipper.filter_le_cursor _ _ _ (fun row : VersionRow => row.revision)
    (Zipper.cursorAt (·.revision) (historyRows store schedule.id) current) (by
      rw [hlist]
      exact historyRows_increasing store schedule.id)
  rw [hlist] at hcut
  rw [Zipper.toList_push (by decide), ← hcut]
  exact replaced.history bounded

/-- The new version is the one in force. -/
theorem Replaced.cursor {data : ScheduleReplace} {schedule : ScheduleRow}
    {current : VersionRow} {tasks : List TaskRecord} {values : PreferenceValues}
    {report : LayoutReport} (ok : StoreOk zoneInfo store)
    (replaced : Replaced zoneInfo store owner scheduleId now stamp data result store' schedule
      current tasks values report) :
    CurrentRow store' (schedule.moved (data.expectedVersion + 1) (data.expectedVersion + 1) stamp)
      ⟨scheduleId, owner, data.expectedVersion + 1, savedState data.toCandidate tasks report,
        stamp⟩ := by
  refine ⟨?_, rfl⟩
  change _ ∈ historyRows store' schedule.id
  rw [replaced.history_push ok]
  simp [Zipper.push, Zipper.toList]

theorem StoreOk.replaced {data : ScheduleReplace} {schedule : ScheduleRow}
    {current : VersionRow} {tasks : List TaskRecord} {values : PreferenceValues}
    {report : LayoutReport} (ok : StoreOk zoneInfo store)
    (replaced : Replaced zoneInfo store owner scheduleId now stamp data result store' schedule
      current tasks values report) : StoreOk zoneInfo store' := by
  have history := replaced.history_push ok
  have cursor := replaced.cursor ok
  have addressed := replaced.addressed
  have commit := replaced.commit
  have hid := addressed.schedule_id
  have howner := addressed.schedule_user
  subst hid howner
  have scheduleOk := ok.schedules schedule addressed.schedule_mem
  have hcurrent := addressed.currentRow
  have hlist := historyRows_zipper hcurrent
  set z := Zipper.cursorAt (fun row : VersionRow => row.revision)
    (historyRows store schedule.id) current with hz
  have mem : ∀ row ∈ historyRows store' schedule.id, row ∈ historyRows store schedule.id ∨
      row = ⟨schedule.id, schedule.userId, data.expectedVersion + 1,
        savedState data.toCandidate tasks report, stamp⟩ := by
    intro row hrow
    rw [history] at hrow
    have := Zipper.mem_push (by decide) hrow
    rwa [hlist] at this
  have newOk : EntryOk zoneInfo store schedule ⟨schedule.id, schedule.userId,
      data.expectedVersion + 1, savedState data.toCandidate tasks report, stamp⟩ :=
    replaced.valid.entryOk (replaced.valid.horizon_eq (scheduleOk.entries current hcurrent.1))
      rfl rfl
  have entries : ∀ row ∈ historyRows store' schedule.id, EntryOk zoneInfo store schedule row := by
    intro row hrow
    rcases mem row hrow with hold | rfl
    · exact scheduleOk.entries row hold
    · exact newOk
  have dates : ∀ row ∈ historyRows store' schedule.id,
      row.state.content.startDate = current.state.content.startDate ∧
      row.state.content.days = current.state.content.days := by
    intro row hrow
    rcases mem row hrow with hold | rfl
    · exact scheduleOk.sameDates row hold current hcurrent.1
    · exact replaced.valid.sameHorizon current.state.toCandidate rfl
  have separate := addressed.separate ok
  refine ok.commit commit addressed.sameOwner ⟨commit.users ▸ scheduleOk.account, ⟨_, cursor⟩,
    ?_, ?_, ?_, ?_, ?_, ?_⟩ ⟨_, cursor, rfl⟩ separate
  · exact Nat.succ_pos _
  · intro row hrow
    change row.revision ≤ data.expectedVersion + 1
    rcases mem row hrow with hold | rfl
    · have hle := scheduleOk.bounded row hold
      rw [addressed.version_eq] at hle
      omega
    · exact le_rfl
  · change (historyRows store' schedule.id).length ≤ historyLimit
    rw [history]
    exact Zipper.length_push (by decide) z _
  · exact fun row hrow => ((entries row hrow).moved _ _ _).mono commit.evolve
  · intro a ha b hb
    obtain ⟨ha₁, ha₂⟩ := dates a ha
    obtain ⟨hb₁, hb₂⟩ := dates b hb
    exact ⟨ha₁.trans hb₁.symm, ha₂.trans hb₂.symm⟩
  · have chain : (historyRows store' schedule.id).IsChain (Joined store schedule.userId) := by
      rw [history]
      exact Zipper.push_isChain (by decide) (hlist.symm ▸ scheduleOk.joined)
        replaced.valid.joined
    exact chain.imp_of_mem_imp fun lower upper hlower _ joined =>
      joined.mono (entries lower hlower).known commit.evolve

theorem target_mem {schedule : ScheduleRow} {direction : Direction} {goal : VersionRow}
    (h : target store schedule.id schedule.currentRevision direction = some goal) :
    goal ∈ historyRows store schedule.id := by
  cases direction with
  | undo => exact List.mem_of_mem_filter (List.mem_of_getLast? h)
  | redo => exact List.mem_of_mem_filter (List.mem_of_head? h)

theorem Travelled.cursor {data : HistoryCommand} {direction : Direction}
    {schedule : ScheduleRow} {current goal : VersionRow} {tasks : List TaskRecord}
    {values : PreferenceValues} {report : LayoutReport}
    (travelled : Travelled zoneInfo store owner scheduleId now stamp data direction result store'
      schedule current goal tasks values report) :
    CurrentRow store' (schedule.moved (data.expectedVersion + 1) goal.revision stamp) goal := by
  have hid := travelled.addressed.schedule_id
  subst hid
  refine ⟨?_, rfl⟩
  change goal ∈ historyRows store' schedule.id
  rw [historyRows_congr travelled.versions]
  exact target_mem travelled.neighbour

theorem StoreOk.travelled {data : HistoryCommand} {direction : Direction}
    {schedule : ScheduleRow} {current goal : VersionRow} {tasks : List TaskRecord}
    {values : PreferenceValues} {report : LayoutReport} (ok : StoreOk zoneInfo store)
    (travelled : Travelled zoneInfo store owner scheduleId now stamp data direction result store'
      schedule current goal tasks values report) : StoreOk zoneInfo store' := by
  have addressed := travelled.addressed
  have commit := travelled.commit
  have cursor := travelled.cursor
  have hid := addressed.schedule_id
  have howner := addressed.schedule_user
  subst hid howner
  have scheduleOk := ok.schedules schedule addressed.schedule_mem
  have same : historyRows store' schedule.id = historyRows store schedule.id :=
    historyRows_congr travelled.versions schedule.id
  have later := scheduleOk.mono commit.evolve same
  have separate := addressed.separate ok
  refine ok.commit commit addressed.sameOwner ⟨later.account, ⟨goal, cursor⟩, Nat.succ_pos _,
    fun row hrow => ?_, later.short, fun row hrow => (later.entries row hrow).moved _ _ _,
    later.sameDates, later.joined⟩ ⟨goal, cursor, rfl⟩ separate
  have hle := later.bounded row hrow
  rw [addressed.version_eq] at hle
  exact hle.trans (Nat.le_succ _)

end

theorem StoreOk.transition {zoneInfo : String → Zone} {store store' : Store}
    (ok : StoreOk zoneInfo store) (transition : Transition zoneInfo store store') :
    StoreOk zoneInfo store' := by
  cases transition with
  | sources h => exact ok.sourcesGrow h
  | created h => exact ok.created h
  | replaced h => exact ok.replaced h
  | travelled h => exact ok.travelled h

theorem storeOk_step {zoneInfo : String → Zone} (store : Store) (command : Command)
    (ok : StoreOk zoneInfo store) : StoreOk zoneInfo (step zoneInfo store command) :=
  ok.transition (step_transition store command)

theorem storeOk_reached (zoneInfo : String → Zone) (commands : List Command) :
    StoreOk zoneInfo (reached zoneInfo commands) :=
  Runs.run_invariant (storeOk_empty zoneInfo) storeOk_step commands

def essayCreate : TaskCreate := ⟨essay.toTaskFields, 1, by decide⟩

/-- The essay on that Monday between nine and eleven, in this block, around these
events. -/
def essayContent (block : PlanBlock) (own : block.taskId = 1) (events : List FixedEvent)
    (few : events.length ≤ 100) : ScheduleContent where
  startDate := lectureDay
  days := 1
  taskIds := [1]
  availability := [lectureOpening]
  fixedEvents := events
  planningValid := ⟨by decide, by decide, by decide, by decide, by decide, few⟩
  blocks := [block]
  blocksValid := by simp [own]

def essayCandidate (block : PlanBlock) (own : block.taskId = 1) (events : List FixedEvent)
    (few : events.length ≤ 100) : Candidate where
  title := "Monday"
  content := essayContent block own events few
  taskVersions := [(1, 1)]
  preferenceVersion := 1
  candidateValid := ⟨by decide, by simp, by simp [essayContent, VersionValid, versionLimit],
    by simp [essayContent], by decide⟩

def earlyEssay : PlanBlock := ⟨lectureFirstHour, 1, false⟩

def lateEssay : PlanBlock := ⟨lectureSecondHour, 1, false⟩

theorem noEvents_few : ([] : List FixedEvent).length ≤ 100 := by decide

def movedEssay : Candidate := essayCandidate lateEssay rfl [] noEvents_few

/-- An account with one task, its saved Monday, and a later move of the block. -/
def essayRun : List Command :=
  [.register 1 "student" "UTC" 0, .createTask 1 essayCreate 1 0,
    .createSchedule 1 ⟨essayCandidate earlyEssay rfl [] noEvents_few, 10⟩ 7 (lectureTime 480) 0,
    .replaceSchedule 1 7 ⟨⟨movedEssay, 11⟩, 1, versionValid_one⟩ (lectureTime 480) 0]

end SmartPlanner

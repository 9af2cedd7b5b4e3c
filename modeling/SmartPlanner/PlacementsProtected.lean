import SmartPlanner.NoDoubleBooking

/-!
Started and locked work stays where it is. The guard of a single command
compares two adjacent layouts; over a run it protects a started block as long as
the clock does not go back and the task of the block stays open.
-/

namespace SmartPlanner

open Histories Outcome Runs Tables ScheduleRepository

/-- The blocks in force of a schedule. -/
def layout (store : Store) (scheduleId : UUID) : List PlanBlock :=
  (((store.schedules.find? scheduleId).bind (currentContent? store)).map (·.blocks)).getD []

def placements (store : Store) (scheduleId : UUID) : List (UUID × Int × Int) :=
  (layout store scheduleId).map blockKey

/-- The task is stored, pending and undeleted. -/
def TaskOpen (store : Store) (taskId : UUID) : Prop :=
  ∃ row ∈ store.tasks, row.id = taskId ∧ OpenRow row

/-- From the instant `now` on, the clocks that the commands read do not go back. -/
def ClockFrom (now : Int) (commands : List Command) : Prop :=
  (now :: commands.filterMap Command.clock?).Pairwise (· ≤ ·)

structure PlacementsProtected (zoneInfo : String → Zone) (commands : List Command) : Prop where
  started : ∀ before after, commands = before ++ after → ∀ scheduleId now,
    ClockFrom now after → ∀ block ∈ layout (reached zoneInfo before) scheduleId,
    block.start < now →
    (∀ middle, middle <+: after → TaskOpen (reached zoneInfo (before ++ middle)) block.taskId) →
    ∀ middle, middle <+: after →
      blockKey block ∈ placements (reached zoneInfo (before ++ middle)) scheduleId
  locked : ∀ store command, Occurs (step zoneInfo) Store.empty commands store command →
    ∀ scheduleId, ∀ block ∈ layout store scheduleId, block.locked = true →
    TaskOpen store block.taskId →
    blockKey block ∈ placements (step zoneInfo store command) scheduleId
  notBackdated : ∀ store command, Occurs (step zoneInfo) Store.empty commands store command →
    ∀ scheduleId, ∀ block ∈ layout (step zoneInfo store command) scheduleId,
    blockKey block ∉ placements store scheduleId →
    ∃ now ∈ command.clock?, now ≤ block.start

section
variable {zoneInfo : String → Zone} {store store' : Store} {owner scheduleId : UUID}

theorem layout_eq {schedule : ScheduleRow} {row : VersionRow} (hs : schedule ∈ store.schedules)
    (hrow : CurrentRow store schedule row) :
    layout store schedule.id = row.state.content.blocks := by
  have hfind : store.schedules.find? schedule.id = some schedule :=
    Table.find?_eq_some.mpr ⟨hs, rfl⟩
  have hcontent := currentContent_eq.mpr ⟨row, hrow, rfl⟩
  unfold layout
  rw [hfind, Option.bind_some, hcontent]
  rfl

theorem layout_absent (absent : ∀ row ∈ store.schedules, row.id ≠ scheduleId) :
    layout store scheduleId = [] := by
  unfold layout
  rw [Table.find?_eq_none.mpr absent]
  rfl

/-- The layout of a schedule whose row and history are kept. -/
theorem layout_congr (sameRow : ∀ row, row.id = scheduleId →
      (row ∈ store'.schedules ↔ row ∈ store.schedules))
    (sameHistory : historyRows store' scheduleId = historyRows store scheduleId) :
    layout store' scheduleId = layout store scheduleId := by
  cases hfind : store.schedules.find? scheduleId with
  | none =>
      have absent := Table.find?_eq_none.mp hfind
      rw [layout_absent absent,
        layout_absent fun row hrow hid => absent row ((sameRow row hid).mp hrow) hid]
  | some schedule =>
      obtain ⟨hs, rfl⟩ := Table.find?_eq_some.mp hfind
      have hfind' : store'.schedules.find? schedule.id = some schedule :=
        Table.find?_eq_some.mpr ⟨(sameRow schedule rfl).mpr hs, rfl⟩
      have hcontent : currentContent? store' schedule = currentContent? store schedule := by
        ext content
        rw [currentContent_eq, currentContent_eq]
        simp only [currentRow_congr sameHistory]
      unfold layout
      rw [hfind, hfind', Option.bind_some, Option.bind_some, hcontent]

theorem Commit.layout_other {schedule : ScheduleRow} {state : Candidate} {receipt : CommandRow}
    (commit : Commit store store' schedule state receipt) (hne : scheduleId ≠ schedule.id) :
    layout store' scheduleId = layout store scheduleId := by
  refine layout_congr (fun row hid => ?_) (commit.otherHistories scheduleId hne)
  rw [commit.schedules]
  constructor
  · rintro (⟨hrow, -⟩ | rfl)
    · exact hrow
    · exact absurd hid.symm hne
  · exact fun hrow => Or.inl ⟨hrow, hid ▸ hne⟩

theorem SourcesGrow.layout_eq (grow : SourcesGrow store store') :
    layout store' scheduleId = layout store scheduleId :=
  layout_congr (fun _ _ => by rw [grow.schedules]) (historyRows_congr grow.versions scheduleId)

/-- What one command may do to the layout of a schedule at its clock. -/
structure LayoutStep (store : Store) (now : Int) (previous next : List PlanBlock) : Prop where
  kept : ∀ block ∈ previous, TaskOpen store block.taskId →
    blockKey block ∉ next.map blockKey → block.locked = false ∧ now ≤ block.start
  notBackdated : ∀ block ∈ next, blockKey block ∉ previous.map blockKey → now ≤ block.start

/-- The open task of a block in force belongs to the owner, so its row is among
those the validation locks. -/
theorem Validated.layoutStep {candidate : Candidate} {now : Int} {tasks : List TaskRecord}
    {values : PreferenceValues} {report : LayoutReport} {schedule : ScheduleRow}
    {current : VersionRow} (ok : StoreOk zoneInfo store) (hs : schedule ∈ store.schedules)
    (hcurrent : CurrentRow store schedule current)
    (valid : Validated zoneInfo store schedule.userId candidate schedule.timezone
      (some current.state.toCandidate) now tasks values report) :
    LayoutStep store now current.state.content.blocks candidate.content.blocks := by
  refine ⟨fun block hb hopen hdropped => ?_, fun block hb hnew => ?_⟩
  · obtain ⟨row, hrow, hid, hopen⟩ := hopen
    obtain ⟨task, htask, htid, howner⟩ := ok.block_owner hs hcurrent hb
    have hsame := store.tasks.eq_of_key hrow htask (hid.trans htid.symm)
    subst hsame
    have hselected := current.state.content.blocksValid.2 block hb
    exact valid.placements.kept block hb row (liveRow_liveRows.mpr ⟨hrow, howner, hid,
      Or.inr ⟨current.state.toCandidate, rfl, hselected⟩⟩) hopen hdropped
  · by_contra hlt
    exact hnew (valid.placements.notBackdated block hb (not_le.mp hlt))

theorem Created.layoutStep {now stamp : Int} {data : ScheduleCreate} {result : ScheduleResult}
    {zone : String} {tasks : List TaskRecord} {values : PreferenceValues} {report : LayoutReport}
    (ok : StoreOk zoneInfo store)
    (created : Created zoneInfo store owner scheduleId now stamp data result store' zone tasks
      values report) (id : UUID) :
    layout store' id = layout store id ∨
      LayoutStep store now (layout store id) (layout store' id) := by
  by_cases hid : id = scheduleId
  · subst hid
    right
    have hnew := layout_eq ((created.commit.schedules _).mpr (Or.inr rfl)) (created.cursor ok)
    change layout store' id = data.content.blocks at hnew
    rw [layout_absent created.freshId, hnew]
    refine ⟨fun block hb => absurd hb List.not_mem_nil, fun block hb hnew => ?_⟩
    by_contra hlt
    exact hnew (created.valid.placements.notBackdated block hb (not_le.mp hlt))
  · exact Or.inl (created.commit.layout_other hid)

theorem Replaced.layoutStep {now stamp : Int} {data : ScheduleReplace} {result : ScheduleResult}
    {schedule : ScheduleRow} {current : VersionRow} {tasks : List TaskRecord}
    {values : PreferenceValues} {report : LayoutReport} (ok : StoreOk zoneInfo store)
    (replaced : Replaced zoneInfo store owner scheduleId now stamp data result store' schedule
      current tasks values report) (id : UUID) :
    layout store' id = layout store id ∨
      LayoutStep store now (layout store id) (layout store' id) := by
  have addressed := replaced.addressed
  have hsid := addressed.schedule_id
  have howner := addressed.schedule_user
  subst hsid howner
  by_cases hid : id = schedule.id
  · subst hid
    right
    have hnew : layout store' schedule.id = data.content.blocks :=
      layout_eq ((replaced.commit.schedules _).mpr (Or.inr rfl)) (replaced.cursor ok)
    rw [layout_eq addressed.schedule_mem addressed.currentRow, hnew]
    exact replaced.valid.layoutStep ok addressed.schedule_mem addressed.currentRow
  · exact Or.inl (replaced.commit.layout_other hid)

theorem Travelled.layoutStep {now stamp : Int} {data : HistoryCommand} {direction : Direction}
    {result : ScheduleResult} {schedule : ScheduleRow} {current goal : VersionRow}
    {tasks : List TaskRecord} {values : PreferenceValues} {report : LayoutReport}
    (ok : StoreOk zoneInfo store)
    (travelled : Travelled zoneInfo store owner scheduleId now stamp data direction result store'
      schedule current goal tasks values report) (id : UUID) :
    layout store' id = layout store id ∨
      LayoutStep store now (layout store id) (layout store' id) := by
  have addressed := travelled.addressed
  have hsid := addressed.schedule_id
  have howner := addressed.schedule_user
  subst hsid howner
  by_cases hid : id = schedule.id
  · subst hid
    right
    have hnew : layout store' (schedule.moved (data.expectedVersion + 1) goal.revision stamp).id =
        goal.state.content.blocks :=
      layout_eq ((travelled.commit.schedules _).mpr (Or.inr rfl)) travelled.cursor
    change layout store' schedule.id = _ at hnew
    rw [layout_eq addressed.schedule_mem addressed.currentRow, hnew]
    exact travelled.valid.layoutStep ok addressed.schedule_mem addressed.currentRow
  · exact Or.inl (travelled.commit.layout_other hid)

/-- One step leaves a layout alone, or changes it under the guard at the clock it
read. -/
theorem step_layout (ok : StoreOk zoneInfo store) (command : Command) (id : UUID) :
    layout (step zoneInfo store command) id = layout store id ∨
      ∃ now ∈ command.clock?,
        LayoutStep store now (layout store id) (layout (step zoneInfo store command) id) := by
  unfold step
  cases h : perform zoneInfo store command with
  | error error => exact Or.inl rfl
  | ok next =>
      cases command with
      | createSchedule _ _ _ now =>
          obtain ⟨answer, h⟩ := snd_map_ok h
          rcases create_ok h with ⟨-, rfl⟩ | ⟨zone, tasks, values, report, created⟩
          · exact Or.inl rfl
          · exact (created.layoutStep ok id).imp_right fun change => ⟨now, rfl, change⟩
      | replaceSchedule _ _ _ now =>
          obtain ⟨answer, h⟩ := snd_map_ok h
          rcases replace_ok h with ⟨-, rfl, -⟩ | ⟨schedule, current, tasks, values, report,
            replaced⟩
          · exact Or.inl rfl
          · exact (replaced.layoutStep ok id).imp_right fun change => ⟨now, rfl, change⟩
      | travelSchedule _ _ _ _ now =>
          obtain ⟨answer, h⟩ := snd_map_ok h
          rcases travel_ok h with ⟨-, rfl⟩ | ⟨schedule, current, goal, tasks, values, report,
            travelled⟩
          · exact Or.inl rfl
          · exact (travelled.layoutStep ok id).imp_right fun change => ⟨now, rfl, change⟩
      | _ => exact Or.inl (perform_sources h rfl).layout_eq

/-- A locked block of an open task keeps its placement. -/
theorem step_locked (ok : StoreOk zoneInfo store) (command : Command) {block : PlanBlock}
    (hb : block ∈ layout store scheduleId) (hlocked : block.locked = true)
    (hopen : TaskOpen store block.taskId) :
    blockKey block ∈ placements (step zoneInfo store command) scheduleId := by
  unfold placements
  rcases step_layout ok command scheduleId with hsame | ⟨now, -, change⟩
  · rw [hsame]
    exact List.mem_map_of_mem hb
  · by_contra hdropped
    have hfree := (change.kept block hb hopen hdropped).1
    rw [hlocked] at hfree
    contradiction

theorem step_notBackdated (ok : StoreOk zoneInfo store) (command : Command) {block : PlanBlock}
    (hb : block ∈ layout (step zoneInfo store command) scheduleId)
    (hnew : blockKey block ∉ placements store scheduleId) :
    ∃ now ∈ command.clock?, now ≤ block.start := by
  rcases step_layout ok command scheduleId with hsame | ⟨now, hnow, change⟩
  · rw [hsame] at hb
    exact absurd (List.mem_map_of_mem hb) hnew
  · exact ⟨now, hnow, change.notBackdated block hb hnew⟩

/-- A placement of an open task that started before the clock of a command
stays. -/
theorem step_started (ok : StoreOk zoneInfo store) (command : Command) {key : UUID × Int × Int}
    (hkey : key ∈ placements store scheduleId) (hopen : TaskOpen store key.1)
    (later : ∀ now ∈ command.clock?, key.2.1 < now) :
    key ∈ placements (step zoneInfo store command) scheduleId := by
  obtain ⟨block, hb, rfl⟩ := List.mem_map.mp hkey
  unfold placements
  rcases step_layout ok command scheduleId with hsame | ⟨now, hnow, change⟩
  · rw [hsame]
    exact hkey
  · by_contra hdropped
    have hstart := (change.kept block hb hopen hdropped).2
    have hlater := later now hnow
    simp only [blockKey] at hlater
    omega

end

theorem ClockFrom.le {now : Int} {commands : List Command} (clock : ClockFrom now commands)
    {command : Command} (hc : command ∈ commands) {read : Int} (hread : read ∈ command.clock?) :
    now ≤ read :=
  List.rel_of_pairwise_cons clock (List.mem_filterMap.mpr ⟨command, hc, hread⟩)

/-- Over every run, at every schedule. -/
theorem reached_placementsProtected (zoneInfo : String → Zone) (commands : List Command) :
    PlacementsProtected zoneInfo commands := by
  refine ⟨?_, ?_, ?_⟩
  · rintro before after - scheduleId now clock block hb hstart hopen
    unfold reached at hb hopen ⊢
    simp only [run_append] at hopen ⊢
    refine run_stays (I := fun state => blockKey block ∈ placements state scheduleId)
      (List.mem_map_of_mem hb) fun middle command hprefix hkey => ?_
    have ok := storeOk_reached zoneInfo (before ++ middle)
    unfold reached at ok
    rw [run_append] at ok
    refine step_started ok command hkey
      (hopen middle ((List.prefix_append middle [command]).trans hprefix)) fun read hread => ?_
    have hc : command ∈ after :=
      hprefix.subset (List.mem_append_right middle (List.mem_singleton_self command))
    exact hstart.trans_le (clock.le hc hread)
  · rintro store command ⟨before, after, -, rfl⟩ scheduleId block hb hlocked hopen
    exact step_locked (storeOk_reached zoneInfo before) command hb hlocked hopen
  · rintro store command ⟨before, after, -, rfl⟩ scheduleId block hb hnew
    exact step_notBackdated (storeOk_reached zoneInfo before) command hb hnew

/-- Half past nine: the essay saved at nine is moved to ten. -/
def lateMove : Command :=
  .replaceSchedule 1 7 ⟨⟨movedEssay, 11⟩, 1, versionValid_one⟩ (lectureTime 570) 0

/-- The essay that was saved at nine is still there after the attempt to move
it. -/
theorem reached_placementsProtected_essay :
    blockKey earlyEssay ∈
      placements (reached (fun _ => Zone.utc) (essayRun.take 3 ++ [lateMove])) 7 := by
  have saved : earlyEssay ∈ layout (reached (fun _ => Zone.utc) (essayRun.take 3)) 7 := by
    decide +kernel
  have pending : ((reached (fun _ => Zone.utc) (essayRun.take 3)).tasks.rows.any fun row =>
      decide (row.id = 1 ∧ OpenRow row)) = true := by
    decide +kernel
  have pendingAfter : ((reached (fun _ => Zone.utc)
      (essayRun.take 3 ++ [lateMove])).tasks.rows.any fun row =>
        decide (row.id = 1 ∧ OpenRow row)) = true := by
    decide +kernel
  refine (reached_placementsProtected (fun _ => Zone.utc) (essayRun.take 3 ++ [lateMove])).started
    (essayRun.take 3) [lateMove] rfl 7 (lectureTime 570) (by simp [ClockFrom, lateMove,
      Command.clock?]) earlyEssay saved (by decide) (fun middle hprefix => ?_) [lateMove]
    (List.prefix_refl _)
  rw [List.any_eq_true] at pending pendingAfter
  rcases List.prefix_cons_iff.mp hprefix with rfl | ⟨rest, rfl, hrest⟩
  · obtain ⟨row, hrow, htrue⟩ := pending
    exact ⟨row, hrow, of_decide_eq_true htrue⟩
  · rw [List.prefix_nil.mp hrest]
    obtain ⟨row, hrow, htrue⟩ := pendingAfter
    exact ⟨row, hrow, of_decide_eq_true htrue⟩

end SmartPlanner

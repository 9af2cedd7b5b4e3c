import SmartPlanner.HeldBlocks
import SmartPlanner.NoDoubleBooking
import SmartPlanner.ScheduleAccepts
import Mathlib.Data.Fintype.EquivFin

/-!
When a saved schedule can still be replaced. An edit of a task does not look at
saved schedules, so it can leave a held block that no longer suits its task; a
replacement exists exactly when there is no such block.
-/

namespace SmartPlanner

open Histories Outcome Sorting Tables ScheduleRepository

/-- Some replacement with a fresh request id is accepted. -/
def Replaceable (zoneInfo : String → Zone) (store : Store) (owner scheduleId : UUID)
    (now stamp : Int) : Prop :=
  ∃ data : ScheduleReplace, store.commands.find? (owner, data.clientRequestId) = none ∧
    ∃ result store', replace zoneInfo store owner scheduleId data now stamp = .ok (result, store')

/-- Any content over live tasks can be sent with the present versions. -/
theorem exists_candidate {store : Store} {owner : UUID} {title : String}
    (titleValid : TitleValid title) (content : ScheduleContent) {tasks : List TaskRecord}
    (records : RecordsOf store owner content.taskIds tasks) {row : PreferenceRow}
    (hrow : row ∈ store.preferences) (howner : row.userId = owner)
    (versionValid : VersionValid row.version) :
    ∃ candidate : Candidate, candidate.content = content ∧
      Current store owner candidate tasks row.values := by
  have ids : (tasks.map fun task => (task.id, task.version)).map Prod.fst = content.taskIds := by
    rw [← records.ids_eq, List.map_map]
    rfl
  refine ⟨⟨title, content, sortBy Prod.fst (tasks.map fun task => (task.id, task.version)),
    row.version, titleValid, ?_, fun entry hentry => ?_, fun id hid => ?_, versionValid⟩, rfl,
    records, fun task ht => ?_, row, hrow, howner, rfl, rfl⟩
  · refine sortBy_strict ?_
    rw [ids]
    exact content.planningValid.2.2.1
  · obtain ⟨task, ht, rfl⟩ := List.mem_map.mp (mem_sortBy.mp hentry)
    exact ⟨records.ids_eq ▸ List.mem_map_of_mem ht, task.valid.2.1⟩
  · rw [← ids] at hid
    obtain ⟨entry, hentry, rfl⟩ := List.mem_map.mp hid
    exact List.mem_map_of_mem (mem_sortBy.mpr hentry)
  · exact mem_sortBy.mpr (List.mem_map.mpr ⟨task, ht, rfl⟩)

theorem exists_unanswered (store : Store) (owner : UUID) :
    ∃ requestId, store.commands.find? (owner, requestId) = none := by
  obtain ⟨requestId, fresh⟩ :=
    Infinite.exists_notMem_finset (store.commands.rows.map (·.clientRequestId)).toFinset
  refine ⟨requestId, Table.find?_eq_none.mpr fun row hrow hkey => fresh ?_⟩
  rw [Prod.mk.injEq] at hkey
  rw [List.mem_toFinset, ← hkey.2]
  exact List.mem_map_of_mem hrow

theorem StoreOk.openTask_of_liveRow {zoneInfo : String → Zone} {store : Store}
    (ok : StoreOk zoneInfo store) {owner : UUID} {candidate : Candidate}
    {previous : Option Candidate} {taskId : UUID} {row : TaskRow}
    (hrow : liveRow (liveRows store owner candidate previous) taskId = some row)
    (hopen : OpenRow row) : openTask store owner taskId = true := by
  obtain ⟨hmem, howner, hid, -⟩ := liveRow_liveRows.mp hrow
  have valid := ok.sources.tasks row hmem hopen.1
  exact openTask_iff.mpr ⟨⟨row.toTaskColumns, valid⟩,
    Repository.getTask_ok.mpr ⟨row, hmem, hid, howner, hopen.1, rfl⟩, hopen.2⟩

section
variable {zoneInfo : String → Zone} {store : Store} {schedule : ScheduleRow}
  {current : VersionRow} (ok : StoreOk zoneInfo store) (hs : schedule ∈ store.schedules)
  (hcurrent : CurrentRow store schedule current) {now stamp : Int}
include ok hs hcurrent

/-- A replacement that was accepted moved no held block, and its layout suits the
present tasks. -/
theorem StoreOk.heldSuit
    (replaceable : Replaceable zoneInfo store schedule.userId schedule.id now stamp) :
    HeldSuit store schedule.userId current.state.content now := by
  obtain ⟨data, fresh, result, store', h⟩ := replaceable
  rcases replace_ok h with ⟨-, -, answered⟩ | ⟨row, version, tasks, values, report, replaced⟩
  · exact absurd fresh answered
  · have addressed := replaced.addressed
    have hrow := store.schedules.eq_of_key addressed.schedule_mem hs addressed.schedule_id
    subst hrow
    have hversion := addressed.currentRow.unique hcurrent
    subst hversion
    exact replaced.valid.heldSuit (ok.entry hs hcurrent).sound.blocksApart

/-- The held blocks alone are an acceptable replacement as soon as they suit the
present tasks. -/
theorem StoreOk.replaceable (limit : schedule.version < versionLimit)
    (suit : HeldSuit store schedule.userId current.state.content now) :
    Replaceable zoneInfo store schedule.userId schedule.id now stamp := by
  have scheduleOk := ok.schedules schedule hs
  have entry := ok.entry hs hcurrent
  set content := current.state.content.heldOnly store schedule.userId schedule.horizon now
    with hcontent
  obtain ⟨tasks, records⟩ : ∃ tasks, RecordsOf store schedule.userId content.taskIds tasks := by
    refine recordsOf_exists ok.sources.tasks fun id hid => ?_
    obtain ⟨task, hread, -⟩ := openTask_iff.mp (List.mem_filter.mp hid).2
    obtain ⟨row, hrow, hsame, howner, hlive, -⟩ := Repository.getTask_ok.mp hread
    exact ⟨row, hrow, hsame, howner, hlive⟩
  obtain ⟨preference, hpreference, howner, -⟩ := entry.known.preferences
  obtain ⟨candidate, hcandidate, present⟩ := exists_candidate
    current.state.candidateValid.1 content records hpreference howner
    (ok.sources.preferences preference hpreference)
  have layout := heldOnly_layoutOk entry.sound entry.horizonStart entry.horizonStop records suit
  obtain ⟨report, inspected⟩ := inspectLayout_total preference.values layout
  obtain ⟨requestId, unanswered⟩ := exists_unanswered store schedule.userId
  rw [← hcontent, ← hcandidate] at layout inspected
  have valid : Validated zoneInfo store schedule.userId candidate schedule.timezone
      (some current.state.toCandidate) now tasks preference.values report := by
    refine ⟨present, nofun, ?_, ?_, inspected, ?_⟩
    · intro old hold
      cases hold
      rw [hcandidate]
      exact ⟨rfl, rfl⟩
    · rw [hcandidate]
      exact heldOnly_placements fun taskId row hrow => ok.openTask_of_liveRow hrow
    · rw [hcandidate]
      simp [hcontent, ScheduleContent.heldOnly]
  have free : TasksFree store schedule.userId schedule.id candidate := by
    rintro row hrow hrowner ⟨block, hb, hid⟩
    rw [hcandidate] at hb
    have held := (ok.allocated schedule hs current hcurrent block.taskId).mpr
      ⟨block, List.mem_of_mem_filter hb, rfl⟩
    have hsame := store.allocations.eq_of_key hrow held (by rw [hrowner, hid])
    rw [hsame]
  have addressed : Addressed store schedule.userId schedule.id requestId schedule.version schedule
      current :=
    ⟨scheduleOk.account, hs, rfl, rfl, hcurrent.1, hcurrent.2, unanswered, rfl, limit⟩
  obtain ⟨result, store', h, -⟩ : ∃ result store', replace zoneInfo store schedule.userId
      schedule.id ⟨⟨candidate, requestId⟩, schedule.version, scheduleOk.positive, limit.le⟩ now
      stamp = .ok (result, store') ∧ result.replayed = false :=
    replace_total stamp addressed scheduleOk.bounded valid free
  exact ⟨_, unanswered, result, store', h⟩

end

/-- What an accepted replacement says of the layout it replaces. -/
theorem heldSuit_of_replaceable {zoneInfo : String → Zone} {store : Store}
    {owner scheduleId : UUID} {saved : SavedSchedule} {now stamp : Int}
    (ok : StoreOk zoneInfo store) (shown : view store owner scheduleId = .ok saved)
    (replaceable : Replaceable zoneInfo store owner scheduleId now stamp) :
    HeldSuit store owner saved.state.content now := by
  obtain ⟨schedule, hs, rfl, rfl, current, hcurrent, hstate, -⟩ := view_ok shown
  rw [hstate]
  exact ok.heldSuit hs hcurrent replaceable

/-- In every reachable store and at every clock, a saved schedule can be replaced
exactly when the blocks that are held in it suit the tasks as they are now. -/
theorem replaceable_iff_heldSuit (zoneInfo : String → Zone) (commands : List Command)
    (owner scheduleId : UUID) (saved : SavedSchedule)
    (shown : view (reached zoneInfo commands) owner scheduleId = .ok saved)
    (limit : saved.version < versionLimit) (now stamp : Int) :
    Replaceable zoneInfo (reached zoneInfo commands) owner scheduleId now stamp ↔
      HeldSuit (reached zoneInfo commands) owner saved.state.content now := by
  have ok := storeOk_reached zoneInfo commands
  refine ⟨heldSuit_of_replaceable ok shown, fun suit => ?_⟩
  obtain ⟨schedule, hs, rfl, rfl, current, hcurrent, hstate, hversion, -⟩ := view_ok shown
  rw [hstate] at suit
  rw [hversion] at limit
  exact ok.replaceable hs hcurrent limit suit

/-- The save of the moved essay once more. -/
def keepEssay : ScheduleReplace := ⟨⟨movedEssay, 12⟩, 2, by decide⟩

/-- Ten minutes after its start the moved essay is held, and may stay. -/
theorem replaceable_iff_heldSuit_essay :
    ∃ saved, view (reached (fun _ => Zone.utc) essayRun) 1 7 = .ok saved ∧
      heldBlocks saved.state.content.blocks (lectureTime 610) 1 ≠ [] ∧
      HeldSuit (reached (fun _ => Zone.utc) essayRun) 1 saved.state.content (lectureTime 610) := by
  have shown : okAnd (view (reached (fun _ => Zone.utc) essayRun) 1 7) (fun saved =>
      decide (saved.version < versionLimit ∧
        heldBlocks saved.state.content.blocks (lectureTime 610) 1 ≠ [])) = true := by
    decide +kernel
  have kept : okAnd (replace (fun _ => Zone.utc) (reached (fun _ => Zone.utc) essayRun) 1 7
      keepEssay (lectureTime 610) 0) (fun _ => true) = true := by
    decide +kernel
  have unanswered : (reached (fun _ => Zone.utc) essayRun).commands.find?
      (1, keepEssay.clientRequestId) = none := by
    decide +kernel
  obtain ⟨saved, h, hsaved⟩ := exists_of_okAnd shown
  obtain ⟨limit, held⟩ := of_decide_eq_true hsaved
  obtain ⟨⟨result, store'⟩, hkept, -⟩ := exists_of_okAnd kept
  have replaceable : Replaceable (fun _ => Zone.utc) (reached (fun _ => Zone.utc) essayRun) 1 7
      (lectureTime 610) 0 := ⟨keepEssay, unanswered, result, store', hkept⟩
  exact ⟨saved, h, held, (replaceable_iff_heldSuit (fun _ => Zone.utc) essayRun 1 7 saved h limit
    (lectureTime 610) 0).mp replaceable⟩

def lockedEssay : PlanBlock := earlyEssay.lock

/-- The essay becomes half as long. -/
def shorterEssay : TaskPatch where
  expectedVersion := 1
  title := none
  description := none
  durationMinutes := some 30
  priority := none
  splittable := none
  preferredPeriod := none
  status := none
  earliestStart := none
  deadline := none
  versionValid := versionValid_one
  valuesValid := by simp
  someChange := by decide

/-- A locked hour, and then half an hour of work. -/
def shortenedRun : List Command :=
  [.register 1 "student" "UTC" 0, .createTask 1 essayCreate 1 0,
    .createSchedule 1 ⟨essayCandidate lockedEssay rfl [] noEvents_few, 10⟩ 7 (lectureTime 480) 0,
    .updateTask 1 1 shorterEssay 0]

/-- No replacement of that schedule is accepted at any clock. -/
theorem replaceable_shortened_wedged :
    ∃ saved, view (reached (fun _ => Zone.utc) shortenedRun) 1 7 = .ok saved ∧
      saved.version < versionLimit ∧
      ∀ now stamp, ¬ Replaceable (fun _ => Zone.utc) (reached (fun _ => Zone.utc) shortenedRun) 1 7
        now stamp := by
  have shown : okAnd (view (reached (fun _ => Zone.utc) shortenedRun) 1 7) (fun saved =>
      decide (saved.version < versionLimit ∧ saved.state.content.blocks = [lockedEssay])) =
        true := by
    decide +kernel
  have read : okAnd (Repository.getTask (reached (fun _ => Zone.utc) shortenedRun) 1 1)
      (fun task => decide (task.status = .pending ∧ task.durationMinutes = 30)) = true := by
    decide +kernel
  obtain ⟨saved, h, hsaved⟩ := exists_of_okAnd shown
  obtain ⟨limit, hblocks⟩ := of_decide_eq_true hsaved
  obtain ⟨task, hread, htask⟩ := exists_of_okAnd read
  obtain ⟨hpending, hduration⟩ := of_decide_eq_true htask
  have ok := storeOk_reached (fun _ => Zone.utc) shortenedRun
  clear shown read
  generalize reached (fun _ => Zone.utc) shortenedRun = store at ok h hread ⊢
  refine ⟨saved, h, limit, fun now stamp replaceable => ?_⟩
  have suits := heldSuit_of_replaceable ok h replaceable 1 task hread hpending
  have held : heldBlocks saved.state.content.blocks now 1 = [lockedEssay] := by
    rw [hblocks]
    rfl
  have hshare := suits.share.1
  rw [held, hduration] at hshare
  exact absurd hshare (by decide)

end SmartPlanner

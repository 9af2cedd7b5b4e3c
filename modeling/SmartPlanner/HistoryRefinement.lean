import SmartPlanner.StoreReached
import SmartPlanner.CheckErrors

/-!
The stored history of a schedule refines a bounded zipper: its versions in
revision order are past, current and future, a replace pushes, and an undo or a
redo moves the cursor by one.
-/

namespace SmartPlanner

open Histories Outcome Tables ScheduleRepository

/-- The states a command can move to. -/
def Direction.side {α : Type} (z : Zipper α) : Direction → List α
  | .undo => z.past
  | .redo => z.future

def Direction.move {α : Type} (z : Zipper α) : Direction → Option (Zipper α)
  | .undo => z.undo
  | .redo => z.redo

theorem Direction.move_eq_none {α : Type} {z : Zipper α} {direction : Direction} :
    direction.move z = none ↔ direction.side z = [] := by
  cases direction with
  | undo => exact Zipper.undo_eq_none
  | redo => exact Zipper.redo_eq_none

theorem Direction.move_toList {α : Type} {z z' : Zipper α} {direction : Direction}
    (h : direction.move z = some z') : z'.toList = z.toList := by
  cases direction with
  | undo => exact Zipper.undo_toList h
  | redo => exact Zipper.redo_toList h

/-- The versions of a schedule, with its cursor, form this zipper. -/
structure Shows (store : Store) (schedule : ScheduleRow) (z : Zipper VersionRow) : Prop where
  rows : historyRows store schedule.id = z.toList
  cursor : z.current.revision = schedule.currentRevision

theorem shows_cursorAt {store : Store} {schedule : ScheduleRow} {current : VersionRow}
    (hcurrent : CurrentRow store schedule current) :
    Shows store schedule
      (Zipper.cursorAt (·.revision) (historyRows store schedule.id) current) :=
  ⟨(historyRows_zipper hcurrent).symm, hcurrent.2⟩

section
variable {store : Store} {schedule : ScheduleRow} {z : Zipper VersionRow}
  (shows : Shows store schedule z)
include shows

theorem Shows.currentRow : CurrentRow store schedule z.current :=
  ⟨by rw [shows.rows]; simp [Zipper.toList], shows.cursor⟩

theorem Shows.eq_cursorAt :
    z = Zipper.cursorAt (·.revision) (historyRows store schedule.id) z.current := by
  have increasing := historyRows_increasing store schedule.id
  rw [shows.rows] at increasing ⊢
  exact (Zipper.cursorAt_eq increasing).symm

theorem Shows.unique {z' : Zipper VersionRow} (shows' : Shows store schedule z') : z' = z := by
  rw [shows.eq_cursorAt, shows'.eq_cursorAt, shows'.currentRow.unique shows.currentRow]

theorem Shows.mem_past {row : VersionRow} :
    row ∈ z.past ↔
      row ∈ historyRows store schedule.id ∧ row.revision < schedule.currentRevision := by
  rw [shows.eq_cursorAt]
  simp [Zipper.cursorAt, shows.cursor]

theorem Shows.mem_future {row : VersionRow} :
    row ∈ z.future ↔
      row ∈ historyRows store schedule.id ∧ schedule.currentRevision < row.revision := by
  rw [shows.eq_cursorAt]
  simp [Zipper.cursorAt, shows.cursor]

/-- The neighbour query finds the current state of the moved zipper. -/
theorem Shows.target_eq (direction : Direction) :
    target store schedule.id schedule.currentRevision direction =
      (direction.move z).map (·.current) := by
  have heq := shows.eq_cursorAt
  cases direction with
  | undo =>
      have hpast := congrArg Zipper.past heq
      simp only [Zipper.cursorAt, shows.cursor] at hpast
      unfold target Direction.move Zipper.undo
      rw [← hpast]
      cases z.past.getLast? <;> rfl
  | redo =>
      have hfuture := congrArg Zipper.future heq
      simp only [Zipper.cursorAt, shows.cursor] at hfuture
      unfold target Direction.move Zipper.redo
      rw [← hfuture]
      cases z.future <;> rfl

theorem Shows.header (hs : schedule ∈ store.schedules) :
    ∃ found, header store schedule.userId schedule.id = .ok found ∧
      found.schedule = schedule ∧ found.state = z.current.state ∧
      (found.canUndo = true ↔ z.past ≠ []) ∧ (found.canRedo = true ↔ z.future ≠ []) := by
  obtain ⟨hmem, hrevision⟩ := shows.currentRow
  obtain ⟨found, hfound, hschedule, hstate⟩ := header_total hs hmem hrevision
  obtain ⟨-, -, -, -, -, -, -, hundo, hredo⟩ := header_ok.mp hfound
  rw [hschedule] at hundo hredo
  refine ⟨found, hfound, hschedule, hstate, ?_, ?_⟩
  · rw [hundo]
    simp only [List.any_eq_true, Bool.and_eq_true, decide_eq_true_eq]
    constructor
    · rintro ⟨row, hrow, hid, hlt⟩
      exact List.ne_nil_of_mem (shows.mem_past.mpr ⟨mem_historyRows.mpr ⟨hrow, hid⟩, hlt⟩)
    · intro hne
      obtain ⟨row, hrow⟩ := List.exists_mem_of_ne_nil _ hne
      obtain ⟨hin, hlt⟩ := shows.mem_past.mp hrow
      exact ⟨row, (mem_historyRows.mp hin).1, (mem_historyRows.mp hin).2, hlt⟩
  · rw [hredo]
    simp only [List.any_eq_true, Bool.and_eq_true, decide_eq_true_eq]
    constructor
    · rintro ⟨row, hrow, hid, hlt⟩
      exact List.ne_nil_of_mem (shows.mem_future.mpr ⟨mem_historyRows.mpr ⟨hrow, hid⟩, hlt⟩)
    · intro hne
      obtain ⟨row, hrow⟩ := List.exists_mem_of_ne_nil _ hne
      obtain ⟨hin, hlt⟩ := shows.mem_future.mp hrow
      exact ⟨row, (mem_historyRows.mp hin).1, (mem_historyRows.mp hin).2, hlt⟩

theorem Shows.view (hs : schedule ∈ store.schedules) :
    ∃ saved, view store schedule.userId schedule.id = .ok saved ∧
      saved.state = z.current.state ∧ (saved.canUndo = true ↔ z.past ≠ []) ∧
      (saved.canRedo = true ↔ z.future ≠ []) := by
  obtain ⟨found, hheader, -, hstate, hundo, hredo⟩ := shows.header hs
  unfold ScheduleRepository.view
  rw [hheader]
  exact ⟨_, rfl, hstate, hundo, hredo⟩

end

/-- The row of a schedule after a command: one version later. -/
def Advanced (store' : Store) (schedule schedule' : ScheduleRow) : Prop :=
  schedule' ∈ store'.schedules ∧ schedule'.id = schedule.id ∧
    schedule'.version = schedule.version + 1

section
variable {zoneInfo : String → Zone} {store store' : Store} {owner : UUID}
  {schedule : ScheduleRow} {z : Zipper VersionRow} {now stamp : Int} {result : ScheduleResult}

theorem Replaced.pushes {data : ScheduleReplace} {scheduleId : UUID} {current : VersionRow}
    {tasks : List TaskRecord} {values : PreferenceValues} {report : LayoutReport}
    (ok : StoreOk zoneInfo store) (shows : Shows store schedule z)
    (replaced : Replaced zoneInfo store owner scheduleId now stamp data result store' schedule
      current tasks values report) :
    ∃ schedule' next, Advanced store' schedule schedule' ∧
      next.state.toCandidate = data.toCandidate ∧
      Shows store' schedule' (z.push historyLimit next) := by
  have addressed := replaced.addressed
  have history := replaced.history_push ok
  rw [addressed.currentRow.unique shows.currentRow, ← shows.eq_cursorAt] at history
  refine ⟨_, _, ⟨(replaced.commit.schedules _).mpr (Or.inr rfl), rfl, ?_⟩, ?_, history, rfl⟩
  · rw [addressed.version_eq]
    rfl
  · rfl

theorem Travelled.moves {data : HistoryCommand} {direction : Direction} {scheduleId : UUID}
    {current goal : VersionRow} {tasks : List TaskRecord} {values : PreferenceValues}
    {report : LayoutReport} (shows : Shows store schedule z)
    (travelled : Travelled zoneInfo store owner scheduleId now stamp data direction result store'
      schedule current goal tasks values report) :
    ∃ schedule' z', Advanced store' schedule schedule' ∧ direction.move z = some z' ∧
      store'.versions = store.versions ∧ Shows store' schedule' z' := by
  have addressed := travelled.addressed
  have hid := addressed.schedule_id
  subst hid
  have neighbour := travelled.neighbour
  rw [shows.target_eq, Option.map_eq_some_iff] at neighbour
  obtain ⟨z', hmove, rfl⟩ := neighbour
  refine ⟨_, z', ⟨(travelled.commit.schedules _).mpr (Or.inr rfl), rfl, ?_⟩, hmove,
    travelled.versions, ?_, rfl⟩
  · rw [addressed.version_eq]
    rfl
  · rw [Direction.move_toList hmove, ← shows.rows]
    exact historyRows_congr travelled.versions schedule.id

/-- A replace that commits pushes its state. -/
theorem replace_pushes {data : ScheduleReplace} (ok : StoreOk zoneInfo store)
    (hs : schedule ∈ store.schedules) (shows : Shows store schedule z)
    (h : replace zoneInfo store owner schedule.id data now stamp = .ok (result, store'))
    (committed : result.replayed = false) :
    ∃ schedule' next, Advanced store' schedule schedule' ∧
      next.state.toCandidate = data.toCandidate ∧
      Shows store' schedule' (z.push historyLimit next) := by
  rcases replace_ok h with ⟨hreplayed, -⟩ | ⟨found, current, tasks, values, report, replaced⟩
  · rw [committed] at hreplayed
    contradiction
  · have addressed := replaced.addressed
    have hsame := store.schedules.eq_of_key addressed.schedule_mem hs addressed.schedule_id
    subst hsame
    exact replaced.pushes ok shows

/-- An undo or a redo that commits moves the cursor by one and leaves the rows. -/
theorem travel_moves {data : HistoryCommand} {direction : Direction}
    (hs : schedule ∈ store.schedules) (shows : Shows store schedule z)
    (h : travel zoneInfo store owner schedule.id data direction now stamp =
      .ok (result, store')) (committed : result.replayed = false) :
    ∃ schedule' z', Advanced store' schedule schedule' ∧ direction.move z = some z' ∧
      store'.versions = store.versions ∧ Shows store' schedule' z' := by
  rcases travel_ok h with ⟨hreplayed, -⟩ | ⟨found, current, goal, tasks, values, report, travelled⟩
  · rw [committed] at hreplayed
    contradiction
  · have addressed := travelled.addressed
    have hsame := store.schedules.eq_of_key addressed.schedule_mem hs addressed.schedule_id
    subst hsame
    exact travelled.moves shows

/-- Every step of the service is a step of the zipper, which also advances the
version, or leaves the schedule alone. -/
theorem step_simulates (ok : StoreOk zoneInfo store) (hs : schedule ∈ store.schedules)
    (shows : Shows store schedule z) (command : Command) :
    ∃ schedule' z', schedule' ∈ (step zoneInfo store command).schedules ∧
      schedule'.id = schedule.id ∧ Shows (step zoneInfo store command) schedule' z' ∧
      ((schedule' = schedule ∧ z' = z) ∨
        (schedule'.version = schedule.version + 1 ∧ Zipper.Step historyLimit z z')) := by
  have alone : ∀ store', schedule ∈ store'.schedules →
      historyRows store' schedule.id = historyRows store schedule.id →
      ∃ schedule' z', schedule' ∈ store'.schedules ∧ schedule'.id = schedule.id ∧
        Shows store' schedule' z' ∧ ((schedule' = schedule ∧ z' = z) ∨
          (schedule'.version = schedule.version + 1 ∧ Zipper.Step historyLimit z z')) :=
    fun store' hmem hsame =>
      ⟨schedule, z, hmem, rfl, ⟨hsame.trans shows.rows, shows.cursor⟩, Or.inl ⟨rfl, rfl⟩⟩
  have transition : Transition zoneInfo store (step zoneInfo store command) :=
    step_transition store command
  generalize step zoneInfo store command = store' at transition
  cases transition with
  | sources h => exact alone store' (h.schedules ▸ hs) (historyRows_congr h.versions schedule.id)
  | @created _ scheduleId _ _ _ _ _ _ _ _ h =>
      have hne : schedule.id ≠ scheduleId := h.freshId schedule hs
      exact alone store' ((h.commit.schedules schedule).mpr (Or.inl ⟨hs, hne⟩))
        (h.commit.otherHistories schedule.id hne)
  | @replaced _ _ _ _ _ _ found _ _ _ _ h =>
      by_cases hid : schedule.id = found.id
      · have hsame := store.schedules.eq_of_key hs h.addressed.schedule_mem hid
        subst hsame
        obtain ⟨schedule', next, advanced, -, shows'⟩ := h.pushes ok shows
        exact ⟨schedule', _, advanced.1, advanced.2.1, shows', Or.inr ⟨advanced.2.2, .push next⟩⟩
      · exact alone store' ((h.commit.schedules schedule).mpr (Or.inl ⟨hs, hid⟩))
          (h.commit.otherHistories schedule.id hid)
  | @travelled _ _ _ _ _ direction _ found _ goal _ _ _ h =>
      by_cases hid : schedule.id = found.id
      · have hsame := store.schedules.eq_of_key hs h.addressed.schedule_mem hid
        subst hsame
        obtain ⟨schedule', z', advanced, hmove, -, shows'⟩ := h.moves shows
        refine ⟨schedule', z', advanced.1, advanced.2.1, shows', Or.inr ⟨advanced.2.2, ?_⟩⟩
        cases direction with
        | undo => exact .undo hmove
        | redo => exact .redo hmove
      · exact alone store' ((h.commit.schedules schedule).mpr (Or.inl ⟨hs, hid⟩))
          (h.commit.otherHistories schedule.id hid)

/-- A history command that passes its version check fails at the boundary
exactly when there is nothing on its side. -/
theorem travel_boundary {data : HistoryCommand} {direction : Direction}
    (ok : StoreOk zoneInfo store) (hs : schedule ∈ store.schedules)
    (shows : Shows store schedule z)
    (fresh : store.commands.find? (schedule.userId, data.clientRequestId) = none)
    (current : schedule.version = data.expectedVersion) (below : schedule.version < versionLimit) :
    travel zoneInfo store schedule.userId schedule.id data direction now stamp =
        .error (.app .historyBoundary) ↔ direction.side z = [] := by
  obtain ⟨user, huser, hid⟩ := (ok.schedules schedule hs).account
  have hlock : ownerLock store schedule.userId = .ok user.timezone :=
    ownerLock_ok.mpr ⟨user, huser, hid, rfl⟩
  obtain ⟨found, hheader, hschedule, -⟩ := shows.header hs
  have hreplay : replay store schedule.userId data.clientRequestId
      (.travel direction schedule.id data) = .ok none := replay_none.mpr fresh
  have hversion : nextVersion found data.expectedVersion = .ok (data.expectedVersion + 1) :=
    nextVersion_ok.mpr ⟨by rw [hschedule, current], by omega, rfl⟩
  unfold travel
  rw [hlock, ok_bind, hheader, ok_bind, hreplay, ok_bind]
  simp only
  rw [hversion, ok_bind, hschedule, shows.target_eq, ← Direction.move_eq_none]
  cases hmove : direction.move z with
  | none => simp
  | some z' =>
      simp only [Option.map_some, reduceCtorEq, iff_false]
      intro h
      refine Raises.bind (offBoundary_validate _ _ _ _ _ _ _) (fun _ _ => ?_) _ h _ rfl rfl
      refine (offBoundary_allocations _ _ _ _).bind fun _ _ => ?_
      exact offBoundary_finish _ _ _ _ _ _

end

/-- What the history of a schedule promises: it is a zipper of at most
`historyLimit` versions, and the commands are its operations. -/
structure RefinesZipper (zoneInfo : String → Zone) (store : Store) (schedule : ScheduleRow)
    (z : Zipper VersionRow) : Prop where
  shows : Shows store schedule z
  short : z.toList.length ≤ historyLimit
  bounded : ∀ row ∈ z.toList, row.revision ≤ schedule.version
  flags : ∃ saved, view store schedule.userId schedule.id = .ok saved ∧
    saved.state = z.current.state ∧ (saved.canUndo = true ↔ z.past ≠ []) ∧
    (saved.canRedo = true ↔ z.future ≠ [])
  replace : ∀ owner data now stamp result store',
    replace zoneInfo store owner schedule.id data now stamp = .ok (result, store') →
    result.replayed = false → ∃ schedule' next, Advanced store' schedule schedule' ∧
      next.state.toCandidate = data.toCandidate ∧
      Shows store' schedule' (z.push historyLimit next)
  travel : ∀ owner data direction now stamp result store',
    travel zoneInfo store owner schedule.id data direction now stamp = .ok (result, store') →
    result.replayed = false → ∃ schedule' z', Advanced store' schedule schedule' ∧
      direction.move z = some z' ∧ store'.versions = store.versions ∧ Shows store' schedule' z'
  boundary : ∀ (data : HistoryCommand) (direction : Direction) (now stamp : Int),
    store.commands.find? (schedule.userId, data.clientRequestId) = none →
    schedule.version = data.expectedVersion → schedule.version < versionLimit →
    (ScheduleRepository.travel zoneInfo store schedule.userId schedule.id data direction now
      stamp = .error (.app .historyBoundary) ↔ direction.side z = [])
  simulates : ∀ command, ∃ schedule' z', schedule' ∈ (step zoneInfo store command).schedules ∧
    schedule'.id = schedule.id ∧ Shows (step zoneInfo store command) schedule' z' ∧
    ((schedule' = schedule ∧ z' = z) ∨
      (schedule'.version = schedule.version + 1 ∧ Zipper.Step historyLimit z z'))

theorem StoreOk.refinesZipper {zoneInfo : String → Zone} {store : Store}
    (ok : StoreOk zoneInfo store) {schedule : ScheduleRow} (hs : schedule ∈ store.schedules) :
    ∃ z, RefinesZipper zoneInfo store schedule z := by
  have scheduleOk := ok.schedules schedule hs
  obtain ⟨current, hcurrent⟩ := scheduleOk.cursor
  have shows := shows_cursorAt hcurrent
  have short := scheduleOk.short
  have bounded := scheduleOk.bounded
  rw [shows.rows] at short bounded
  refine ⟨_, shows, short, bounded, shows.view hs,
    fun owner data now stamp result store' h committed => replace_pushes ok hs shows h committed,
    fun owner data direction now stamp result store' h committed =>
      travel_moves hs shows h committed,
    fun data direction now stamp fresh version below =>
      travel_boundary ok hs shows fresh version below,
    step_simulates ok hs shows⟩

/-- In every reachable store the history of every schedule is a zipper. -/
theorem reached_refinesZipper (zoneInfo : String → Zone) (commands : List Command) :
    ∀ schedule ∈ (reached zoneInfo commands).schedules,
      ∃ z, RefinesZipper zoneInfo (reached zoneInfo commands) schedule z :=
  fun _ hs => (storeOk_reached zoneInfo commands).refinesZipper hs

theorem reached_refinesZipper_essay :
    ∃ schedule ∈ (reached (fun _ => Zone.utc) essayRun).schedules, schedule.version = 2 ∧
      ∃ z, RefinesZipper (fun _ => Zone.utc) (reached (fun _ => Zone.utc) essayRun) schedule z := by
  have saved : ∃ schedule ∈ (reached (fun _ => Zone.utc) essayRun).schedules.rows,
      schedule.version = 2 := by
    decide +kernel
  obtain ⟨schedule, hs, hversion⟩ := saved
  exact ⟨schedule, hs, hversion,
    reached_refinesZipper (fun _ => Zone.utc) essayRun schedule hs⟩

end SmartPlanner

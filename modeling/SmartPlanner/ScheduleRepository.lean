import SmartPlanner.Repository
import SmartPlanner.Scheduler
import Mathlib.Data.List.Dedup

/-!
`schedule_repository.py`: saved layouts with optimistic versions, a bounded
history and durable request receipts. The private methods keep their names
without the underscore.
-/

namespace SmartPlanner

open Outcome Sorting Tables

/-- `HISTORY_LIMIT`. -/
def historyLimit : Nat := 20

namespace AppError

def scheduleSourcesChanged : AppError :=
  ⟨409, .scheduleSourcesChanged, "کارها یا ترجیحات تغییر کرده‌اند؛ اطلاعات تازه را بگیرید و دوباره برنامه را بررسی کنید."⟩

def lockedPlacementConflict : AppError :=
  ⟨409, .lockedBlockConflict, "ابتدا قفل کار را در یک تغییر جدا باز کنید؛ سپس زمان آن را تغییر دهید."⟩

def startedBlockConflict : AppError :=
  ⟨409, .startedBlockConflict, "زمان کار شروع‌شده را نمی‌توان جابه‌جا یا حذف کرد."⟩

def pastBlock : AppError :=
  ⟨409, .pastBlock, "بلوک تازه یا جابه‌جاشده نباید در گذشته شروع شود."⟩

def pastScheduleDate : AppError :=
  ⟨422, .pastPlanningDate, "برنامهٔ تازه باید از امروز یا روزی در آینده شروع شود."⟩

def scheduleHorizonChanged : AppError :=
  ⟨409, .scheduleHorizonChanged, "تاریخ و طول محدودهٔ برنامهٔ ذخیره‌شده ثابت است."⟩

def fixedEventOutsideSavedHorizon : AppError :=
  ⟨422, .fixedEventOutsideSavedHorizon, "تعهد ثابت باید کامل داخل محدودهٔ ذخیره باشد؛ برنامهٔ هفتگی انتخاب کنید یا تعهد را در هر دو روز ثبت کنید."⟩

def taskAlreadyScheduled : AppError :=
  ⟨409, .taskAlreadyScheduled, "این کار در برنامهٔ دیگری زمان دارد؛ ابتدا زمان قبلی آن را بردارید."⟩

def commandRequestConflict : AppError :=
  ⟨409, .requestIdConflict, "شناسهٔ این درخواست قبلاً برای عمل یا محتوای دیگری استفاده شده است."⟩

def staleScheduleVersion : AppError :=
  ⟨409, .staleScheduleVersion, "برنامه در جای دیگری تغییر کرده است؛ نسخهٔ تازه را دریافت کنید."⟩

def scheduleVersionLimit : AppError :=
  ⟨409, .scheduleVersionLimit, "این برنامه به سقف تعداد تغییر رسیده است."⟩

def scheduleOverlap : AppError :=
  ⟨409, .scheduleOverlap, "برای بخشی از این بازه برنامه دارید؛ همان برنامه را ویرایش کنید."⟩

def historyBoundary : AppError :=
  ⟨409, .historyBoundary, "در این جهت نسخهٔ دیگری برای برگشت وجود ندارد."⟩

end AppError

def blockKey (block : PlanBlock) : UUID × Int × Int := (block.taskId, block.start, block.stop)

/-- `live_rows.get(task_id)`. -/
def liveRow (live : List TaskRow) (taskId : UUID) : Option TaskRow :=
  live.find? fun row => row.id = taskId

/-- The row of a block that still protects its placement. -/
def OpenRow (row : TaskRow) : Prop := row.deletedAt = none ∧ row.status = .pending

instance (row : TaskRow) : Decidable (OpenRow row) := inferInstanceAs (Decidable (_ ∧ _))

/-- The body of the loop of `protect_placements` over the previous blocks. -/
def protectBlock (candidate : List PlanBlock) (live : List TaskRow) (now : Int)
    (block : PlanBlock) : Except PyError Unit :=
  match liveRow live block.taskId with
  | none => .ok ()
  | some row =>
      if OpenRow row ∧ blockKey block ∉ candidate.map blockKey then do
        raiseIf (block.locked = true) (.app .lockedPlacementConflict)
        raiseIf (block.start < now) (.app .startedBlockConflict)
      else .ok ()

def protectPlacements (previous candidate : List PlanBlock) (live : List TaskRow) (now : Int) :
    Except PyError Unit := do
  previous.forM (protectBlock candidate live now)
  raiseIf (∃ block ∈ candidate, block.start < now ∧ blockKey block ∉ previous.map blockKey)
    (.app .pastBlock)

/-- The rows of `_header`: the schedule joined with its current version. -/
structure ScheduleHeader where
  schedule : ScheduleRow
  state : SavedState
  canUndo : Bool
  canRedo : Bool

namespace ScheduleRepository
variable (zoneInfo : String → Zone) (store : Store)

/-- `_owner_lock`: the timezone of the account. -/
def ownerLock (owner : UUID) : Except PyError String :=
  match store.users.find? owner with
  | some row => .ok row.timezone
  | none => .error (.app .notFound)

/-- The versions of a schedule, by revision. -/
def historyRows (scheduleId : UUID) : List VersionRow :=
  sortBy (·.revision) (store.versions.select fun row => row.scheduleId = scheduleId)

/-- `_header`. -/
def header (owner scheduleId : UUID) : Except PyError ScheduleHeader :=
  match store.schedules.rows.find? fun row => row.id = scheduleId && row.userId = owner with
  | none => .error (.app .notFound)
  | some schedule =>
      match store.versions.find? (scheduleId, schedule.currentRevision) with
      | none => .error (.app .notFound)
      | some version => .ok {
          schedule
          state := version.state
          canUndo := store.versions.rows.any fun row =>
            row.scheduleId = scheduleId && row.revision < schedule.currentRevision
          canRedo := store.versions.rows.any fun row =>
            row.scheduleId = scheduleId && schedule.currentRevision < row.revision }

/-- The part of `_view` that compares a state with its sources. -/
def sourceStatus (owner : UUID) (state : SavedState) : SourceStatus :=
  let preference? := store.preferences.find? owner
  let ids := state.taskVersions.map Prod.fst
  let live := if preference?.isSome then
    store.tasks.select fun row => row.userId = owner && row.id ∈ ids else []
  let missing := ids.filter fun id => !(liveRow live id).any (·.deletedAt = none)
  let changed := (state.taskVersions.filter fun (id, version) =>
    (liveRow live id).any fun row => row.deletedAt = none && row.version ≠ version).map Prod.fst
  let preferencesChanged := !preference?.any (·.version = state.preferenceVersion)
  { stale := missing ≠ [] || changed ≠ [] || preferencesChanged
    changedTaskIds := changed
    missingTaskIds := missing
    preferencesChanged }

/-- `_view`. -/
def view (owner scheduleId : UUID) : Except PyError SavedSchedule := do
  let row ← header store owner scheduleId
  return {
    id := row.schedule.id
    version := row.schedule.version
    historyRevision := row.schedule.currentRevision
    timezone := row.schedule.timezone
    horizon := row.schedule.horizon
    state := row.state
    sources := sourceStatus store owner row.state
    canUndo := row.canUndo
    canRedo := row.canRedo
    createdAt := row.schedule.createdAt
    updatedAt := row.schedule.updatedAt
  }

/-- A row of `list`: a schedule joined with its current version. -/
def summary (row : ScheduleRow) : Option ScheduleSummary :=
  (store.versions.find? (row.id, row.currentRevision)).map fun version =>
    ⟨row.id, version.state.title, row.version, row.timezone, row.horizon, row.updatedAt⟩

/-- A page of the schedules, latest change first. -/
def list (owner : UUID) (limit offset : Nat) : List ScheduleSummary :=
  let rows := sortBy (fun row : ScheduleRow => toLex (row.updatedAt, row.id))
    (store.schedules.select fun row => row.userId = owner)
  ((rows.reverse.filterMap (summary store)).drop offset).take limit

def history (owner scheduleId : UUID) : Except PyError (List HistoryEntry) := do
  let row ← header store owner scheduleId
  return (historyRows store scheduleId).filter (·.userId = owner) |>.map fun version =>
    ⟨version.revision, version.state.title,
      version.revision = row.schedule.currentRevision, version.createdAt⟩

/-- `_replay`. -/
def replay (owner requestId : UUID) (digest : CommandDigest) :
    Except PyError (Option ScheduleResult) :=
  match store.commands.find? (owner, requestId) with
  | none => .ok none
  | some receipt => do
      raiseIf (receipt.requestDigest ≠ digest) (.app .commandRequestConflict)
      let schedule ← view store owner receipt.scheduleId
      return some ⟨schedule, true, receipt.appliedVersion⟩

/-- The record of a selected task; the lookup cannot fail after the version
checks. -/
def selectedTask (live : List TaskRow) (taskId : UUID) : Except PyError TaskRecord :=
  match liveRow live taskId with
  | some row => TaskRecord.modelValidate row.toTaskColumns
  | none => .error .value

/-- The task rows `_sources` locks: those of both selections. -/
def liveRows (owner : UUID) (candidate : Candidate) (previous : Option Candidate) :
    List TaskRow :=
  store.tasks.select fun row => row.userId = owner &&
    row.id ∈ candidate.content.taskIds ++ (previous.map (·.content.taskIds)).getD []

/-- `_sources`: the selected tasks, the preferences and the locked rows. -/
def sources (owner : UUID) (candidate : Candidate) (previous : Option Candidate) :
    Except PyError (List TaskRecord × PreferenceRecord × List TaskRow) := do
  let live := liveRows store owner candidate previous
  match store.preferences.find? owner with
  | none => .error (.app .scheduleSourcesChanged)
  | some preferences => do
      raiseIf (preferences.version ≠ candidate.preferenceVersion) (.app .scheduleSourcesChanged)
      raiseIf (∃ entry ∈ candidate.taskVersions, ¬ ∃ row ∈ liveRow live entry.1,
        row.deletedAt = none ∧ row.version = entry.2) (.app .scheduleSourcesChanged)
      let tasks ← candidate.content.taskIds.mapM (selectedTask live)
      let preferences ← PreferenceRecord.modelValidate preferences
      return (tasks, preferences, live)

/-- The `SavedState` that `_validate` builds. -/
def savedState (candidate : Candidate) (tasks : List TaskRecord) (report : LayoutReport) :
    SavedState where
  toCandidate := candidate
  taskTitles := tasks.map fun task => (task.id, task.title)
  unscheduled := report.missing
  ignoredTaskIds := report.ignoredTaskIds
  warnings := report.warnings

/-- `_validate`, at the clock read after the locks. -/
def validate (owner : UUID) (candidate : Candidate) (zone : String)
    (previous : Option Candidate) (now : Int) : Except PyError (SavedState × TimeWindow) := do
  let (tasks, preferences, live) ← sources store owner candidate previous
  raiseIf (previous = none ∧ candidate.content.startDate < (zoneInfo zone).localDate now)
    (.app .pastScheduleDate)
  raiseIf (∃ old ∈ previous, (candidate.content.startDate, candidate.content.days) ≠
    (old.content.startDate, old.content.days)) (.app .scheduleHorizonChanged)
  protectPlacements ((previous.map (·.content.blocks)).getD []) candidate.content.blocks live now
  let report ← inspectLayout zoneInfo candidate.content.toPlanningWindow
    candidate.content.blocks tasks preferences.toPreferenceValues zone
  raiseIf (∃ event ∈ candidate.content.fixedEvents,
    event.start < report.horizon.start ∨ report.horizon.stop < event.stop)
    (.app .fixedEventOutsideSavedHorizon)
  return (savedState candidate tasks report, report.horizon)

/-- The tasks that have a block, once each, in key order. -/
def allocatedIds (state : Candidate) : List UUID :=
  sortBy id (state.content.blocks.map (·.taskId)).dedup

/-- `_allocations`. -/
def allocations (owner scheduleId : UUID) (state : Candidate) : Except PyError Store := do
  let ids := allocatedIds state
  raiseIf (∃ row ∈ store.allocations.rows,
    row.userId = owner ∧ row.taskId ∈ ids ∧ row.scheduleId ≠ scheduleId)
    (.app .taskAlreadyScheduled)
  let cleared := store.allocations.delete fun row =>
    row.userId = owner && row.scheduleId = scheduleId
  let table ← insertRows cleared (ids.map fun taskId => ⟨owner, taskId, scheduleId⟩)
  return { store with allocations := table }

/-- `_insert_state`. -/
def insertState (owner scheduleId : UUID) (revision : Nat) (state : SavedState) (stamp : Int) :
    Except PyError Store := do
  let versions ← insertRow store.versions ⟨scheduleId, owner, revision, state, stamp⟩
  return { store with versions }

/-- `DELETE FROM schedule_versions WHERE schedule_id=... AND ...`. -/
def deleteVersions (scheduleId : UUID) (q : VersionRow → Bool) : Store :=
  { store with versions := store.versions.delete fun row => row.scheduleId = scheduleId && q row }

/-- `_finish`. -/
def finish (owner scheduleId requestId : UUID) (digest : CommandDigest) (version : Nat) :
    Except PyError (ScheduleResult × Store) := do
  let commands ← insertRow store.commands ⟨owner, requestId, scheduleId, digest, version⟩
  let store := { store with commands }
  let schedule ← view store owner scheduleId
  return (⟨schedule, false, version⟩, store)

/-- `_next_version`. -/
def nextVersion (header : ScheduleHeader) (expected : Nat) : Except PyError Nat := do
  raiseIf (header.schedule.version ≠ expected) (.app .staleScheduleVersion)
  raiseIf (versionLimit ≤ expected) (.app .scheduleVersionLimit)
  return expected + 1

/-- `UPDATE schedules SET version, current_revision, updated_at`. -/
def moveCursor (owner scheduleId : UUID) (version revision : Nat) (stamp : Int) : Store :=
  { store with
    schedules := store.schedules.update
      (fun row => row.id = scheduleId && row.userId = owner)
      (fun row => { row with
        version, currentRevision := revision, updatedAt := greatest stamp row.updatedAt })
      fun _ => rfl }

/-- The revisions that survive the pruning: the newest `HISTORY_LIMIT`. -/
def keptRevisions (scheduleId : UUID) : List Nat :=
  ((historyRows store scheduleId).reverse.take historyLimit).map (·.revision)

def create (owner : UUID) (data : ScheduleCreate) (scheduleId : UUID) (now stamp : Int) :
    Except PyError (ScheduleResult × Store) := do
  let digest := CommandDigest.create data
  let zone ← ownerLock store owner
  match ← replay store owner data.clientRequestId digest with
  | some result => return (result, store)
  | none => do
      let (state, horizon) ← validate zoneInfo store owner data.toCandidate zone none now
      raiseIf (∃ row ∈ store.schedules.rows, row.userId = owner ∧
        row.horizon.start < horizon.stop ∧ horizon.start < row.horizon.stop)
        (.app .scheduleOverlap)
      let schedules ← insertRow store.schedules
        ⟨scheduleId, owner, horizon, zone, 1, 1, stamp, stamp⟩
      let store ← insertState { store with schedules } owner scheduleId 1 state stamp
      let store ← allocations store owner scheduleId state.toCandidate
      finish store owner scheduleId data.clientRequestId digest 1

def replace (owner scheduleId : UUID) (data : ScheduleReplace) (now stamp : Int) :
    Except PyError (ScheduleResult × Store) := do
  let digest := CommandDigest.replace scheduleId data
  let _ ← ownerLock store owner
  let header ← header store owner scheduleId
  match ← replay store owner data.clientRequestId digest with
  | some result => return (result, store)
  | none => do
      let version ← nextVersion header data.expectedVersion
      let (state, _) ← validate zoneInfo store owner data.toCandidate header.schedule.timezone
        (some header.state.toCandidate) now
      let store ← allocations store owner scheduleId state.toCandidate
      let store := deleteVersions store scheduleId fun row =>
        header.schedule.currentRevision < row.revision
      let store ← insertState store owner scheduleId version state stamp
      let store := moveCursor store owner scheduleId version version stamp
      let kept := keptRevisions store scheduleId
      let store := deleteVersions store scheduleId fun row => row.revision ∉ kept
      finish store owner scheduleId data.clientRequestId digest version

/-- The neighbour in a direction: the nearest lower or higher revision. -/
def target (scheduleId : UUID) (revision : Nat) : Direction → Option VersionRow
  | .undo => ((historyRows store scheduleId).filter (·.revision < revision)).getLast?
  | .redo => ((historyRows store scheduleId).filter (revision < ·.revision)).head?

def travel (owner scheduleId : UUID) (data : HistoryCommand) (direction : Direction)
    (now stamp : Int) : Except PyError (ScheduleResult × Store) := do
  let digest := CommandDigest.travel direction scheduleId data
  let _ ← ownerLock store owner
  let header ← header store owner scheduleId
  match ← replay store owner data.clientRequestId digest with
  | some result => return (result, store)
  | none => do
      let version ← nextVersion header data.expectedVersion
      match target store scheduleId header.schedule.currentRevision direction with
      | none => .error (.app .historyBoundary)
      | some row => do
          let _ ← validate zoneInfo store owner row.state.toCandidate header.schedule.timezone
            (some header.state.toCandidate) now
          let store ← allocations store owner scheduleId row.state.toCandidate
          let store := moveCursor store owner scheduleId version row.revision stamp
          finish store owner scheduleId data.clientRequestId digest version

end ScheduleRepository

end SmartPlanner

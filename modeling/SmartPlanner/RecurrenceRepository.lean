import SmartPlanner.Repository

/-!
`recurrence_repository.py`: patterns and the atomic, retry-safe materialization
of their occurrences as ordinary tasks.
-/

namespace SmartPlanner

open Outcome Sorting Tables

namespace AppError

def recurrenceRequestConflict : AppError :=
  ⟨409, .requestIdConflict, "شناسهٔ درخواست قبلاً برای دادهٔ دیگری استفاده شده است."⟩

def recurrenceRequestDeleted : AppError :=
  ⟨409, .requestAlreadyDeleted, "الگوی این درخواست قبلاً حذف شده است."⟩

end AppError

/-- `RecurrenceRecord.model_validate(row)`. -/
def RecurrenceRecord.modelValidate (row : RecurrenceRow) : Except PyError RecurrenceRecord :=
  if h : VersionValid row.version then
    .ok ⟨⟨row.values, row.clientRequestId⟩, row.id, row.userId, row.timezone, row.version,
      row.createdAt, row.updatedAt, h⟩
  else .error .validation

namespace RecurrenceRepository
variable (store : Store)

/-- `_get`. -/
def get (owner recurrenceId : UUID) : Except PyError RecurrenceRecord :=
  match store.recurrences.rows.find? fun row =>
      row.id = recurrenceId && row.userId = owner && row.deletedAt = none with
  | some row => RecurrenceRecord.modelValidate row
  | none => .error (.app .notFound)

/-- A page of the live patterns, newest first. -/
def list (owner : UUID) (limit offset : Nat) : Except PyError (List RecurrenceRecord) :=
  let rows := sortBy (fun row : RecurrenceRow => toLex (row.createdAt, row.id))
    (store.recurrences.select fun row => row.userId = owner && row.deletedAt = none)
  ((rows.reverse.drop offset).take limit).mapM RecurrenceRecord.modelValidate

/-- The insert copies the timezone of the account; without one it adds no row
and the lookup that follows finds none. -/
def create (owner : UUID) (data : RecurrenceCreate) (id : UUID) (stamp : Int) :
    Except PyError ((RecurrenceRecord × Bool) × Store) :=
  match store.recurrences.rows.find? (fun row =>
      row.userId = owner && row.clientRequestId = data.clientRequestId),
    store.users.find? owner with
  | none, some user => do
      let row : RecurrenceRow := ⟨id, owner, data.clientRequestId, data,
        data.toRecurrenceValues, user.timezone, 1, stamp, stamp, none⟩
      let recurrences ← insertRow store.recurrences row
      let result ← RecurrenceRecord.modelValidate row
      return ((result, false), { store with recurrences })
  | none, none => .error (.app .recurrenceRequestConflict)
  | some row, _ => do
      raiseIf (row.creationDigest ≠ data) (.app .recurrenceRequestConflict)
      raiseIf (row.deletedAt ≠ none) (.app .recurrenceRequestDeleted)
      let result ← RecurrenceRecord.modelValidate row
      return ((result, true), store)

/-- `_check_version`. -/
def checkVersion (record : RecurrenceRecord) (expected : Nat) (increment : Bool) :
    Except PyError Unit :=
  raiseIf (record.version ≠ expected ∨ (increment = true ∧ record.version = versionLimit))
    (.app .staleVersion)

/-- `WHERE id=... AND user_id=...`. -/
def owned (owner recurrenceId : UUID) (row : RecurrenceRow) : Bool :=
  row.id = recurrenceId && row.userId = owner

def replace (owner recurrenceId : UUID) (data : RecurrenceReplace) (stamp : Int) :
    Except PyError (RecurrenceRecord × Store) := do
  let current ← get store owner recurrenceId
  checkVersion current data.expectedVersion true
  let assign := fun row : RecurrenceRow => { row with
    values := data.values, version := row.version + 1,
    updatedAt := greatest stamp row.updatedAt }
  match store.recurrences.rows.find? (owned owner recurrenceId) with
  | none => .error .validation
  | some row => do
      let result ← RecurrenceRecord.modelValidate (assign row)
      return (result, { store with
        recurrences := store.recurrences.update (owned owner recurrenceId) assign fun _ => rfl })

def delete (owner recurrenceId : UUID) (expectedVersion : Nat) (stamp : Int) :
    Except PyError Store := do
  let current ← get store owner recurrenceId
  checkVersion current expectedVersion true
  return { store with
    recurrences := store.recurrences.update (owned owner recurrenceId)
      (fun row => { row with
        deletedAt := some stamp, version := row.version + 1,
        updatedAt := greatest stamp row.updatedAt }) fun _ => rfl }

/-- One row of `_insert_occurrences`. -/
def occurrenceRow (owner : UUID) (series : RecurrenceRecord) (id requestId : UUID) (day : Int)
    (window : Int × Int) (stamp : Int) : TaskRow :=
  { TaskRow.fresh id owner requestId
      { title := series.title
        description := series.description
        durationMinutes := series.durationMinutes
        priority := series.priority
        splittable := series.splittable
        preferredPeriod := series.preferredPeriod
        earliestStart := some window.1
        deadline := some window.2 } stamp with
    recurrenceId := some series.id
    occurrenceDate := some day }

/-- The new rows, each with its two drawn identifiers; the windows are computed
before anything is written. -/
def occurrenceRows (zone : Zone) (owner : UUID) (series : RecurrenceRecord) (days : List Int)
    (fresh : Nat → UUID × UUID) (stamp : Int) : Except PyError (List TaskRow) :=
  days.zipIdx.mapM fun (day, index) => do
    let window ← occurrenceWindow day zone series.durationMinutes
    return occurrenceRow owner series (fresh index).1 (fresh index).2 day window stamp

/-- `_insert_occurrences`. -/
def insertOccurrences (zone : Zone) (owner : UUID) (series : RecurrenceRecord)
    (days : List Int) (fresh : Nat → UUID × UUID) (stamp : Int) :
    Except PyError (List TaskRecord × Store) := do
  let rows ← occurrenceRows zone owner series days fresh stamp
  let store ← rows.foldlM insertTask store
  let tasks ← rows.mapM fun row => TaskRecord.modelValidate row.toTaskColumns
  return (tasks, store)

variable (zoneInfo : String → Zone)

def materialize (owner recurrenceId : UUID) (request : OccurrenceRequest)
    (fresh : Nat → UUID × UUID) (now stamp : Int) :
    Except PyError (OccurrenceResult × Store) := do
  let series ← get store owner recurrenceId
  checkVersion series request.expectedVersion false
  let rows := sortBy (·.id) (store.tasks.select fun row =>
    row.userId = owner && row.recurrenceId = some recurrenceId &&
      row.occurrenceDate.any fun day =>
        request.startDate ≤ day && day < request.startDate + request.days)
  let zone := zoneInfo series.timezone
  let today := zone.localDate now
  let existing := rows.filterMap (·.occurrenceDate)
  let tasks ← (rows.filter (·.deletedAt = none)).mapM fun row =>
    TaskRecord.modelValidate row.toTaskColumns
  let deleted := (rows.filter (·.deletedAt ≠ none)).filterMap (·.occurrenceDate)
  let missing := (occurrenceDates series.toRecurrenceValues request.startDate
    request.days).filter fun day => day ∉ existing
  let newDates := missing.filter fun day => !(day < today)
  let (created, store) ← insertOccurrences store zone owner series newDates fresh stamp
  return ({ recurrenceId := series.id
            recurrenceVersion := series.version
            tasks := sortBy (fun task => task.occurrenceDate.getD 0) (tasks ++ created)
            createdCount := newDates.length
            deletedDates := sortBy id deleted
            skippedPastDates := missing.filter (· < today) }, store)

end RecurrenceRepository

end SmartPlanner

import SmartPlanner.Store
import SmartPlanner.Library.Sorting
import Mathlib.Data.Prod.Lex

/-!
`repository.py` and `task_changes.py`: accounts, tasks and preferences. Each
function answers with its result and the next store.
-/

namespace SmartPlanner

open Outcome Sorting Tables

namespace AppError

def emailUnavailable : AppError :=
  ⟨409, .emailUnavailable, "این ایمیل قابل استفاده نیست."⟩

def taskRequestConflict : AppError :=
  ⟨409, .requestIdConflict, "شناسهٔ این درخواست قبلاً برای دادهٔ دیگری استفاده شده است."⟩

def taskRequestDeleted : AppError :=
  ⟨409, .requestAlreadyDeleted, "کار مربوط به این درخواست قبلاً حذف شده است."⟩

def invalidTaskChange : AppError :=
  ⟨422, .invalidTaskChange, "این تغییر با مدت یا مهلت کار سازگار نیست."⟩

end AppError

/-- The new fields of a patched task; an unset field is left alone. -/
def TaskPatch.overlay (patch : TaskPatch) (task : TaskColumns) : TaskColumns :=
  { task with
    title := patch.title.getD task.title
    description := patch.description.getD task.description
    durationMinutes := patch.durationMinutes.getD task.durationMinutes
    priority := patch.priority.getD task.priority
    splittable := patch.splittable.getD task.splittable
    preferredPeriod := patch.preferredPeriod.getD task.preferredPeriod
    status := patch.status.getD task.status
    earliestStart := patch.earliestStart.getD task.earliestStart
    deadline := patch.deadline.getD task.deadline }

def prepareTaskChange (current : TaskRecord) (patch : TaskPatch) (now : Int) :
    Except PyError TaskRecord :=
  if current.version ≠ patch.expectedVersion then .error .staleTaskVersion
  else TaskRecord.modelValidate
    { patch.overlay current.toTaskColumns with version := current.version + 1, updatedAt := now }

/-- The columns of `UPDATE tasks`, from the prepared record. -/
def TaskRow.assign (prepared : TaskRecord) (stamp : Int) (row : TaskRow) : TaskRow :=
  { row with
    toTaskFields := prepared.toTaskFields
    status := prepared.status
    version := row.version + 1
    updatedAt := greatest stamp row.updatedAt }

/-- The tombstone of `delete_task`. -/
def TaskRow.tombstone (stamp : Int) (row : TaskRow) : TaskRow :=
  { row with
    deletedAt := some stamp
    version := row.version + 1
    updatedAt := greatest stamp row.updatedAt }

/-- `WHERE id = ... AND user_id = ... AND version = ... AND deleted_at IS NULL`. -/
def TaskRow.guarded (owner taskId : UUID) (expectedVersion : Nat) (row : TaskRow) : Bool :=
  row.id = taskId && row.userId = owner && row.version = expectedVersion &&
    row.deletedAt = none

/-- A new row of `tasks` with the column defaults. -/
def TaskRow.fresh (id owner clientRequestId : UUID) (fields : TaskFields) (stamp : Int) :
    TaskRow where
  toTaskFields := fields
  id := id
  userId := owner
  clientRequestId := clientRequestId
  status := .pending
  version := 1
  createdAt := stamp
  updatedAt := stamp
  recurrenceId := none
  occurrenceDate := none
  creationDigest := none
  deletedAt := none

/-- `INSERT INTO tasks`: the title must pass its check, the owner exist and the
unique keys be free. -/
def insertTask (store : Store) (row : TaskRow) : Except PyError Store := do
  raiseIf (¬ TitleCheck row.title) .database
  raiseIf (store.users.find? row.userId = none) .database
  raiseIf (∃ other ∈ store.tasks.rows,
    other.userId = row.userId ∧ other.clientRequestId = row.clientRequestId) .database
  raiseIf (row.recurrenceId ≠ none ∧ ∃ other ∈ store.tasks.rows, other.userId = row.userId ∧
    other.recurrenceId = row.recurrenceId ∧ other.occurrenceDate = row.occurrenceDate) .database
  let tasks ← insertRow store.tasks row
  return { store with tasks }

/-- `PreferenceRecord.model_validate(row)`. -/
def PreferenceRecord.modelValidate (row : PreferenceRow) : Except PyError PreferenceRecord :=
  if h : VersionValid row.version then
    .ok ⟨row.values, row.userId, row.version, row.updatedAt, h⟩
  else .error .validation

theorem PreferenceRecord.modelValidate_ok {row : PreferenceRow} {record : PreferenceRecord} :
    PreferenceRecord.modelValidate row = .ok record ↔
      record.toPreferenceValues = row.values ∧ record.userId = row.userId ∧
      record.version = row.version ∧ record.updatedAt = row.updatedAt := by
  unfold PreferenceRecord.modelValidate
  constructor
  · intro h
    split at h
    · cases h
      exact ⟨rfl, rfl, rfl, rfl⟩
    · contradiction
  · rintro ⟨hvalues, huser, hversion, hupdated⟩
    have valid : VersionValid row.version := hversion ▸ record.versionValid
    rw [dif_pos valid]
    cases record
    simp only at hvalues huser hversion hupdated
    subst hvalues huser hversion hupdated
    rfl

namespace Repository
variable (store : Store)

/-- The email is already in lower case; `id` is the drawn `uuid4()`. -/
def register (id : UUID) (email timezone : String) (stamp : Int) :
    Except PyError (UserRow × Store) := do
  raiseIf (∃ row ∈ store.users.rows, row.email = email) (.app .emailUnavailable)
  let users ← insertRow store.users ⟨id, email, timezone, stamp⟩
  let preferences ← insertRow store.preferences ⟨id, .default, 1, stamp⟩
  return (⟨id, email, timezone, stamp⟩, { store with users, preferences })

/-- The check of the title comes before `ON CONFLICT DO NOTHING`, so it raises for
a request id that has a row too. -/
def createTask (owner : UUID) (task : TaskCreate) (id : UUID) (stamp : Int) :
    Except PyError ((TaskRecord × Bool) × Store) := do
  raiseIf (¬ TitleCheck task.title) .database
  match store.tasks.rows.find? fun row =>
      row.userId = owner && row.clientRequestId = task.clientRequestId with
  | some existing => do
      raiseIf (existing.creationDigest ≠ some task) (.app .taskRequestConflict)
      raiseIf (existing.deletedAt ≠ none) (.app .taskRequestDeleted)
      let result ← TaskRecord.modelValidate existing.toTaskColumns
      return ((result, true), store)
  | none => do
      let row := { TaskRow.fresh id owner task.clientRequestId task.toTaskFields stamp with
        creationDigest := some task }
      let store ← insertTask store row
      let result ← TaskRecord.modelValidate row.toTaskColumns
      return ((result, false), store)

def getTask (owner taskId : UUID) : Except PyError TaskRecord :=
  match store.tasks.rows.find? fun row =>
      row.id = taskId && row.userId = owner && row.deletedAt = none with
  | some row => TaskRecord.modelValidate row.toTaskColumns
  | none => .error (.app .notFound)

/-- A page of the live tasks, newest first. -/
def listTasks (owner : UUID) (limit offset : Nat) : Except PyError (List TaskRecord) :=
  let rows := sortBy (fun row : TaskRow => toLex (row.createdAt, row.id))
    (store.tasks.select fun row => row.userId = owner && row.deletedAt = none)
  ((rows.reverse.drop offset).take limit).mapM fun row =>
    TaskRecord.modelValidate row.toTaskColumns

/-- The row is found and its new title checked by one statement. -/
def updateTask (owner taskId : UUID) (patch : TaskPatch) (stamp : Int) :
    Except PyError (TaskRecord × Store) := do
  let current ← getTask store owner taskId
  match prepareTaskChange current patch current.updatedAt with
  | .error .staleTaskVersion => .error (.app .staleVersion)
  | .error .validation => .error (.app .invalidTaskChange)
  | .error error => .error error
  | .ok prepared =>
      let guard := TaskRow.guarded owner taskId patch.expectedVersion
      match store.tasks.rows.find? guard with
      | none => .error (.app .staleVersion)
      | some row => do
          raiseIf (¬ TitleCheck prepared.title) .database
          let result ← TaskRecord.modelValidate (row.assign prepared stamp).toTaskColumns
          return (result, { store with
            tasks := store.tasks.update guard (TaskRow.assign prepared stamp) fun _ => rfl })

def deleteTask (owner taskId : UUID) (expectedVersion : Nat) (stamp : Int) :
    Except PyError Store := do
  let current ← getTask store owner taskId
  raiseIf (current.version ≠ expectedVersion) (.app .staleVersion)
  let guard := TaskRow.guarded owner taskId expectedVersion
  match store.tasks.rows.find? guard with
  | none => .error (.app .staleVersion)
  | some _ => return { store with
      tasks := store.tasks.update guard (TaskRow.tombstone stamp) fun _ => rfl }

def getPreferences (owner : UUID) : Except PyError PreferenceRecord :=
  match store.preferences.find? owner with
  | some row => PreferenceRecord.modelValidate row
  | none => .error (.app .notFound)

def updatePreferences (owner : UUID) (update : PreferencePut) (stamp : Int) :
    Except PyError (PreferenceRecord × Store) :=
  let guard := fun row : PreferenceRow =>
    decide (row.userId = owner) && decide (row.version = update.expectedVersion)
  let assign := fun row : PreferenceRow => { row with
    values := update.values, version := row.version + 1,
    updatedAt := greatest stamp row.updatedAt }
  match store.preferences.rows.find? guard with
  | none => .error (.app .staleVersion)
  | some row => do
      let result ← PreferenceRecord.modelValidate (assign row)
      return (result, { store with
        preferences := store.preferences.update guard assign fun _ => rfl })

/-- The tasks of a preview, in id order, and the preferences. -/
def planningInputs (owner : UUID) (taskIds : List UUID) :
    Except PyError (List TaskRecord × PreferenceRecord) := do
  let preferences ← getPreferences store owner
  let rows := sortBy (·.id) (store.tasks.select fun row =>
    row.userId = owner && row.id ∈ taskIds && row.deletedAt = none)
  raiseIf (rows.length ≠ taskIds.length) (.app .notFound)
  let tasks ← rows.mapM fun row => TaskRecord.modelValidate row.toTaskColumns
  return (tasks, preferences)

/-! What the writers of tasks did when they answer. -/

section
variable {store} {store' : Store} {owner : UUID} {stamp : Int}

/-- A create found the row of its request or inserted one. -/
theorem createTask_ok {task : TaskCreate} {id : UUID} {answer : TaskRecord × Bool}
    (h : createTask store owner task id stamp = .ok (answer, store')) :
    TitleCheck task.title ∧
    (store' = store ∨
      ∃ row, row = { TaskRow.fresh id owner task.clientRequestId task.toTaskFields stamp with
          creationDigest := some task } ∧
        row.toTaskColumns = answer.1.toTaskColumns ∧ insertTask store row = .ok store') := by
  unfold createTask at h
  rw [raiseIf_bind_ok, not_not] at h
  refine ⟨h.1, ?_⟩
  replace h := h.2
  split at h
  · rw [raiseIf_bind_ok, raiseIf_bind_ok] at h
    simp only [bind_ok, pure_eq_ok, Except.ok.injEq, Prod.mk.injEq] at h
    obtain ⟨-, -, result, -, -, rfl⟩ := h
    exact Or.inl rfl
  · simp only [bind_ok, pure_eq_ok, Except.ok.injEq, Prod.mk.injEq] at h
    obtain ⟨inserted, hinsert, result, hresult, rfl, rfl⟩ := h
    exact Or.inr ⟨_, rfl, (TaskRecord.modelValidate_ok.mp hresult).symm, hinsert⟩

/-- An edit wrote the prepared record over the guarded row. -/
theorem updateTask_ok {taskId : UUID} {patch : TaskPatch} {answer : TaskRecord}
    (h : updateTask store owner taskId patch stamp = .ok (answer, store')) :
    ∃ current prepared row, getTask store owner taskId = .ok current ∧
      prepareTaskChange current patch current.updatedAt = .ok prepared ∧
      store.tasks.rows.find? (TaskRow.guarded owner taskId patch.expectedVersion) = some row ∧
      TitleCheck prepared.title ∧
      answer.toTaskColumns = (row.assign prepared stamp).toTaskColumns ∧
      store' = { store with
        tasks := store.tasks.update (TaskRow.guarded owner taskId patch.expectedVersion)
          (TaskRow.assign prepared stamp) fun _ => rfl } := by
  unfold updateTask at h
  simp only [bind_ok] at h
  obtain ⟨current, hcurrent, h⟩ := h
  split at h
  · contradiction
  · contradiction
  · contradiction
  · next prepared hprepared =>
      split at h
      · contradiction
      · next row hrow =>
          rw [raiseIf_bind_ok, not_not] at h
          simp only [bind_ok, pure_eq_ok, Except.ok.injEq, Prod.mk.injEq] at h
          obtain ⟨htitle, result, hresult, rfl, rfl⟩ := h
          exact ⟨current, prepared, row, hcurrent, hprepared, hrow, htitle,
            TaskRecord.modelValidate_ok.mp hresult, rfl⟩

end

end Repository

end SmartPlanner

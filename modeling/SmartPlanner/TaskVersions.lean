import SmartPlanner.Library.Optimistic
import SmartPlanner.StoreReached
import SmartPlanner.TaskRows

/-!
Edits and deletes of one task by any clients. `update_task` and `delete_task` are
a read and a later guarded `UPDATE`; whatever runs between the two, the versions
of the task form one chain and each link of it was won by one request.
-/

namespace SmartPlanner

open Optimism Outcome Runs Sessions Tables

inductive TaskRequest
  | update (owner taskId : UUID) (patch : TaskPatch) (stamp : Int)
  | delete (owner taskId : UUID) (expectedVersion : Nat) (stamp : Int)

namespace TaskRequest

def owner : TaskRequest → UUID
  | .update owner _ _ _ => owner
  | .delete owner _ _ _ => owner

def taskId : TaskRequest → UUID
  | .update _ taskId _ _ => taskId
  | .delete _ taskId _ _ => taskId

def expectedVersion : TaskRequest → Nat
  | .update _ _ patch _ => patch.expectedVersion
  | .delete _ _ expectedVersion _ => expectedVersion

/-- The `WHERE` of the guarded `UPDATE`. -/
def guard (request : TaskRequest) : TaskRow → Bool :=
  TaskRow.guarded request.owner request.taskId request.expectedVersion

end TaskRequest

/-- What a request holds between its statements: an update has prepared the
record whose columns it will write. -/
inductive TaskPlan
  | update (owner taskId : UUID) (patch : TaskPatch) (stamp : Int) (prepared : TaskRecord)
  | delete (owner taskId : UUID) (expectedVersion : Nat) (stamp : Int)

def TaskPlan.request : TaskPlan → TaskRequest
  | .update owner taskId patch stamp _ => .update owner taskId patch stamp
  | .delete owner taskId expectedVersion stamp => .delete owner taskId expectedVersion stamp

/-- The part of `update_task` or `delete_task` before its `UPDATE`. -/
def TaskRequest.read (store : Store) : TaskRequest → Except PyError TaskPlan
  | .update owner taskId patch stamp => do
      let current ← Repository.getTask store owner taskId
      match prepareTaskChange current patch current.updatedAt with
      | .error .staleTaskVersion => .error (.app .staleVersion)
      | .error .validation => .error (.app .invalidTaskChange)
      | .error error => .error error
      | .ok prepared => return .update owner taskId patch stamp prepared
  | .delete owner taskId expectedVersion stamp => do
      let current ← Repository.getTask store owner taskId
      raiseIf (current.version ≠ expectedVersion) (.app .staleVersion)
      return .delete owner taskId expectedVersion stamp

theorem TaskRow.assign_id (prepared : TaskRecord) (stamp : Int) (row : TaskRow) :
    (row.assign prepared stamp).id = row.id := rfl

theorem TaskRow.tombstone_id (stamp : Int) (row : TaskRow) :
    (row.tombstone stamp).id = row.id := rfl

/-- The `UPDATE` and what follows it; an update answers with the new record. -/
def TaskPlan.write (store : Store) (plan : TaskPlan) :
    Except PyError (Option TaskRecord × Store) :=
  match store.tasks.rows.find? plan.request.guard with
  | none => .error (.app .staleVersion)
  | some row =>
      match plan with
      | .update _ _ _ stamp prepared => do
          raiseIf (¬ TitleCheck prepared.title) .database
          let result ← TaskRecord.modelValidate (row.assign prepared stamp).toTaskColumns
          return (some result, { store with
            tasks := store.tasks.update plan.request.guard (TaskRow.assign prepared stamp)
              (TaskRow.assign_id prepared stamp) })
      | .delete _ _ _ stamp => return (none, { store with
          tasks := store.tasks.update plan.request.guard (TaskRow.tombstone stamp)
            (TaskRow.tombstone_id stamp) })

/-- The row a plan was made from. -/
def TaskPlan.From (row : TaskRow) : TaskPlan → Prop
  | .update _ _ patch _ prepared => ∃ current,
      TaskRecord.modelValidate row.toTaskColumns = .ok current ∧
      prepareTaskChange current patch current.updatedAt = .ok prepared
  | .delete .. => True

/-- What a granted request makes of a row: the prepared change up to
`updated_at`, or the tombstone. -/
def TaskRequest.Makes (row : TaskRow) (request : TaskRequest) (row' : TaskRow) : Prop :=
  row.userId = request.owner ∧
    match request with
    | .update _ _ patch _ => ∃ current prepared,
        TaskRecord.modelValidate row.toTaskColumns = .ok current ∧
        prepareTaskChange current patch current.updatedAt = .ok prepared ∧
        { row' with updatedAt := row.updatedAt } =
          { row with toTaskColumns := prepared.toTaskColumns }
    | .delete _ _ _ stamp => row' = row.tombstone stamp

def TaskRow.Deleted (row : TaskRow) : Prop := row.deletedAt ≠ none

def taskWrites (zoneInfo : String → Zone) : Optimistic Store UUID TaskRequest TaskPlan TaskRow
    (Option TaskRecord) PyError {command : Command // command.editsTask = false} where
  key := TaskRequest.taskId
  expected := TaskRequest.expectedVersion
  request := TaskPlan.request
  row? store taskId := store.tasks.find? taskId
  version row := row.version
  read := TaskRequest.read
  write := TaskPlan.write
  other store command := step zoneInfo store command.1

/-! Both functions are attempts with nothing between their statements. -/

section
variable (zoneInfo : String → Zone) (store : Store) (owner taskId : UUID) (stamp : Int)

theorem updateTask_eq_attempt (patch : TaskPatch) :
    (Repository.updateTask store owner taskId patch stamp).map
      (fun answer => (some answer.1, answer.2)) =
      (taskWrites zoneInfo).attempt store (.update owner taskId patch stamp) := by
  unfold Repository.updateTask Optimistic.attempt
  simp only [taskWrites, TaskRequest.read, Outcome.map_bind, bind_assoc]
  refine bind_congr_ok fun current _ => ?_
  cases prepareTaskChange current patch current.updatedAt with
  | error error => cases error <;> rfl
  | ok prepared =>
      have hguard : (TaskPlan.update owner taskId patch stamp prepared).request.guard =
        TaskRow.guarded owner taskId patch.expectedVersion := rfl
      simp only [pure_eq_ok, ok_bind, TaskPlan.write, hguard]
      cases store.tasks.rows.find? (TaskRow.guarded owner taskId patch.expectedVersion) with
      | none => rfl
      | some row => simp only [Outcome.map_bind, map_ok]

theorem deleteTask_eq_attempt (expectedVersion : Nat) :
    (Repository.deleteTask store owner taskId expectedVersion stamp).map
      (fun store' => (none, store')) =
      (taskWrites zoneInfo).attempt store (.delete owner taskId expectedVersion stamp) := by
  unfold Repository.deleteTask Optimistic.attempt
  simp only [taskWrites, TaskRequest.read, Outcome.map_bind, bind_assoc]
  refine bind_congr_ok fun current _ => bind_congr_ok fun _ _ => ?_
  have hguard : (TaskPlan.delete owner taskId expectedVersion stamp).request.guard =
    TaskRow.guarded owner taskId expectedVersion := rfl
  simp only [pure_eq_ok, ok_bind, TaskPlan.write, hguard]
  cases store.tasks.rows.find? (TaskRow.guarded owner taskId expectedVersion) with
  | none => rfl
  | some row => rfl

end

variable {zoneInfo : String → Zone} {store store' : Store} {owner taskId : UUID}

theorem getTask_ok {current : TaskRecord}
    (h : Repository.getTask store owner taskId = .ok current) :
    ∃ row, store.tasks.find? taskId = some row ∧ row.userId = owner ∧ row.deletedAt = none ∧
      current.toTaskColumns = row.toTaskColumns := by
  unfold Repository.getTask at h
  split at h
  · next row hrow =>
      have hguard := List.find?_some hrow
      simp only [Bool.and_eq_true, decide_eq_true_eq] at hguard
      exact ⟨row, Table.find?_eq_some.mpr ⟨List.mem_of_find?_eq_some hrow, hguard.1.1⟩,
        hguard.1.2, hguard.2, TaskRecord.modelValidate_ok.mp h⟩
  · contradiction

theorem prepareTaskChange_ok {current prepared : TaskRecord} {patch : TaskPatch} {now : Int}
    (h : prepareTaskChange current patch now = .ok prepared) :
    current.version = patch.expectedVersion ∧
      prepared.toTaskColumns = { patch.overlay current.toTaskColumns with
        version := current.version + 1, updatedAt := now } := by
  unfold prepareTaskChange at h
  split at h
  · contradiction
  · next hversion => exact ⟨not_not.mp hversion, TaskRecord.modelValidate_ok.mp h⟩

/-- A read that succeeds, with the row it read. -/
theorem TaskRequest.read_ok {request : TaskRequest} {plan : TaskPlan}
    (h : request.read store = .ok plan) :
    plan.request = request ∧ ∃ row, store.tasks.find? request.taskId = some row ∧
      row.version = request.expectedVersion ∧ plan.From row := by
  cases request with
  | update owner taskId patch stamp =>
      simp only [TaskRequest.read, bind_ok] at h
      obtain ⟨current, hcurrent, h⟩ := h
      obtain ⟨row, hrow, -, -, hcolumns⟩ := getTask_ok hcurrent
      split at h
      · contradiction
      · contradiction
      · contradiction
      · next prepared hprepared =>
          rw [pure_eq_ok, Except.ok.injEq] at h
          subst h
          have hversion := (prepareTaskChange_ok hprepared).1
          rw [hcolumns] at hversion
          exact ⟨rfl, row, hrow, hversion, current, TaskRecord.modelValidate_ok.mpr hcolumns,
            hprepared⟩
  | delete owner taskId expectedVersion stamp =>
      simp only [TaskRequest.read, bind_ok] at h
      obtain ⟨current, hcurrent, passed, hversion, h⟩ := h
      obtain ⟨row, hrow, -, -, hcolumns⟩ := getTask_ok hcurrent
      rw [pure_eq_ok, Except.ok.injEq] at h
      subst h
      rw [raiseIf_ok, not_not, hcolumns] at hversion
      exact ⟨rfl, row, hrow, hversion, trivial⟩

/-- The columns that the `UPDATE` writes are those of the prepared record. -/
theorem TaskRow.assign_eq {row : TaskRow} {current prepared : TaskRecord} {patch : TaskPatch}
    (stamp : Int) (hcurrent : TaskRecord.modelValidate row.toTaskColumns = .ok current)
    (hprepared : prepareTaskChange current patch current.updatedAt = .ok prepared) :
    { row.assign prepared stamp with updatedAt := row.updatedAt } =
      { row with toTaskColumns := prepared.toTaskColumns } := by
  have hcolumns := (prepareTaskChange_ok hprepared).2
  rw [TaskRecord.modelValidate_ok.mp hcurrent] at hcolumns
  simp only [TaskRow.assign, hcolumns, TaskPatch.overlay]

/-- A write that succeeds, at the row it found. -/
theorem TaskPlan.write_ok {plan : TaskPlan} {row : TaskRow} {answer : Option TaskRecord}
    (hrow : store.tasks.find? plan.request.taskId = some row)
    (current : row.version = plan.request.expectedVersion → plan.From row)
    (h : plan.write store = .ok (answer, store')) :
    ∃ row', (taskWrites zoneInfo).Granted (fun row request => request.Makes row) TaskRow.Deleted
      store plan.request store' row row' := by
  obtain ⟨hmem, hid⟩ := Table.find?_eq_some.mp hrow
  unfold TaskPlan.write at h
  cases hfound : store.tasks.rows.find? plan.request.guard with
  | none =>
      rw [hfound] at h
      contradiction
  | some found =>
      rw [hfound] at h
      have hguard := List.find?_some hfound
      obtain ⟨hfid, howner, hversion, hlive⟩ := Repository.guarded_iff.mp hguard
      obtain rfl := store.tasks.eq_of_key (List.mem_of_find?_eq_some hfound) hmem
        (hfid.trans hid.symm)
      -- one shape for both: the guarded row becomes `f` of it
      have granted : ∀ (f : TaskRow → TaskRow) (keeps : ∀ row, (f row).id = row.id),
          store'.tasks = store.tasks.update plan.request.guard f keeps →
          (f found).version = found.version + 1 → plan.request.Makes found (f found) →
          ∃ row', (taskWrites zoneInfo).Granted (fun row request => request.Makes row)
            TaskRow.Deleted store plan.request store' found row' := by
        intro f keeps htasks hnext hmakes
        refine ⟨f found, hrow, hversion, fun hdeleted => hdeleted hlive, ?_, hnext, hmakes,
          fun k hk => ?_⟩
        · change store'.tasks.find? plan.request.taskId = some (f found)
          rw [htasks, Table.find?_update, hrow, Option.map_some, if_pos hguard]
        · change store'.tasks.find? k = store.tasks.find? k
          rw [htasks, Table.find?_update]
          cases hother : store.tasks.find? k with
          | none => rfl
          | some other =>
              have hoff : ¬ plan.request.guard other = true := fun hon =>
                hk ((Table.find?_eq_some.mp hother).2.symm.trans (Repository.guarded_iff.mp hon).1)
              rw [Option.map_some, if_neg hoff]
      cases plan with
      | update owner taskId patch stamp prepared =>
          rw [raiseIf_bind_ok] at h
          simp only [bind_ok, pure_eq_ok, Except.ok.injEq, Prod.mk.injEq] at h
          obtain ⟨-, result, -, -, rfl⟩ := h
          obtain ⟨record, hrecord, hprepared⟩ := current hversion
          exact granted (TaskRow.assign prepared stamp) (TaskRow.assign_id prepared stamp) rfl rfl
            ⟨howner, record, prepared, hrecord, hprepared,
              TaskRow.assign_eq stamp hrecord hprepared⟩
      | delete owner taskId expectedVersion stamp =>
          simp only [pure_eq_ok, Except.ok.injEq, Prod.mk.injEq] at h
          obtain ⟨-, rfl⟩ := h
          exact granted (TaskRow.tombstone stamp) (fun _ => rfl) rfl rfl ⟨howner, rfl⟩

theorem taskWrites_lawful : (taskWrites zoneInfo).Lawful (fun _ => True)
    (fun row plan => plan.From row) (fun row request => request.Makes row) TaskRow.Deleted where
  read _ h := TaskRequest.read_ok h
  write _ hrow current h := ⟨trivial, TaskPlan.write_ok hrow current h⟩
  other {s} command _ := by
    have change := @step_taskChange zoneInfo s command.1
    refine ⟨trivial, fun taskId row hrow => ?_, fun taskId row hnone hrow => ?_⟩
    · obtain ⟨hmem, hid⟩ := Table.find?_eq_some.mp hrow
      exact Table.find?_eq_some.mpr ⟨change.stays command.2 row hmem, hid⟩
    · obtain ⟨hmem, hid⟩ := Table.find?_eq_some.mp hrow
      rcases change.fresh command.2 row hmem with hold | hfresh
      · exact absurd hid (Table.find?_eq_none.mp hnone row hold)
      · exact hfresh

/-- Whatever order the statements of any clients take, with any other commands
between them, the versions of a task are counted from one, each follows from the
one before by the one request that won it, every other request is refused, and a
deleted task takes no request. -/
theorem task_versions (zoneInfo : String → Zone)
    (events : List (Event TaskRequest {command : Command // command.editsTask = false}))
    (taskId : UUID) :
    (taskWrites zoneInfo).Chain (fun row request => request.Makes row) TaskRow.Deleted
      Store.empty events taskId ∧
    ∀ owner expectedVersion stamp answer i,
      (taskWrites zoneInfo).AnswersAt Store.empty events
        (.delete owner taskId expectedVersion stamp) (.ok answer) i →
      ∀ request answer' j, request.taskId = taskId → i < j →
        ¬ (taskWrites zoneInfo).AnswersAt Store.empty events request (.ok answer') j := by
  have empty : ∀ taskId, (taskWrites zoneInfo).row? Store.empty taskId = none := fun _ => rfl
  have chain := taskWrites_lawful.chain trivial empty events taskId
  refine ⟨chain, fun owner expectedVersion stamp answer i h request answer' j hkey hlt => ?_⟩
  obtain ⟨row, row', -, -, -, hafter, -, -, hmakes⟩ := chain.granted _ answer i rfl h
  refine chain.final (i + 1) row' hafter ?_ request answer' j hkey hlt
  simp only [hmakes, TaskRow.Deleted, TaskRow.tombstone]
  exact Option.some_ne_none stamp

end SmartPlanner

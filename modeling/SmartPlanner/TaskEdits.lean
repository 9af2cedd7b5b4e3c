import SmartPlanner.StoreReached
import SmartPlanner.TaskVersions

/-!
What an edit of a task does. `prepare_task_change` merges and validates a whole
record, and `update_task` writes it through a column list of its own; the two
are compared with the patch field by field.
-/

namespace SmartPlanner

open Outcome Tables

/-- A field under a patch: the value that the patch sets, or the old one. -/
def Patched {α : Type} (set : Option α) (old new : α) : Prop :=
  (∀ value, set = some value → new = value) ∧ (set = none → new = old)

/-- The fields a patch can set, all taken from it or left alone. A time that the
patch sets to null is cleared. -/
structure PatchedTask (patch : TaskPatch) (old new : TaskColumns) : Prop where
  title : Patched patch.title old.title new.title
  description : Patched patch.description old.description new.description
  durationMinutes : Patched patch.durationMinutes old.durationMinutes new.durationMinutes
  priority : Patched patch.priority old.priority new.priority
  splittable : Patched patch.splittable old.splittable new.splittable
  preferredPeriod : Patched patch.preferredPeriod old.preferredPeriod new.preferredPeriod
  status : Patched patch.status old.status new.status
  earliestStart : Patched patch.earliestStart old.earliestStart new.earliestStart
  deadline : Patched patch.deadline old.deadline new.deadline

/-- The fields no edit touches. -/
structure SameTask (old new : TaskColumns) : Prop where
  id : new.id = old.id
  userId : new.userId = old.userId
  clientRequestId : new.clientRequestId = old.clientRequestId
  createdAt : new.createdAt = old.createdAt
  recurrenceId : new.recurrenceId = old.recurrenceId
  occurrenceDate : new.occurrenceDate = old.occurrenceDate

/-- The row that a request for this task finds. -/
structure TaskRow.Addressed (row : TaskRow) (store : Store) (owner taskId : UUID) : Prop where
  mem : row ∈ store.tasks
  id : row.id = taskId
  userId : row.userId = owner
  live : row.deletedAt = none

/-- The edit is due: it names the version of the row, which can still be counted
up, and the patched row is a valid task. -/
def Editable (row : TaskRow) (patch : TaskPatch) : Prop :=
  patch.expectedVersion = row.version ∧ row.version < versionLimit ∧
  ∃ new, PatchedTask patch row.toTaskColumns new ∧ new.toTaskFields.Valid

/-- What an edit answers and stores: the patched row with the next version and a
time of change that is not before the last one; no other row moves. -/
structure Edited (store store' : Store) (row : TaskRow) (patch : TaskPatch)
    (record : TaskRecord) : Prop where
  patched : PatchedTask patch row.toTaskColumns record.toTaskColumns
  same : SameTask row.toTaskColumns record.toTaskColumns
  version : record.version = row.version + 1
  updatedAt : row.updatedAt ≤ record.updatedAt
  stored : { row with toTaskColumns := record.toTaskColumns } ∈ store'.tasks
  others : ∀ other : TaskRow, other.id ≠ row.id → (other ∈ store'.tasks ↔ other ∈ store.tasks)
  tables : store' = { store with tasks := store'.tasks }

theorem patched_iff {α : Type} {set : Option α} {old new : α} :
    Patched set old new ↔ new = set.getD old := by
  cases set with
  | none => simp [Patched]
  | some value => simp [Patched]

theorem overlay_patched (patch : TaskPatch) (task : TaskColumns) :
    PatchedTask patch task (patch.overlay task) := by
  constructor <;> exact patched_iff.mpr rfl

/-- A patched task has the fields of the overlay. -/
theorem PatchedTask.fields {patch : TaskPatch} {old new : TaskColumns}
    (h : PatchedTask patch old new) : new.toTaskFields = (patch.overlay old).toTaskFields := by
  obtain ⟨⟨title, description, durationMinutes, priority, splittable, preferredPeriod,
    earliestStart, deadline⟩, id⟩ := new
  simp only [TaskPatch.overlay, TaskFields.mk.injEq]
  exact ⟨patched_iff.mp h.title, patched_iff.mp h.description, patched_iff.mp h.durationMinutes,
    patched_iff.mp h.priority, patched_iff.mp h.splittable, patched_iff.mp h.preferredPeriod,
    patched_iff.mp h.earliestStart, patched_iff.mp h.deadline⟩

theorem editable_iff {row : TaskRow} {patch : TaskPatch} :
    Editable row patch ↔ patch.expectedVersion = row.version ∧ row.version < versionLimit ∧
      (patch.overlay row.toTaskColumns).toTaskFields.Valid := by
  refine and_congr_right fun _ => and_congr_right fun _ => ?_
  constructor
  · rintro ⟨new, patched, valid⟩
    exact patched.fields ▸ valid
  · exact fun valid => ⟨_, overlay_patched patch row.toTaskColumns, valid⟩

instance (row : TaskRow) (patch : TaskPatch) : Decidable (Editable row patch) :=
  decidable_of_iff _ editable_iff.symm

/-- The merged record is valid when the fields are and the version can be
counted; the rest of it is that of the valid record before. -/
theorem prepared_valid_iff {task : TaskColumns} {patch : TaskPatch} (valid : task.Valid)
    {now : Int} (later : task.createdAt ≤ now) :
    TaskColumns.Valid { patch.overlay task with version := task.version + 1, updatedAt := now } ↔
      task.version < versionLimit ∧ (patch.overlay task).toTaskFields.Valid := by
  unfold TaskColumns.Valid VersionValid
  constructor
  · rintro ⟨fields, version, -, -⟩
    exact ⟨version.2, fields⟩
  · rintro ⟨version, fields⟩
    exact ⟨fields, ⟨Nat.le_add_left 1 _, version⟩, later, valid.2.2.2⟩

/-- The written row is valid as the prepared record is. -/
theorem assign_valid {row : TaskRow} {prepared : TaskRecord} (valid : row.toTaskColumns.Valid)
    (version : prepared.version = row.version + 1) (stamp : Int) :
    (row.assign prepared stamp).toTaskColumns.Valid := by
  refine ⟨prepared.valid.1, ?_, ?_, valid.2.2.2⟩
  · have := prepared.valid.2.1
    rwa [version] at this
  · exact Int.le_trans valid.2.2.1 (Int.le_max_right _ _)

theorem modelValidate_valid {columns : TaskColumns} (valid : columns.Valid) :
    TaskRecord.modelValidate columns = .ok ⟨columns, valid⟩ :=
  TaskRecord.modelValidate_ok.mpr rfl

theorem modelValidate_invalid {columns : TaskColumns} (invalid : ¬ columns.Valid) :
    TaskRecord.modelValidate columns = .error .validation :=
  dif_neg invalid

section
variable {store : Store} {row : TaskRow} {owner taskId : UUID} {patch : TaskPatch} {stamp : Int}

/-- The read of `update_task`: the one live row under this id. -/
theorem getTask_addressed (addressed : row.Addressed store owner taskId) :
    Repository.getTask store owner taskId = TaskRecord.modelValidate row.toTaskColumns := by
  have found : store.tasks.rows.find? (fun row =>
      row.id = taskId && row.userId = owner && row.deletedAt = none) = some row := by
    refine (Table.rows_find?_eq_some fun a ha b hb hpa hpb => ?_).mpr ⟨addressed.mem, ?_⟩
    · simp only [Bool.and_eq_true, decide_eq_true_eq] at hpa hpb
      exact store.tasks.eq_of_key ha hb (hpa.1.1.trans hpb.1.1.symm)
    · simp only [Bool.and_eq_true, decide_eq_true_eq]
      exact ⟨⟨addressed.id, addressed.userId⟩, addressed.live⟩
  unfold Repository.getTask
  rw [found]

/-- The guarded `UPDATE` finds the row that was read. -/
theorem find?_guarded (addressed : row.Addressed store owner taskId) :
    store.tasks.rows.find? (TaskRow.guarded owner taskId row.version) = some row := by
  refine (Table.rows_find?_eq_some fun a ha b hb hpa hpb => ?_).mpr ⟨addressed.mem, ?_⟩
  · exact store.tasks.eq_of_key ha hb
      ((Repository.guarded_iff.mp hpa).1.trans (Repository.guarded_iff.mp hpb).1.symm)
  · exact Repository.guarded_iff.mpr ⟨addressed.id, addressed.userId, rfl, addressed.live⟩

theorem prepareTaskChange_eq (valid : row.toTaskColumns.Valid)
    (version : patch.expectedVersion = row.version) :
    prepareTaskChange ⟨row.toTaskColumns, valid⟩ patch row.updatedAt =
      TaskRecord.modelValidate { patch.overlay row.toTaskColumns with
        version := row.version + 1, updatedAt := row.updatedAt } :=
  if_neg (not_not.mpr version.symm)

/-- The written columns are the overlay's, with the next version. -/
theorem assign_columns {prepared : TaskRecord}
    (hprepared : prepared.toTaskColumns = { patch.overlay row.toTaskColumns with
      version := row.version + 1, updatedAt := row.updatedAt }) :
    (row.assign prepared stamp).toTaskColumns = { patch.overlay row.toTaskColumns with
      version := row.version + 1, updatedAt := greatest stamp row.updatedAt } := by
  simp only [TaskRow.assign, hprepared, TaskPatch.overlay]

/-- What the guarded `UPDATE` does, when the columns it writes are those of the
record that is returned. -/
theorem edited_update {f : TaskRow → TaskRow} {keeps : ∀ row, (f row).id = row.id}
    {record : TaskRecord} (addressed : row.Addressed store owner taskId)
    (writes : f row = { row with toTaskColumns := record.toTaskColumns })
    (columns : record.toTaskColumns = { patch.overlay row.toTaskColumns with
      version := row.version + 1, updatedAt := greatest stamp row.updatedAt }) :
    Edited store
      { store with tasks := store.tasks.update (TaskRow.guarded owner taskId row.version) f keeps }
      row patch record := by
  have guard := List.find?_some (find?_guarded addressed)
  constructor
  · rw [columns]
    constructor <;> exact patched_iff.mpr rfl
  · rw [columns]
    constructor <;> rfl
  · rw [columns]
  · rw [columns]
    exact Int.le_max_right _ _
  · rw [← writes]
    change f row ∈ store.tasks.update _ f keeps
    exact Table.mem_update_of_pos addressed.mem guard
  · intro other hother
    have apart : ∀ old : TaskRow, old.id ≠ row.id →
        ¬ TaskRow.guarded owner taskId row.version old = true := fun old hold hguard =>
      hold ((Repository.guarded_iff.mp hguard).1.trans addressed.id.symm)
    simp only [Table.mem_update]
    constructor
    · rintro ⟨old, hold, rfl⟩
      split
      · next hguard =>
        rw [if_pos hguard, keeps] at hother
        exact absurd hguard (apart old hother)
      · exact hold
    · intro hmem
      exact ⟨other, hmem, (if_neg (apart other hother)).symm⟩
  · rfl

theorem updateTask_editable (addressed : row.Addressed store owner taskId)
    (valid : row.toTaskColumns.Valid) (due : Editable row patch)
    (title : TitleCheck (patch.title.getD row.title)) (stamp : Int) :
    ∃ record store', Repository.updateTask store owner taskId patch stamp = .ok (record, store') ∧
      Edited store store' row patch record := by
  obtain ⟨version, room, fields⟩ := editable_iff.mp due
  have preparedValid := (prepared_valid_iff valid valid.2.2.1).mpr ⟨room, fields⟩
  let prepared : TaskRecord := ⟨_, preparedValid⟩
  have written : (row.assign prepared stamp).toTaskColumns.Valid := assign_valid valid rfl stamp
  refine ⟨⟨_, written⟩, { store with
    tasks := store.tasks.update (TaskRow.guarded owner taskId row.version)
      (TaskRow.assign prepared stamp) (TaskRow.assign_id prepared stamp) }, ?_,
    edited_update addressed rfl (assign_columns rfl)⟩
  · unfold Repository.updateTask
    rw [getTask_addressed addressed, modelValidate_valid valid, ok_bind]
    simp only
    rw [prepareTaskChange_eq valid version, modelValidate_valid preparedValid]
    simp only
    rw [version, find?_guarded addressed]
    simp only
    have passed : raiseIf (¬ TitleCheck prepared.title) PyError.database = .ok () :=
      raiseIf_ok.mpr (not_not.mpr title)
    rw [passed, modelValidate_valid written]
    rfl

/-- An edit that is due raises from the driver if its title fails the check. -/
theorem updateTask_vetoed (addressed : row.Addressed store owner taskId)
    (valid : row.toTaskColumns.Valid) (due : Editable row patch)
    (title : ¬ TitleCheck (patch.title.getD row.title)) :
    Repository.updateTask store owner taskId patch stamp = .error .database := by
  obtain ⟨version, room, fields⟩ := editable_iff.mp due
  have preparedValid := (prepared_valid_iff valid valid.2.2.1).mpr ⟨room, fields⟩
  unfold Repository.updateTask
  rw [getTask_addressed addressed, modelValidate_valid valid, ok_bind]
  simp only
  rw [prepareTaskChange_eq valid version, modelValidate_valid preparedValid]
  simp only
  rw [version, find?_guarded addressed]
  exact bind_error.mpr (Or.inl (raiseIf_error.mpr ⟨title, rfl⟩))

/-- An edit that is not due is refused for its version or for its fields. -/
theorem updateTask_refused (addressed : row.Addressed store owner taskId)
    (valid : row.toTaskColumns.Valid) (undue : ¬ Editable row patch) :
    Repository.updateTask store owner taskId patch stamp =
      .error (.app (if patch.expectedVersion = row.version then .invalidTaskChange
        else .staleVersion)) := by
  unfold Repository.updateTask
  rw [getTask_addressed addressed, modelValidate_valid valid, ok_bind]
  by_cases version : patch.expectedVersion = row.version
  · have invalid := (prepared_valid_iff valid valid.2.2.1).not.mpr fun h =>
      undue (editable_iff.mpr ⟨version, h⟩)
    rw [if_pos version]
    simp only
    rw [prepareTaskChange_eq valid version, modelValidate_invalid invalid]
  · rw [if_neg version]
    simp only
    unfold prepareTaskChange
    rw [if_pos (Ne.symm version)]

theorem updateTask_missing (missing : ∀ row : TaskRow, ¬ row.Addressed store owner taskId) :
    Repository.updateTask store owner taskId patch stamp = .error (.app .notFound) := by
  unfold Repository.updateTask Repository.getTask
  split
  · next row hrow =>
    have hguard := List.find?_some hrow
    simp only [Bool.and_eq_true, decide_eq_true_eq] at hguard
    exact absurd ⟨List.mem_of_find?_eq_some hrow, hguard.1.1, hguard.1.2, hguard.2⟩ (missing row)
  · rfl

end

/-- The edit sets no title that the table refuses. -/
def TitlePasses (patch : TaskPatch) : Prop := ∀ title ∈ patch.title, TitleCheck title

instance (patch : TaskPatch) : Decidable (TitlePasses patch) := by
  unfold TitlePasses
  infer_instance

/-- The title of the patched row passes with the one that is set. -/
theorem titlePasses_iff {row : TaskRow} (checked : TitleCheck row.title) {patch : TaskPatch} :
    TitlePasses patch ↔ TitleCheck (patch.title.getD row.title) := by
  unfold TitlePasses
  cases patch.title with
  | none => simpa using checked
  | some title => simp

/-- An edit fails in one of three ways, or it is due and its title is refused. -/
theorem updateTask_error {store : Store} (sources : SourcesValid store) {owner taskId : UUID}
    {patch : TaskPatch} {stamp : Int} {error : PyError}
    (h : Repository.updateTask store owner taskId patch stamp = .error error) :
    (error = .app .notFound ∨ error = .app .staleVersion ∨ error = .app .invalidTaskChange) ∨
    (error = .database ∧ ∃ row : TaskRow, row.Addressed store owner taskId ∧
      Editable row patch ∧ ¬ TitleCheck (patch.title.getD row.title)) := by
  by_cases found : ∃ row : TaskRow, row.Addressed store owner taskId
  · obtain ⟨row, addressed⟩ := found
    have valid := sources.tasks row addressed.mem addressed.live
    by_cases due : Editable row patch
    · by_cases title : TitleCheck (patch.title.getD row.title)
      · obtain ⟨record, store', h', -⟩ := updateTask_editable addressed valid due title stamp
        rw [h'] at h
        cases h
      · rw [updateTask_vetoed addressed valid due title, Except.error.injEq] at h
        exact Or.inr ⟨h.symm, row, addressed, due, title⟩
    · rw [updateTask_refused addressed valid due, Except.error.injEq] at h
      rw [← h]
      left
      split
      · exact Or.inr (Or.inr rfl)
      · exact Or.inr (Or.inl rfl)
  · rw [updateTask_missing (not_exists.mp found), Except.error.injEq] at h
    exact Or.inl (Or.inl h.symm)

/-- An edit of a live task is answered exactly when it is due, and then does what
the patch says; every other edit is refused with one of three errors and leaves
the store as it was. -/
structure EditExact (zoneInfo : String → Zone) (store : Store) (owner taskId : UUID)
    (patch : TaskPatch) (stamp : Int) : Prop where
  answers : ∀ row : TaskRow, row.Addressed store owner taskId →
    ((∃ answer, Repository.updateTask store owner taskId patch stamp = .ok answer) ↔
      Editable row patch)
  edits : ∀ row : TaskRow, row.Addressed store owner taskId → ∀ record store',
    Repository.updateTask store owner taskId patch stamp = .ok (record, store') →
      Edited store store' row patch record
  refuses : ∀ error, Repository.updateTask store owner taskId patch stamp = .error error →
    (error = .app .notFound ∨ error = .app .staleVersion ∨ error = .app .invalidTaskChange) ∧
    step zoneInfo store (.updateTask owner taskId patch stamp) = store

theorem step_updateTask_error {zoneInfo : String → Zone} {store : Store} {owner taskId : UUID}
    {patch : TaskPatch} {stamp : Int} {error : PyError}
    (h : Repository.updateTask store owner taskId patch stamp = .error error) :
    step zoneInfo store (.updateTask owner taskId patch stamp) = store := by
  have failed : perform zoneInfo store (.updateTask owner taskId patch stamp) =
      .error error := by
    simp only [perform, h]
    rfl
  exact step_of_error zoneInfo failed

theorem editExact_of_passes {zoneInfo : String → Zone} {store : Store}
    (sources : SourcesValid store) (checked : TitlesChecked store) {owner taskId : UUID}
    {patch : TaskPatch} {stamp : Int}
    (passes : ∀ row : TaskRow, row.Addressed store owner taskId → Editable row patch →
      TitlePasses patch) : EditExact zoneInfo store owner taskId patch stamp := by
  have valid : ∀ row : TaskRow, row.Addressed store owner taskId → row.toTaskColumns.Valid :=
    fun row addressed => sources.tasks row addressed.mem addressed.live
  have edited : ∀ row : TaskRow, row.Addressed store owner taskId → Editable row patch →
      ∃ record store', Repository.updateTask store owner taskId patch stamp =
        .ok (record, store') ∧ Edited store store' row patch record := fun row addressed due =>
    updateTask_editable addressed (valid row addressed) due
      ((titlePasses_iff (checked row addressed.mem)).mp (passes row addressed due)) stamp
  refine ⟨fun row addressed => ⟨?_, fun due => ?_⟩, fun row addressed record store' h => ?_,
    fun error h => ⟨?_, step_updateTask_error h⟩⟩
  · rintro ⟨answer, h⟩
    by_contra undue
    rw [updateTask_refused addressed (valid row addressed) undue] at h
    cases h
  · obtain ⟨record, store', h, -⟩ := edited row addressed due
    exact ⟨_, h⟩
  · by_cases due : Editable row patch
    · obtain ⟨record', store'', h', hedited⟩ := edited row addressed due
      rw [h', Except.ok.injEq, Prod.mk.injEq] at h
      rw [← h.1, ← h.2]
      exact hedited
    · rw [updateTask_refused addressed (valid row addressed) due] at h
      cases h
  · rcases updateTask_error sources h with hrefused | ⟨-, row, addressed, due, fails⟩
    · exact hrefused
    · exact absurd ((titlePasses_iff (checked row addressed.mem)).mp (passes row addressed due))
        fails

/-- In every reachable store an edit does what the patch says, and is refused
where it should be, exactly if it is not due for a live task with a title that the
table refuses; such an edit raises from the driver and changes nothing. -/
theorem updateTask_exact (zoneInfo : String → Zone) (commands : List Command)
    (owner taskId : UUID) (patch : TaskPatch) (stamp : Int) :
    (EditExact zoneInfo (reached zoneInfo commands) owner taskId patch stamp ↔
      ∀ row : TaskRow, row.Addressed (reached zoneInfo commands) owner taskId →
        Editable row patch → ∀ title ∈ patch.title, TitleCheck title) ∧
    (∀ row : TaskRow, row.Addressed (reached zoneInfo commands) owner taskId →
      Editable row patch → ∀ title ∈ patch.title, ¬ TitleCheck title →
      Repository.updateTask (reached zoneInfo commands) owner taskId patch stamp =
        .error .database ∧
      step zoneInfo (reached zoneInfo commands) (.updateTask owner taskId patch stamp) =
        reached zoneInfo commands) := by
  have sources := (storeOk_reached zoneInfo commands).sources
  have checked := @titlesChecked_reached zoneInfo commands
  generalize reached zoneInfo commands = store at sources checked ⊢
  have vetoed : ∀ row : TaskRow, row.Addressed store owner taskId → Editable row patch →
      ¬ TitlePasses patch →
      Repository.updateTask store owner taskId patch stamp = .error .database :=
    fun row addressed due fails => updateTask_vetoed addressed
      (sources.tasks row addressed.mem addressed.live) due
      ((titlePasses_iff (checked row addressed.mem)).not.mp fails)
  refine ⟨⟨fun exact_ row addressed due => ?_, editExact_of_passes sources checked⟩,
    fun row addressed due title htitle hfails => ?_⟩
  · by_contra fails
    obtain ⟨answer, h⟩ := (exact_.answers row addressed).mpr due
    rw [vetoed row addressed due fails] at h
    cases h
  · have h := vetoed row addressed due fun passes => hfails (passes title htitle)
    exact ⟨h, step_updateTask_error h⟩

/-- The essay gets a title that begins with U+0000. -/
def nullTitle : TaskPatch where
  expectedVersion := 1
  title := some "\x00note"
  description := none
  durationMinutes := none
  priority := none
  splittable := none
  preferredPeriod := none
  status := none
  earliestStart := none
  deadline := none
  versionValid := versionValid_one
  valuesValid := by simp; decide
  someChange := by decide

/-- The edit of that essay names its version and leaves a valid task, and raises. -/
theorem updateTask_nullTitle :
    (∃ row : TaskRow, row.Addressed (reached (fun _ => Zone.utc) (essayRun.take 2)) 1 1 ∧
      Editable row nullTitle) ∧
    Repository.updateTask (reached (fun _ => Zone.utc) (essayRun.take 2)) 1 1 nullTitle 0 =
      .error .database ∧
    ¬ EditExact (fun _ => Zone.utc) (reached (fun _ => Zone.utc) (essayRun.take 2)) 1 1 nullTitle
      0 := by
  have found : ∃ row ∈ (reached (fun _ => Zone.utc) (essayRun.take 2)).tasks.rows,
      (row.id = 1 ∧ row.userId = 1 ∧ row.deletedAt = none) ∧ Editable row nullTitle := by
    decide +kernel
  obtain ⟨row, hmem, ⟨hid, howner, hlive⟩, due⟩ := found
  have addressed : row.Addressed (reached (fun _ => Zone.utc) (essayRun.take 2)) 1 1 :=
    ⟨Table.mem_rows.mp hmem, hid, howner, hlive⟩
  have valid := (storeOk_reached (fun _ => Zone.utc) (essayRun.take 2)).sources.tasks row
    addressed.mem hlive
  have fails : ¬ TitleCheck "\x00note" :=
    (titleCheck_iff (by decide) (by decide) (by decide)).not.mpr (by decide)
  have raised : Repository.updateTask (reached (fun _ => Zone.utc) (essayRun.take 2)) 1 1 nullTitle
      0 = .error .database := updateTask_vetoed addressed valid due fails
  refine ⟨⟨row, addressed, due⟩, raised, fun exact_ => ?_⟩
  obtain ⟨answer, h⟩ := (exact_.answers row addressed).mpr due
  rw [raised] at h
  cases h

end SmartPlanner

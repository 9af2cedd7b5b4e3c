import SmartPlanner.System

/-!
The rows of `tasks` over a run: whatever the service does, a row stays under its
keys and a deleted row does not change, and the unique keys of the table hold.
-/

namespace SmartPlanner

open Outcome Runs Tables

/-- A later state of a task: no writer changes what identifies it, and none
touches a deleted row. -/
structure TaskRow.Follows (row row' : TaskRow) : Prop where
  id : row'.id = row.id
  userId : row'.userId = row.userId
  clientRequestId : row'.clientRequestId = row.clientRequestId
  creationDigest : row'.creationDigest = row.creationDigest
  recurrenceId : row'.recurrenceId = row.recurrenceId
  occurrenceDate : row'.occurrenceDate = row.occurrenceDate
  deleted : row.deletedAt ≠ none → row' = row

/-- `UNIQUE(user_id,client_request_id)` and
`UNIQUE(user_id,recurrence_id,occurrence_date)`. -/
structure TaskKeys (store : Store) : Prop where
  requests : ∀ a ∈ store.tasks, ∀ b ∈ store.tasks, a.userId = b.userId →
    a.clientRequestId = b.clientRequestId → a = b
  occurrences : ∀ a ∈ store.tasks, ∀ b ∈ store.tasks, a.userId = b.userId →
    a.recurrenceId ≠ none → a.recurrenceId = b.recurrenceId →
    a.occurrenceDate = b.occurrenceDate → a = b

/-- Every title passes the check of the table. -/
def TitlesChecked (store : Store) : Prop := ∀ row ∈ store.tasks, TitleCheck row.title

structure TasksKept (store store' : Store) : Prop where
  follows : ∀ row ∈ store.tasks, ∃ row' ∈ store'.tasks, row.Follows row'
  keys : TaskKeys store → TaskKeys store'

theorem TaskRow.Follows.refl (row : TaskRow) : row.Follows row :=
  ⟨rfl, rfl, rfl, rfl, rfl, rfl, fun _ => rfl⟩

theorem TaskRow.Follows.trans {a b c : TaskRow} (first : a.Follows b) (second : b.Follows c) :
    a.Follows c where
  id := second.id.trans first.id
  userId := second.userId.trans first.userId
  clientRequestId := second.clientRequestId.trans first.clientRequestId
  creationDigest := second.creationDigest.trans first.creationDigest
  recurrenceId := second.recurrenceId.trans first.recurrenceId
  occurrenceDate := second.occurrenceDate.trans first.occurrenceDate
  deleted h := by
    have hb := first.deleted h
    subst hb
    exact second.deleted h

namespace TasksKept
variable {store middle store' : Store}

theorem of_eq (h : store'.tasks = store.tasks) : TasksKept store store' := by
  refine ⟨fun row hrow => ⟨row, h ▸ hrow, .refl row⟩, fun keys => ⟨?_, ?_⟩⟩
  · rw [h]
    exact keys.requests
  · rw [h]
    exact keys.occurrences

theorem trans (first : TasksKept store middle) (second : TasksKept middle store') :
    TasksKept store store' := by
  refine ⟨fun row hrow => ?_, fun keys => second.keys (first.keys keys)⟩
  obtain ⟨a, ha, hfirst⟩ := first.follows row hrow
  obtain ⟨b, hb, hsecond⟩ := second.follows a ha
  exact ⟨b, hb, hfirst.trans hsecond⟩

/-- An update that keeps what identifies a row. -/
theorem update {p : TaskRow → Bool} {f : TaskRow → TaskRow} {keeps : ∀ row, (f row).id = row.id}
    (h : store'.tasks = store.tasks.update p f keeps)
    (follows : ∀ row, p row = true → row.Follows (f row)) : TasksKept store store' := by
  have each : ∀ row : TaskRow, row.Follows (if p row then f row else row) := by
    intro row
    split
    · next hp => exact follows row hp
    · exact .refl row
  have updated : ∀ row, row ∈ store'.tasks ↔
      ∃ old ∈ store.tasks, row = if p old then f old else old := by
    rw [h]
    exact fun row => Table.mem_update
  refine ⟨fun row hrow => ⟨_, (updated _).mpr ⟨row, hrow, rfl⟩, each row⟩,
    fun keys => ⟨fun a ha b hb howner hrequest => ?_,
      fun a ha b hb howner hsome hseries hdate => ?_⟩⟩
  · obtain ⟨a, hold, rfl⟩ := (updated _).mp ha
    obtain ⟨b, hold', rfl⟩ := (updated _).mp hb
    rw [(each a).userId, (each b).userId] at howner
    rw [(each a).clientRequestId, (each b).clientRequestId] at hrequest
    rw [keys.requests a hold b hold' howner hrequest]
  · obtain ⟨a, hold, rfl⟩ := (updated _).mp ha
    obtain ⟨b, hold', rfl⟩ := (updated _).mp hb
    rw [(each a).userId, (each b).userId] at howner
    rw [(each a).recurrenceId] at hsome hseries
    rw [(each b).recurrenceId] at hseries
    rw [(each a).occurrenceDate, (each b).occurrenceDate] at hdate
    rw [keys.occurrences a hold b hold' howner hsome hseries hdate]

end TasksKept

/-- What `INSERT INTO tasks` checked and did. -/
structure TaskInserted (store store' : Store) (row : TaskRow) : Prop where
  title : TitleCheck row.title
  request : ∀ other ∈ store.tasks, other.userId = row.userId →
    other.clientRequestId ≠ row.clientRequestId
  occurrence : row.recurrenceId ≠ none → ∀ other ∈ store.tasks, other.userId = row.userId →
    other.recurrenceId = row.recurrenceId → other.occurrenceDate ≠ row.occurrenceDate
  account : ∃ user ∈ store.users, user.id = row.userId
  fresh : ∀ other ∈ store.tasks, other.id ≠ row.id
  rows : store'.tasks.rows = store.tasks.rows ++ [row]
  others : store' = { store with tasks := store'.tasks }

theorem insertTask_ok {store store' : Store} {row : TaskRow}
    (h : insertTask store row = .ok store') : TaskInserted store store' row := by
  unfold insertTask at h
  simp only [raiseIf_bind_ok] at h
  simp only [bind_ok, pure_eq_ok, Except.ok.injEq] at h
  obtain ⟨htitle, haccount, hrequest, hoccurrence, tasks, htasks, rfl⟩ := h
  obtain ⟨hfresh, hrows⟩ := Table.insert?_eq_some (insertRow_ok.mp htasks)
  refine ⟨not_not.mp htitle, fun other ho howner heq => hrequest ⟨other, ho, howner, heq⟩,
    fun hsome other ho howner hseries heq => hoccurrence ⟨hsome, other, ho, howner, hseries, heq⟩,
    ?_, hfresh, hrows, rfl⟩
  cases hfind : store.users.find? row.userId with
  | none => exact absurd hfind haccount
  | some user => exact ⟨user, Table.find?_eq_some.mp hfind⟩

theorem TaskInserted.mem {store store' : Store} {row : TaskRow}
    (inserted : TaskInserted store store' row) (other : TaskRow) :
    other ∈ store'.tasks ↔ other ∈ store.tasks ∨ other = row := by
  rw [← Table.mem_rows, inserted.rows, List.mem_append, List.mem_singleton, Table.mem_rows]

theorem TaskInserted.kept {store store' : Store} {row : TaskRow}
    (inserted : TaskInserted store store' row) : TasksKept store store' := by
  refine ⟨fun old hold => ⟨old, (inserted.mem old).mpr (Or.inl hold), .refl old⟩,
    fun keys => ⟨fun a ha b hb howner hrequest => ?_,
      fun a ha b hb howner hsome hseries hdate => ?_⟩⟩
  · rcases (inserted.mem a).mp ha with ha | rfl <;> rcases (inserted.mem b).mp hb with hb | rfl
    · exact keys.requests a ha b hb howner hrequest
    · exact absurd hrequest (inserted.request a ha howner)
    · exact absurd hrequest.symm (inserted.request b hb howner.symm)
    · rfl
  · rcases (inserted.mem a).mp ha with ha | rfl <;> rcases (inserted.mem b).mp hb with hb | rfl
    · exact keys.occurrences a ha b hb howner hsome hseries hdate
    · exact absurd hdate (inserted.occurrence (hseries ▸ hsome) a ha howner hseries)
    · exact absurd hdate.symm (inserted.occurrence hsome b hb howner.symm hseries.symm)
    · rfl

theorem taskKeys_empty : TaskKeys Store.empty :=
  ⟨fun row h => absurd h (Table.not_mem_empty row), fun row h => absurd h (Table.not_mem_empty row)⟩

/-- Several inserts in one transaction. -/
structure RecurrenceRepository.TasksInserted (store store' : Store) (rows : List TaskRow) :
    Prop where
  kept : TasksKept store store'
  titles : ∀ row ∈ rows, TitleCheck row.title
  rows : store'.tasks.rows = store.tasks.rows ++ rows
  others : store' = { store with tasks := store'.tasks }

theorem RecurrenceRepository.TasksInserted.mem {store store' : Store} {rows : List TaskRow}
    (inserted : TasksInserted store store' rows) (other : TaskRow) :
    other ∈ store'.tasks ↔ other ∈ store.tasks ∨ other ∈ rows := by
  rw [← Table.mem_rows, inserted.rows, List.mem_append, Table.mem_rows]

def Command.createsTask : Command → Bool
  | .createTask .. => true
  | _ => false

def Command.editsTask : Command → Bool
  | .updateTask .. => true
  | .deleteTask .. => true
  | _ => false

/-- What an answered command did to the tasks. -/
inductive TaskChange (store store' : Store) : Command → Prop
  | same {command : Command} (h : store'.tasks = store.tasks) : TaskChange store store' command
  | created {owner id : UUID} {task : TaskCreate} {stamp : Int} {row : TaskRow}
      (inserted : TaskInserted store store' row) (own : row.userId = owner)
      (fresh : row.version = 1) :
      TaskChange store store' (.createTask owner task id stamp)
  | updated {owner taskId : UUID} {patch : TaskPatch} {stamp : Int} {prepared : TaskRecord}
      (title : TitleCheck prepared.title)
      (h : store'.tasks = store.tasks.update (TaskRow.guarded owner taskId patch.expectedVersion)
        (TaskRow.assign prepared stamp) fun _ => rfl) :
      TaskChange store store' (.updateTask owner taskId patch stamp)
  | deleted {owner taskId : UUID} {expectedVersion : Nat} {stamp : Int}
      (h : store'.tasks = store.tasks.update (TaskRow.guarded owner taskId expectedVersion)
        (TaskRow.tombstone stamp) fun _ => rfl) :
      TaskChange store store' (.deleteTask owner taskId expectedVersion stamp)
  | generated {owner recurrenceId : UUID} {request : OccurrenceRequest}
      {fresh : Nat → UUID × UUID} {now stamp : Int} {rows : List TaskRow}
      (inserted : RecurrenceRepository.TasksInserted store store' rows)
      (generated : ∀ row ∈ rows, row.userId = owner ∧ row.creationDigest = none ∧
        row.version = 1) :
      TaskChange store store' (.materialize owner recurrenceId request fresh now stamp)

/-- A guarded edit or tombstone of a live row. -/
theorem guarded_follows {owner taskId : UUID} {expectedVersion : Nat} {row row' : TaskRow}
    (hguard : TaskRow.guarded owner taskId expectedVersion row = true)
    (same : row'.id = row.id ∧ row'.userId = row.userId ∧
      row'.clientRequestId = row.clientRequestId ∧ row'.creationDigest = row.creationDigest ∧
      row'.recurrenceId = row.recurrenceId ∧ row'.occurrenceDate = row.occurrenceDate) :
    row.Follows row' :=
  ⟨same.1, same.2.1, same.2.2.1, same.2.2.2.1, same.2.2.2.2.1, same.2.2.2.2.2,
    fun hdeleted => absurd (Repository.guarded_iff.mp hguard).2.2.2 hdeleted⟩

namespace TaskChange
variable {store store' : Store} {command : Command}

theorem kept (change : TaskChange store store' command) : TasksKept store store' := by
  cases change with
  | same h => exact .of_eq h
  | created inserted => exact inserted.kept
  | updated title h =>
      exact .update h fun row hguard => guarded_follows hguard ⟨rfl, rfl, rfl, rfl, rfl, rfl⟩
  | deleted h =>
      exact .update h fun row hguard => guarded_follows hguard ⟨rfl, rfl, rfl, rfl, rfl, rfl⟩
  | generated inserted => exact inserted.kept

theorem titles (change : TaskChange store store' command) (checked : TitlesChecked store) :
    TitlesChecked store' := by
  intro row' hrow'
  cases change with
  | same h => exact checked row' (h ▸ hrow')
  | created inserted =>
      rcases (inserted.mem row').mp hrow' with hold | rfl
      · exact checked row' hold
      · exact inserted.title
  | updated title h =>
      rw [h] at hrow'
      obtain ⟨row, hrow, rfl⟩ := Table.mem_update.mp hrow'
      split
      · exact title
      · exact checked row hrow
  | deleted h =>
      rw [h] at hrow'
      obtain ⟨row, hrow, rfl⟩ := Table.mem_update.mp hrow'
      split
      · exact checked row hrow
      · exact checked row hrow
  | generated inserted =>
      rcases (inserted.mem row').mp hrow' with hold | hnew
      · exact checked row' hold
      · exact inserted.titles row' hnew

/-- Edits and deletes aside, a command leaves every row as it is. -/
theorem stays (change : TaskChange store store' command) (unedited : command.editsTask = false) :
    ∀ row ∈ store.tasks, row ∈ store'.tasks := by
  intro row hrow
  cases change with
  | same h => exact h ▸ hrow
  | created inserted => exact (inserted.mem row).mpr (Or.inl hrow)
  | updated title h => cases unedited
  | deleted h => cases unedited
  | generated inserted => exact (inserted.mem row).mpr (Or.inl hrow)

/-- Create attempts aside, a command adds only rows that nobody asked for. -/
theorem unasked (change : TaskChange store store' command)
    (uncreated : command.createsTask = false) :
    ∀ row' ∈ store'.tasks, (∃ row ∈ store.tasks, row'.userId = row.userId ∧
      row'.clientRequestId = row.clientRequestId) ∨ row'.creationDigest = none := by
  have updated : ∀ {p : TaskRow → Bool} {f : TaskRow → TaskRow}
      {keeps : ∀ row, (f row).id = row.id}, store'.tasks = store.tasks.update p f keeps →
      (∀ row, (f row).userId = row.userId ∧ (f row).clientRequestId = row.clientRequestId) →
      ∀ row' ∈ store'.tasks, (∃ row ∈ store.tasks, row'.userId = row.userId ∧
        row'.clientRequestId = row.clientRequestId) ∨ row'.creationDigest = none := by
    intro p f keeps h same row' hrow'
    rw [h] at hrow'
    obtain ⟨row, hrow, rfl⟩ := Table.mem_update.mp hrow'
    refine Or.inl ⟨row, hrow, ?_⟩
    split
    · exact same row
    · exact ⟨rfl, rfl⟩
  cases change with
  | same h => exact fun row' hrow' => Or.inl ⟨row', h ▸ hrow', rfl, rfl⟩
  | created inserted => cases uncreated
  | updated title h => exact updated h fun row => ⟨rfl, rfl⟩
  | deleted h => exact updated h fun row => ⟨rfl, rfl⟩
  | generated inserted generated =>
      intro row' hrow'
      rcases (inserted.mem row').mp hrow' with hold | hnew
      · exact Or.inl ⟨row', hold, rfl, rfl⟩
      · exact Or.inr (generated row' hnew).2.1

/-- Edits aside, every row was there before or starts at the first version. -/
theorem fresh (change : TaskChange store store' command) (unedited : command.editsTask = false) :
    ∀ row' ∈ store'.tasks, row' ∈ store.tasks ∨ row'.version = 1 := by
  intro row' hrow'
  cases change with
  | same h => exact Or.inl (h ▸ hrow')
  | created inserted own fresh =>
      rcases (inserted.mem row').mp hrow' with hold | rfl
      · exact Or.inl hold
      · exact Or.inr fresh
  | updated title h => cases unedited
  | deleted h => cases unedited
  | generated inserted generated =>
      rcases (inserted.mem row').mp hrow' with hold | hnew
      · exact Or.inl hold
      · exact Or.inr (generated row' hnew).2.2

end TaskChange

namespace Repository
variable {store store' : Store}

theorem createTask_change {owner id : UUID} {task : TaskCreate} {stamp : Int}
    {answer : TaskRecord × Bool}
    (h : createTask store owner task id stamp = .ok (answer, store')) :
    TaskChange store store' (.createTask owner task id stamp) := by
  obtain ⟨-, rfl | ⟨row, rfl, -, hinsert⟩⟩ := createTask_ok h
  · exact .same rfl
  · exact .created (insertTask_ok hinsert) rfl rfl

theorem updateTask_change {owner taskId : UUID} {patch : TaskPatch} {stamp : Int}
    {answer : TaskRecord} (h : updateTask store owner taskId patch stamp = .ok (answer, store')) :
    TaskChange store store' (.updateTask owner taskId patch stamp) := by
  obtain ⟨current, prepared, row, -, -, -, htitle, -, rfl⟩ := updateTask_ok h
  exact .updated htitle rfl

theorem deleteTask_change {owner taskId : UUID} {expectedVersion : Nat} {stamp : Int}
    (h : deleteTask store owner taskId expectedVersion stamp = .ok store') :
    TaskChange store store' (.deleteTask owner taskId expectedVersion stamp) := by
  unfold deleteTask at h
  simp only [bind_ok] at h
  obtain ⟨current, -, -, -, h⟩ := h
  split at h
  · contradiction
  · rw [pure_eq_ok, Except.ok.injEq] at h
    rw [← h]
    exact .deleted rfl

end Repository

namespace RecurrenceRepository
variable {store store' : Store}

theorem insertTasks_ok {rows : List TaskRow} (h : rows.foldlM insertTask store = .ok store') :
    TasksInserted store store' rows := by
  refine foldlM_inits (fun pre middle => TasksInserted store middle pre)
    ⟨.of_eq rfl, List.forall_mem_nil _, (List.append_nil _).symm, rfl⟩
    (fun pre row post middle next _ inserted hnext => ?_) h
  have step := insertTask_ok hnext
  refine ⟨inserted.kept.trans step.kept, ?_, ?_, ?_⟩
  · exact List.forall_mem_append.mpr ⟨inserted.titles, List.forall_mem_singleton.mpr step.title⟩
  · rw [step.rows, inserted.rows, List.append_assoc]
  · rw [step.others, inserted.others]

theorem insertOccurrences_ok {zone : Zone} {owner : UUID} {series : RecurrenceRecord}
    {days : List Int} {fresh : Nat → UUID × UUID} {stamp : Int} {created : List TaskRecord}
    (h : insertOccurrences store zone owner series days fresh stamp = .ok (created, store')) :
    ∃ rows, occurrenceRows zone owner series days fresh stamp = .ok rows ∧
      TasksInserted store store' rows ∧
      rows.mapM (fun row => TaskRecord.modelValidate row.toTaskColumns) = .ok created := by
  unfold insertOccurrences at h
  simp only [bind_ok, pure_eq_ok, Except.ok.injEq, Prod.mk.injEq] at h
  obtain ⟨rows, hrows, inserted, hinserted, tasks, htasks, rfl, rfl⟩ := h
  exact ⟨rows, hrows, insertTasks_ok hinserted, htasks⟩

/-- A generated task has one of the drawn ids, was not asked for and is new. -/
theorem occurrenceRows_generated {zone : Zone} {owner : UUID} {series : RecurrenceRecord}
    {days : List Int} {fresh : Nat → UUID × UUID} {stamp : Int} {rows : List TaskRow}
    (h : occurrenceRows zone owner series days fresh stamp = .ok rows) :
    ∀ row ∈ rows, row.userId = owner ∧ row.creationDigest = none ∧ row.version = 1 ∧
      ∃ index < days.length, row.id = (fresh index).1 := by
  have shapes : rows.map (fun row => (row.userId, row.creationDigest, row.version, row.id)) =
      days.zipIdx.map fun entry => (owner, none, 1, (fresh entry.2).1) := by
    refine map_eq_of_mapM_ok (fun entry row hrow => ?_) h
    simp only [bind_ok, pure_eq_ok, Except.ok.injEq] at hrow
    obtain ⟨window, -, rfl⟩ := hrow
    rfl
  intro row hrow
  have hmem := List.mem_map_of_mem
    (f := fun row => (row.userId, row.creationDigest, row.version, row.id)) hrow
  rw [shapes, List.mem_map] at hmem
  obtain ⟨entry, hentry, heq⟩ := hmem
  simp only [Prod.mk.injEq] at heq
  obtain ⟨howner, hasked, hversion, hid⟩ := heq
  exact ⟨howner.symm, hasked.symm, hversion.symm, entry.2, List.snd_lt_of_mem_zipIdx hentry,
    hid.symm⟩

theorem materialize_change {zoneInfo : String → Zone} {owner recurrenceId : UUID}
    {request : OccurrenceRequest} {fresh : Nat → UUID × UUID} {now stamp : Int}
    {answer : OccurrenceResult}
    (h : materialize store zoneInfo owner recurrenceId request fresh now stamp =
      .ok (answer, store')) :
    TaskChange store store' (.materialize owner recurrenceId request fresh now stamp) := by
  unfold materialize at h
  simp only [bind_ok, pure_eq_ok, Except.ok.injEq, Prod.mk.injEq] at h
  obtain ⟨series, -, -, -, tasks, -, ⟨created, inserted⟩, hinsert, -, rfl⟩ := h
  obtain ⟨rows, hrows, inserted, -⟩ := insertOccurrences_ok hinsert
  refine .generated inserted fun row hrow => ?_
  obtain ⟨howner, hasked, hversion, -⟩ := occurrenceRows_generated hrows row hrow
  exact ⟨howner, hasked, hversion⟩

end RecurrenceRepository

section
variable {zoneInfo : String → Zone}

theorem perform_taskChange {store store' : Store} {command : Command}
    (h : perform zoneInfo store command = .ok store') : TaskChange store store' command := by
  have writes := perform_writes h
  cases command with
  | deleteTask => exact Repository.deleteTask_change h
  | createTask =>
      obtain ⟨answer, h⟩ := snd_map_ok h
      exact Repository.createTask_change h
  | updateTask =>
      obtain ⟨answer, h⟩ := snd_map_ok h
      exact Repository.updateTask_change h
  | materialize =>
      obtain ⟨answer, h⟩ := snd_map_ok h
      exact RecurrenceRepository.materialize_change h
  | _ => exact .same (writes.unwritten.1 Area.noConfusion)

theorem step_taskChange (store : Store) (command : Command) :
    TaskChange store (step zoneInfo store command) command := by
  unfold step
  split
  · next h => exact perform_taskChange h
  · exact .same rfl

theorem step_tasksKept (store : Store) (command : Command) :
    TasksKept store (step zoneInfo store command) :=
  (step_taskChange store command).kept

theorem run_tasksKept (store : Store) (commands : List Command) :
    TasksKept store (run (step zoneInfo) store commands) :=
  run_invariant (.of_eq rfl) (fun middle command kept => kept.trans (step_tasksKept middle command))
    commands

theorem taskKeys_reached (commands : List Command) : TaskKeys (reached zoneInfo commands) :=
  (run_tasksKept Store.empty commands).keys taskKeys_empty

theorem titlesChecked_reached (commands : List Command) :
    TitlesChecked (reached zoneInfo commands) :=
  run_invariant (fun row h => absurd h (Table.not_mem_empty row))
    (fun middle command checked => (step_taskChange middle command).titles checked) commands

end

end SmartPlanner

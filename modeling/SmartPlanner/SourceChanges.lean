import SmartPlanner.FixedEventRepository
import SmartPlanner.RecurrenceRepository

/-!
What the writers of tasks, preferences, recurrences, events and accounts do to
the store: no row of a source is lost, a changed row carries a higher version,
and the schedule tables stay as they are.
-/

namespace SmartPlanner

open Outcome Sorting Tables

/-! The tables each function writes. -/

theorem insertTask_writes {store store' : Store} {row : TaskRow}
    (h : insertTask store row = .ok store') : ∃ tasks, store' = { store with tasks } := by
  unfold insertTask at h
  simp only [raiseIf_bind_ok] at h
  simp only [bind_ok, pure_eq_ok, Except.ok.injEq] at h
  obtain ⟨-, -, -, -, tasks, -, rfl⟩ := h
  exact ⟨tasks, rfl⟩

namespace Repository
variable {store store' : Store}

theorem register_writes {id : UUID} {email timezone : String} {stamp : Int} {user : UserRow}
    (h : register store id email timezone stamp = .ok (user, store')) :
    ∃ users preferences, store' = { store with users, preferences } := by
  unfold register at h
  rw [raiseIf_bind_ok] at h
  simp only [bind_ok, pure_eq_ok, Except.ok.injEq, Prod.mk.injEq] at h
  obtain ⟨-, users, -, preferences, -, -, rfl⟩ := h
  exact ⟨users, preferences, rfl⟩

theorem createTask_writes {owner id : UUID} {task : TaskCreate} {stamp : Int}
    {answer : TaskRecord × Bool}
    (h : createTask store owner task id stamp = .ok (answer, store')) :
    ∃ tasks, store' = { store with tasks } := by
  obtain ⟨-, rfl | ⟨row, -, -, hinsert⟩⟩ := createTask_ok h
  · exact ⟨store'.tasks, rfl⟩
  · exact insertTask_writes hinsert

theorem updateTask_writes {owner taskId : UUID} {patch : TaskPatch} {stamp : Int}
    {answer : TaskRecord} (h : updateTask store owner taskId patch stamp = .ok (answer, store')) :
    ∃ tasks, store' = { store with tasks } := by
  obtain ⟨current, prepared, row, -, -, -, -, -, rfl⟩ := updateTask_ok h
  exact ⟨_, rfl⟩

theorem deleteTask_writes {owner taskId : UUID} {expectedVersion : Nat} {stamp : Int}
    (h : deleteTask store owner taskId expectedVersion stamp = .ok store') :
    ∃ tasks, store' = { store with tasks } := by
  unfold deleteTask at h
  simp only [bind_ok] at h
  obtain ⟨current, -, -, -, h⟩ := h
  split at h
  · contradiction
  · rw [pure_eq_ok, Except.ok.injEq] at h
    exact ⟨_, h.symm⟩

theorem updatePreferences_writes {owner : UUID} {update : PreferencePut} {stamp : Int}
    {answer : PreferenceRecord}
    (h : updatePreferences store owner update stamp = .ok (answer, store')) :
    ∃ preferences, store' = { store with preferences } := by
  unfold updatePreferences at h
  simp only at h
  split at h
  · contradiction
  · simp only [bind_ok, pure_eq_ok, Except.ok.injEq, Prod.mk.injEq] at h
    obtain ⟨result, -, -, rfl⟩ := h
    exact ⟨_, rfl⟩

end Repository

namespace RecurrenceRepository
variable {store store' : Store}

theorem create_writes {owner id : UUID} {data : RecurrenceCreate} {stamp : Int}
    {answer : RecurrenceRecord × Bool}
    (h : create store owner data id stamp = .ok (answer, store')) :
    ∃ recurrences, store' = { store with recurrences } := by
  unfold create at h
  split at h
  · simp only [bind_ok, pure_eq_ok, Except.ok.injEq, Prod.mk.injEq] at h
    obtain ⟨recurrences, -, result, -, -, rfl⟩ := h
    exact ⟨recurrences, rfl⟩
  · contradiction
  · simp only [raiseIf_bind_ok] at h
    simp only [bind_ok, pure_eq_ok, Except.ok.injEq, Prod.mk.injEq] at h
    obtain ⟨-, -, result, -, -, rfl⟩ := h
    exact ⟨store.recurrences, rfl⟩

theorem replace_writes {owner recurrenceId : UUID} {data : RecurrenceReplace} {stamp : Int}
    {answer : RecurrenceRecord}
    (h : replace store owner recurrenceId data stamp = .ok (answer, store')) :
    ∃ recurrences, store' = { store with recurrences } := by
  unfold replace at h
  simp only [bind_ok] at h
  obtain ⟨current, -, -, -, h⟩ := h
  split at h
  · contradiction
  · simp only [bind_ok, pure_eq_ok, Except.ok.injEq, Prod.mk.injEq] at h
    obtain ⟨result, -, -, rfl⟩ := h
    exact ⟨_, rfl⟩

theorem delete_writes {owner recurrenceId : UUID} {expectedVersion : Nat} {stamp : Int}
    (h : delete store owner recurrenceId expectedVersion stamp = .ok store') :
    ∃ recurrences, store' = { store with recurrences } := by
  unfold delete at h
  simp only [bind_ok, pure_eq_ok, Except.ok.injEq] at h
  obtain ⟨current, -, -, -, rfl⟩ := h
  exact ⟨_, rfl⟩

theorem materialize_writes {zoneInfo : String → Zone} {owner recurrenceId : UUID}
    {request : OccurrenceRequest} {fresh : Nat → UUID × UUID} {now stamp : Int}
    {answer : OccurrenceResult}
    (h : materialize store zoneInfo owner recurrenceId request fresh now stamp =
      .ok (answer, store')) : ∃ tasks, store' = { store with tasks } := by
  unfold materialize insertOccurrences at h
  simp only [bind_ok, pure_eq_ok, Except.ok.injEq, Prod.mk.injEq] at h
  obtain ⟨series, -, -, -, live, -, ⟨created, inserted⟩,
    ⟨rows, -, written, hinserted, tasks, -, -, rfl⟩, -, rfl⟩ := h
  refine foldlM_invariant (fun middle : Store => ∃ tasks, middle = { store with tasks })
    ⟨store.tasks, rfl⟩ (fun row _ middle next hmiddle hnext => ?_) hinserted
  obtain ⟨before, rfl⟩ := hmiddle
  obtain ⟨tasks, rfl⟩ := insertTask_writes hnext
  exact ⟨tasks, rfl⟩

end RecurrenceRepository

namespace FixedEventRepository
variable {store store' : Store}

theorem create_writes {owner id : UUID} {data : FixedEventCreate} {stamp : Int}
    {answer : FixedEventRow} (h : create store owner data id stamp = .ok (answer, store')) :
    ∃ events, store' = { store with events } := by
  obtain ⟨-, -, -, events, -, rfl⟩ := create_ok h
  exact ⟨events, rfl⟩

theorem replace_writes {owner eventId : UUID} {data : FixedEventReplace} {stamp : Int}
    {answer : FixedEventRow}
    (h : replace store owner eventId data stamp = .ok (answer, store')) :
    ∃ events, store' = { store with events } :=
  ⟨_, (replace_ok h).2⟩

theorem delete_writes {owner eventId : UUID} {expectedVersion : Nat}
    (h : delete store owner eventId expectedVersion = .ok store') :
    ∃ events, store' = { store with events } := by
  unfold delete at h
  simp only at h
  split at h
  · rw [Except.ok.injEq] at h
    exact ⟨_, h.symm⟩
  · rw [bind_ok] at h
    obtain ⟨-, -, h⟩ := h
    contradiction

end FixedEventRepository

/-! Later rows. -/

/-- A later state of a task row. -/
def TaskRow.Later (row row' : TaskRow) : Prop :=
  row'.userId = row.userId ∧ row.version < row'.version

def PreferenceRow.Later (row row' : PreferenceRow) : Prop := row.version < row'.version

/-- Whatever a client reads of the sources passes its contract. -/
structure SourcesValid (store : Store) : Prop where
  tasks : ∀ row ∈ store.tasks, row.deletedAt = none → row.toTaskColumns.Valid
  preferences : ∀ row ∈ store.preferences, VersionValid row.version

/-- The sources of saved layouts only grow. -/
structure SourcesEvolve (store store' : Store) : Prop where
  users : ∀ user ∈ store.users, user ∈ store'.users
  tasks : store.tasks.Evolves TaskRow.Later store'.tasks
  preferences : store.preferences.Evolves PreferenceRow.Later store'.preferences
  valid : SourcesValid store → SourcesValid store'

/-- A change of sources alone. -/
structure SourcesGrow (store store' : Store) : Prop extends SourcesEvolve store store' where
  schedules : store'.schedules = store.schedules
  versions : store'.versions = store.versions
  commands : store'.commands = store.commands
  allocations : store'.allocations = store.allocations

theorem SourcesEvolve.of_eq {store store' : Store} (users : store'.users = store.users)
    (tasks : store'.tasks = store.tasks) (preferences : store'.preferences = store.preferences) :
    SourcesEvolve store store' where
  users _ h := users ▸ h
  tasks := tasks ▸ .refl _
  preferences := preferences ▸ .refl _
  valid h := ⟨tasks ▸ h.tasks, preferences ▸ h.preferences⟩

/-- The tables that no saved layout reads. -/
theorem SourcesGrow.unrelated (store : Store) (recurrences : Table RecurrenceRow.id)
    (events : Table FixedEventRow.id) :
    SourcesGrow store { store with recurrences, events } :=
  ⟨.of_eq rfl rfl rfl, rfl, rfl, rfl, rfl⟩

theorem SourcesGrow.refl (store : Store) : SourcesGrow store store :=
  .unrelated store store.recurrences store.events

theorem SourcesGrow.insertTask {store store' : Store} {row : TaskRow}
    (h : insertTask store row = .ok store') (valid : row.toTaskColumns.Valid) :
    SourcesGrow store store' := by
  unfold SmartPlanner.insertTask at h
  simp only [raiseIf_bind_ok] at h
  simp only [bind_ok, pure_eq_ok, Except.ok.injEq] at h
  obtain ⟨-, -, -, -, tasks, htasks, rfl⟩ := h
  have mem := Table.mem_insert? (insertRow_ok.mp htasks)
  refine ⟨⟨fun _ h => h, .of_superset fun old hold => (mem old).mpr (Or.inl hold), .refl _,
    fun sources => ⟨fun old hold hlive => ?_, sources.preferences⟩⟩, rfl, rfl, rfl, rfl⟩
  rcases (mem old).mp hold with hold | rfl
  · exact sources.tasks old hold hlive
  · exact valid

theorem SourcesGrow.trans {store middle store' : Store} (first : SourcesGrow store middle)
    (second : SourcesGrow middle store') : SourcesGrow store store' where
  users user h := second.users user (first.users user h)
  tasks := first.tasks.trans
    (fun _ _ _ h h' => ⟨h'.1.trans h.1, h.2.trans h'.2⟩) second.tasks
  preferences := first.preferences.trans (fun _ _ _ h h' => Nat.lt_trans h h') second.preferences
  schedules := second.schedules.trans first.schedules
  versions := second.versions.trans first.versions
  commands := second.commands.trans first.commands
  allocations := second.allocations.trans first.allocations
  valid h := second.valid (first.valid h)

/-- A guarded `UPDATE tasks` that gives every row it touches a later, valid
state. -/
theorem SourcesGrow.updateTasks {store : Store} {p : TaskRow → Bool} {f : TaskRow → TaskRow}
    {keeps : ∀ row, (f row).id = row.id} (later : ∀ row, p row = true → row.Later (f row))
    (valid : ∀ row ∈ store.tasks, p row = true → (f row).deletedAt = none →
      (f row).toTaskColumns.Valid) :
    SourcesGrow store { store with tasks := store.tasks.update p f keeps } := by
  refine ⟨⟨fun _ h => h, .update keeps fun row _ hp => later row hp, .refl _,
    fun sources => ⟨fun row hrow hlive => ?_, sources.preferences⟩⟩, rfl, rfl, rfl, rfl⟩
  simp only [Table.mem_update] at hrow
  obtain ⟨old, hold, rfl⟩ := hrow
  split at hlive
  · next hp =>
      rw [if_pos hp]
      exact valid old hold hp hlive
  · next hp =>
      rw [if_neg hp]
      exact sources.tasks old hold hlive

namespace Repository
variable {store store' : Store}

theorem register_grow {id : UUID} {email timezone : String} {stamp : Int} {user : UserRow}
    (h : register store id email timezone stamp = .ok (user, store')) :
    SourcesGrow store store' := by
  unfold register at h
  rw [raiseIf_bind_ok] at h
  simp only [bind_ok, pure_eq_ok, Except.ok.injEq, Prod.mk.injEq] at h
  obtain ⟨-, users, husers, preferences, hpreferences, -, rfl⟩ := h
  have usersMem := Table.mem_insert? (insertRow_ok.mp husers)
  have preferencesMem := Table.mem_insert? (insertRow_ok.mp hpreferences)
  refine ⟨⟨fun row hrow => (usersMem row).mpr (Or.inl hrow), .refl _,
    .of_superset fun row hrow => (preferencesMem row).mpr (Or.inl hrow),
    fun sources => ⟨sources.tasks, fun row hrow => ?_⟩⟩, rfl, rfl, rfl, rfl⟩
  rcases (preferencesMem row).mp hrow with hrow | rfl
  · exact sources.preferences row hrow
  · exact versionValid_one

theorem createTask_grow {owner id : UUID} {task : TaskCreate} {stamp : Int}
    {answer : TaskRecord × Bool}
    (h : createTask store owner task id stamp = .ok (answer, store')) :
    SourcesGrow store store' := by
  obtain ⟨-, rfl | ⟨row, -, hanswer, hinsert⟩⟩ := createTask_ok h
  · exact .refl store'
  · exact .insertTask hinsert (hanswer ▸ answer.1.valid)

theorem guarded_iff {owner taskId : UUID} {expectedVersion : Nat} {row : TaskRow} :
    TaskRow.guarded owner taskId expectedVersion row = true ↔
      row.id = taskId ∧ row.userId = owner ∧ row.version = expectedVersion ∧
      row.deletedAt = none := by
  simp [TaskRow.guarded, and_assoc]

theorem updateTask_grow {owner taskId : UUID} {patch : TaskPatch} {stamp : Int}
    {answer : TaskRecord} (h : updateTask store owner taskId patch stamp = .ok (answer, store')) :
    SourcesGrow store store' := by
  obtain ⟨current, prepared, row, -, -, hrow, -, hanswer, rfl⟩ := updateTask_ok h
  refine .updateTasks (fun old _ => ⟨rfl, Nat.lt_succ_self _⟩) fun old hold hp _ => ?_
  have hguard := guarded_iff.mp (List.find?_some hrow)
  have hsame := store.tasks.eq_of_key hold (List.mem_of_find?_eq_some hrow)
    ((guarded_iff.mp hp).1.trans hguard.1.symm)
  rw [hsame]
  exact hanswer ▸ answer.valid

theorem deleteTask_grow {owner taskId : UUID} {expectedVersion : Nat} {stamp : Int}
    (h : deleteTask store owner taskId expectedVersion stamp = .ok store') :
    SourcesGrow store store' := by
  unfold deleteTask at h
  simp only [bind_ok] at h
  obtain ⟨current, -, -, -, h⟩ := h
  split at h
  · contradiction
  · rw [pure_eq_ok, Except.ok.injEq] at h
    rw [← h]
    exact .updateTasks (fun old _ => ⟨rfl, Nat.lt_succ_self _⟩) fun old _ _ hlive =>
      absurd hlive (Option.some_ne_none _)

theorem updatePreferences_grow {owner : UUID} {update : PreferencePut} {stamp : Int}
    {answer : PreferenceRecord}
    (h : updatePreferences store owner update stamp = .ok (answer, store')) :
    SourcesGrow store store' := by
  unfold updatePreferences at h
  simp only at h
  split at h
  · contradiction
  · next row hrow =>
      simp only [bind_ok, pure_eq_ok, Except.ok.injEq, Prod.mk.injEq] at h
      obtain ⟨result, hresult, -, rfl⟩ := h
      refine ⟨⟨fun _ h => h, .refl _, .update (by exact fun _ => rfl) fun _ _ _ =>
        Nat.lt_succ_self _, fun sources => ⟨sources.tasks, fun new hnew => ?_⟩⟩, rfl, rfl, rfl,
        rfl⟩
      simp only [Table.mem_update] at hnew
      obtain ⟨old, hold, rfl⟩ := hnew
      split
      · next hp =>
          have hguard := List.find?_some hrow
          simp only [Bool.and_eq_true, decide_eq_true_eq] at hguard hp
          have hsame := store.preferences.eq_of_key hold (List.mem_of_find?_eq_some hrow)
            (hp.1.trans hguard.1.symm)
          have hversion := (PreferenceRecord.modelValidate_ok.mp hresult).2.2.1
          rw [hsame, ← hversion]
          exact result.versionValid
      · exact sources.preferences old hold

end Repository

namespace RecurrenceRepository
variable {store store' : Store}

/-- The occurrences of one window are inserted in one transaction. -/
theorem insertOccurrences_grow {zone : Zone} {owner : UUID} {series : RecurrenceRecord}
    {days : List Int} {fresh : Nat → UUID × UUID} {stamp : Int} {answer : List TaskRecord}
    (h : insertOccurrences store zone owner series days fresh stamp = .ok (answer, store')) :
    SourcesGrow store store' := by
  unfold insertOccurrences at h
  simp only [bind_ok, pure_eq_ok, Except.ok.injEq, Prod.mk.injEq] at h
  obtain ⟨rows, -, inserted, hinserted, tasks, htasks, -, rfl⟩ := h
  have valid : ∀ row ∈ rows, row.toTaskColumns.Valid := by
    intro row hrow
    obtain ⟨task, -, htask⟩ := exists_of_mapM_ok htasks row hrow
    exact TaskRecord.modelValidate_ok.mp htask ▸ task.valid
  refine foldlM_invariant (SourcesGrow store) (.refl store) (fun row hrow middle next hgrow hnext =>
    hgrow.trans (.insertTask hnext (valid row hrow))) hinserted

theorem materialize_grow {zoneInfo : String → Zone} {owner recurrenceId : UUID}
    {request : OccurrenceRequest} {fresh : Nat → UUID × UUID} {now stamp : Int}
    {answer : OccurrenceResult}
    (h : materialize store zoneInfo owner recurrenceId request fresh now stamp =
      .ok (answer, store')) : SourcesGrow store store' := by
  unfold materialize at h
  simp only [bind_ok, pure_eq_ok, Except.ok.injEq, Prod.mk.injEq] at h
  obtain ⟨series, -, -, -, tasks, -, ⟨created, inserted⟩, hinsert, -, rfl⟩ := h
  exact insertOccurrences_grow hinsert

end RecurrenceRepository

end SmartPlanner

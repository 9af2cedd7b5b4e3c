import SmartPlanner.Library.ForeignKeys
import SmartPlanner.Noninterference
import SmartPlanner.Occurrences
import SmartPlanner.TasksReadBack

/-!
The constraints of the schema. The repositories write only rows whose references
they have read or made, so every row of a reachable store finds what it refers
to, and the keys and checks of the tables hold.
-/

namespace SmartPlanner

open Outcome Runs Sorting Tables ScheduleRepository

/-- The columns that reference a schedule with its owner. -/
def ScheduleRow.ref (row : ScheduleRow) : UUID × UUID := (row.id, row.userId)

/-- The columns that reference a pattern with its owner. -/
def RecurrenceRow.ref (row : RecurrenceRow) : UUID × UUID := (row.id, row.userId)

/-- The columns that reference a task with its owner. -/
def TaskRow.ref (row : TaskRow) : UUID × UUID := (row.id, row.userId)

/-- `FOREIGN KEY(recurrence_id,user_id)`, null outside of occurrences. -/
def TaskRow.patternRef (row : TaskRow) : Option (UUID × UUID) :=
  row.recurrenceId.map fun id => (id, row.userId)

/-- The checks of the table `tasks`: of the title as SQLite measures it, of the
ranges, which are those of the contract, and of the two occurrence columns. -/
def TaskRow.Checked (row : TaskRow) : Prop :=
  (TitleCheck row.title ∧ row.toTaskFields.Valid) ∧
  row.recurrenceId.isNone = row.occurrenceDate.isNone

/-- The constraints that the steps carry along. -/
structure References (store : Store) : Prop where
  emails : ∀ a ∈ store.users, ∀ b ∈ store.users, a.email = b.email → a = b
  preferences : store.preferences.Refers (fun row => some row.userId) store.users UserRow.id
  recurrences : store.recurrences.Refers (fun row => some row.userId) store.users UserRow.id
  events : store.events.Refers (fun row => some row.userId) store.users UserRow.id
  tasks : store.tasks.Refers (fun row => some row.userId) store.users UserRow.id
  patterns : store.tasks.Refers TaskRow.patternRef store.recurrences RecurrenceRow.ref
  checked : ∀ row ∈ store.tasks, row.Checked
  commands : store.commands.Refers (fun row => some (row.scheduleId, row.userId)) store.schedules
    ScheduleRow.ref

theorem references_empty : References Store.empty where
  emails a ha := absurd ha (Table.not_mem_empty a)
  preferences := Table.refers_empty
  recurrences := Table.refers_empty
  events := Table.refers_empty
  tasks := Table.refers_empty
  patterns := Table.refers_empty
  checked row h := absurd h (Table.not_mem_empty row)
  commands := Table.refers_empty

section Tasks

variable {store store' : Store}

/-- The task rows of a later store and where their references come from. -/
structure TaskLinks (store store' : Store) : Prop where
  owners : Table.LinksFrom (fun row => some row.userId) store.users UserRow.id store.tasks
    store'.tasks
  patterns : Table.LinksFrom TaskRow.patternRef store.recurrences RecurrenceRow.ref store.tasks
    store'.tasks
  checked : (∀ row ∈ store.tasks, row.Checked) → ∀ row ∈ store'.tasks, row.Checked

theorem TaskLinks.of_eq (h : store'.tasks = store.tasks) : TaskLinks store store' := by
  refine ⟨?_, ?_, ?_⟩ <;> rw [h]
  · exact Table.linksFrom_refl _
  · exact Table.linksFrom_refl _
  · exact id

/-- New rows for a registered owner. -/
theorem TaskLinks.inserted {rows : List TaskRow}
    (h : ∀ row, row ∈ store'.tasks ↔ row ∈ store.tasks ∨ row ∈ rows)
    (owners : ∀ row ∈ rows, ∃ user ∈ store.users, user.id = row.userId)
    (patterns : ∀ row ∈ rows, ∀ k, row.patternRef = some k →
      ∃ series ∈ store.recurrences, series.ref = k)
    (checked : ∀ row ∈ rows, row.Checked) : TaskLinks store store' := by
  refine ⟨Table.linksFrom_append h fun row hrow k hk => ?_, Table.linksFrom_append h patterns,
    fun old row hrow => ?_⟩
  · rw [← Option.some.inj hk]
    exact owners row hrow
  · exact ((h row).mp hrow).elim (old row) (checked row)

/-- An update that keeps the owner and the occurrence. -/
theorem TaskLinks.updated {p : TaskRow → Bool} {f : TaskRow → TaskRow}
    {keeps : ∀ row, (f row).id = row.id} (h : store'.tasks = store.tasks.update p f keeps)
    (same : ∀ row, (f row).userId = row.userId ∧ (f row).recurrenceId = row.recurrenceId ∧
      (f row).occurrenceDate = row.occurrenceDate)
    (fields : ∀ row, TitleCheck row.title ∧ row.toTaskFields.Valid →
      TitleCheck (f row).title ∧ (f row).toTaskFields.Valid) : TaskLinks store store' := by
  refine ⟨?_, ?_, fun old row hrow => ?_⟩
  · rw [h]
    exact Table.linksFrom_update keeps fun row => congrArg some (same row).1
  · rw [h]
    refine Table.linksFrom_update keeps fun row => ?_
    unfold TaskRow.patternRef
    rw [(same row).1, (same row).2.1]
  · rw [h] at hrow
    obtain ⟨before, hbefore, rfl⟩ := Table.mem_update.mp hrow
    have stored := old before hbefore
    split
    · unfold TaskRow.Checked at stored ⊢
      rw [(same before).2.1, (same before).2.2]
      exact ⟨fields before stored.1, stored.2⟩
    · exact stored

theorem Repository.createTask_links {owner id : UUID} {task : TaskCreate} {stamp : Int}
    {answer : TaskRecord × Bool}
    (h : Repository.createTask store owner task id stamp = .ok (answer, store')) :
    TaskLinks store store' := by
  obtain ⟨-, rfl | ⟨row, rfl, -, hinsert⟩⟩ := Repository.createTask_ok h
  · exact .of_eq rfl
  · have inserted := insertTask_ok hinsert
    refine .inserted (fun row => ?_) (List.forall_mem_singleton.mpr inserted.account)
      (List.forall_mem_singleton.mpr ?_)
      (List.forall_mem_singleton.mpr ⟨⟨inserted.title, task.valid⟩, rfl⟩)
    · rw [inserted.mem, List.mem_singleton]
    · intro k hk
      cases hk

/-- The row that a pattern was read from. -/
theorem RecurrenceRepository.get_found {owner recurrenceId : UUID} {series : RecurrenceRecord}
    (h : RecurrenceRepository.get store owner recurrenceId = .ok series) :
    ∃ row ∈ store.recurrences, row.id = recurrenceId ∧ row.userId = owner ∧
      row.version = series.version ∧ row.values = series.toRecurrenceValues := by
  unfold RecurrenceRepository.get at h
  split at h
  · next row hrow =>
      have hguard := List.find?_some hrow
      simp only [Bool.and_eq_true, decide_eq_true_eq] at hguard
      unfold RecurrenceRecord.modelValidate at h
      split at h
      · cases h
        exact ⟨row, List.mem_of_find?_eq_some hrow, hguard.1.1, hguard.1.2, rfl, rfl⟩
      · contradiction
  · contradiction

theorem RecurrenceRepository.materialize_links {zoneInfo : String → Zone}
    {owner recurrenceId : UUID} {request : OccurrenceRequest} {fresh : Nat → UUID × UUID}
    {now stamp : Int} {answer : OccurrenceResult}
    (registered : store.recurrences.Refers (fun row => some row.userId) store.users UserRow.id)
    (h : RecurrenceRepository.materialize store zoneInfo owner recurrenceId request fresh now
      stamp = .ok (answer, store')) : TaskLinks store store' := by
  obtain ⟨series, live, created, rows, done⟩ := materialize_ok h
  -- The row the pattern was read from names the account.
  obtain ⟨source, hsource, hid, howner, -⟩ := RecurrenceRepository.get_found done.found
  obtain ⟨user, huser, hname⟩ := registered source hsource owner (congrArg some howner)
  have keys := (occurrenceRows_ok done.prepared).2
  refine .inserted done.inserted.mem (fun row hrow => ⟨user, huser, ?_⟩)
    (fun row hrow k hk => ⟨source, hsource, ?_⟩) fun row hrow => ?_
  · rw [hname, (keys row hrow).1]
  · unfold TaskRow.patternRef at hk
    rw [(keys row hrow).1, (keys row hrow).2, Option.map_some] at hk
    unfold RecurrenceRow.ref
    rw [hid, howner, ← (get_ok done.found).1]
    exact Option.some.inj hk
  · obtain ⟨entry, -, hentry⟩ := source_of_mapM_ok done.prepared row hrow
    simp only [bind_ok, pure_eq_ok, Except.ok.injEq] at hentry
    obtain ⟨window, hwindow, rfl⟩ := hentry
    exact ⟨⟨done.inserted.titles _ hrow,
      (occurrenceRow_valid (occurrenceWindow_fits hwindow) stamp).1⟩, rfl⟩

/-- A command that writes tasks. -/
theorem perform_taskLinks {zoneInfo : String → Zone} {command : Command}
    (registered : store.recurrences.Refers (fun row => some row.userId) store.users UserRow.id)
    (h : perform zoneInfo store command = .ok store') (tasks : command.area = .tasks) :
    TaskLinks store store' := by
  cases command with
  | createTask =>
      obtain ⟨answer, h⟩ := snd_map_ok h
      exact Repository.createTask_links h
  | updateTask =>
      have change := perform_taskChange h
      cases change with
      | same h => exact .of_eq h
      | @updated _ _ _ _ prepared title h =>
          exact .updated h (fun _ => ⟨rfl, rfl, rfl⟩) fun _ _ => ⟨title, prepared.valid.1⟩
  | deleteTask =>
      have change := perform_taskChange h
      cases change with
      | same h => exact .of_eq h
      | deleted h => exact .updated h (fun _ => ⟨rfl, rfl, rfl⟩) fun _ => id
  | materialize =>
      obtain ⟨answer, h⟩ := snd_map_ok h
      exact RecurrenceRepository.materialize_links registered h
  | _ => cases tasks

end Tasks

section Steps

variable {store store' : Store}

theorem Repository.register_references {id : UUID} {email timezone : String} {stamp : Int}
    {user : UserRow} (references : References store)
    (h : Repository.register store id email timezone stamp = .ok (user, store')) :
    References store' := by
  unfold Repository.register at h
  rw [raiseIf_bind_ok] at h
  simp only [bind_ok, pure_eq_ok, Except.ok.injEq, Prod.mk.injEq] at h
  obtain ⟨hemail, users, husers, preferences, hpreferences, -, rfl⟩ := h
  have users_mem := Table.mem_insert? (insertRow_ok.mp husers)
  have kept : store.users.KeepsTargets UserRow.id users :=
    Table.keepsTargets_of_subset fun row hrow => (users_mem row).mpr (Or.inl hrow)
  refine { references with
    emails := ?_
    preferences := ?_
    recurrences := references.recurrences.next kept (Table.linksFrom_refl _)
    events := references.events.next kept (Table.linksFrom_refl _)
    tasks := references.tasks.next kept (Table.linksFrom_refl _) }
  · intro a ha b hb same
    rcases (users_mem a).mp ha with ha | rfl <;> rcases (users_mem b).mp hb with hb | rfl
    · exact references.emails a ha b hb same
    · exact absurd ⟨a, ha, same⟩ hemail
    · exact absurd ⟨b, hb, same.symm⟩ hemail
    · rfl
  · refine (references.preferences.next kept (Table.linksFrom_refl _)).next
      (Table.keepsTargets_refl _) (Table.linksFrom_insert (insertRow_ok.mp hpreferences) ?_)
    exact fun k hk => ⟨_, (users_mem _).mpr (Or.inr rfl), Option.some.inj hk⟩

theorem Repository.updatePreferences_references {owner : UUID} {update : PreferencePut}
    {stamp : Int} {answer : PreferenceRecord} (references : References store)
    (h : Repository.updatePreferences store owner update stamp = .ok (answer, store')) :
    References store' := by
  unfold Repository.updatePreferences at h
  simp only at h
  split at h
  · contradiction
  · simp only [bind_ok, pure_eq_ok, Except.ok.injEq, Prod.mk.injEq] at h
    obtain ⟨result, -, -, rfl⟩ := h
    exact { references with
      preferences := references.preferences.next (Table.keepsTargets_refl _)
        (Table.linksFrom_update (by exact fun _ => rfl) (by exact fun _ => rfl)) }

/-- A command that writes patterns keeps the ids and owners of those there are. -/
theorem perform_recurrences_references {zoneInfo : String → Zone} {command : Command}
    (references : References store) (h : perform zoneInfo store command = .ok store')
    (recurrences : command.area = .recurrences) : References store' := by
  have change := perform_recurrenceChange h
  have writes := perform_writes h
  rw [recurrences] at writes
  obtain ⟨written, rfl⟩ := writes
  have kept : store.recurrences.KeepsTargets RecurrenceRow.ref written := by
    intro row hrow
    obtain ⟨row', hrow', follows⟩ := change.follows row hrow
    exact ⟨row', hrow', by rw [RecurrenceRow.ref, RecurrenceRow.ref, follows.id, follows.userId]⟩
  refine { references with
    recurrences := references.recurrences.next (Table.keepsTargets_refl _) ?_
    patterns := references.patterns.next kept (Table.linksFrom_refl _) }
  by_cases created : command.createsRecurrence = false
  · intro row hrow
    obtain ⟨old, hold, follows⟩ := change.unasked created row hrow
    exact Or.inl ⟨old, hold, congrArg some follows.userId.symm⟩
  · cases command with
    | createRecurrence owner data id stamp =>
        obtain ⟨answer, h⟩ := snd_map_ok h
        unfold RecurrenceRepository.create at h
        split at h
        · next user hfree huser =>
            simp only [bind_ok, pure_eq_ok, Except.ok.injEq, Prod.mk.injEq] at h
            obtain ⟨table, hinsert, result, -, -, hstore⟩ := h
            obtain ⟨hmem, hid⟩ := Table.find?_eq_some.mp huser
            have same := congrArg Store.recurrences hstore
            simp only at same
            subst same
            exact Table.linksFrom_insert (insertRow_ok.mp hinsert) fun k hk =>
              ⟨user, hmem, hid.trans (Option.some.inj hk)⟩
        · contradiction
        · simp only [raiseIf_bind_ok] at h
          simp only [bind_ok, pure_eq_ok, Except.ok.injEq, Prod.mk.injEq] at h
          obtain ⟨-, -, result, -, -, hstore⟩ := h
          have same := congrArg Store.recurrences hstore
          simp only at same
          rw [same]
          exact Table.linksFrom_refl _
    | _ => exact absurd rfl created

/-- A command that writes events makes them for a registered account. -/
theorem perform_events_references {zoneInfo : String → Zone} {command : Command}
    (references : References store) (h : perform zoneInfo store command = .ok store')
    (events : command.area = .events) : References store' := by
  cases command with
  | createEvent owner data id stamp =>
      obtain ⟨answer, h⟩ := snd_map_ok h
      obtain ⟨-, rfl, ⟨user, hmem, hid⟩, table, hinsert, rfl⟩ := FixedEventRepository.create_ok h
      exact { references with
        events := references.events.next (Table.keepsTargets_refl _)
          (Table.linksFrom_insert (insertRow_ok.mp hinsert) fun k hk =>
            ⟨user, hmem, hid.trans (Option.some.inj hk)⟩) }
  | replaceEvent owner eventId data stamp =>
      obtain ⟨answer, h⟩ := snd_map_ok h
      obtain ⟨-, rfl⟩ := FixedEventRepository.replace_ok h
      exact { references with
        events := references.events.next (Table.keepsTargets_refl _)
          (Table.linksFrom_update (by exact fun _ => rfl) (by exact fun _ => rfl)) }
  | deleteEvent owner eventId expectedVersion =>
      unfold perform FixedEventRepository.delete at h
      simp only at h
      split at h
      · rw [Except.ok.injEq] at h
        subst h
        exact { references with
          events := references.events.next (Table.keepsTargets_refl _)
            (Table.linksFrom_of_subset fun row hrow => (Table.mem_delete.mp hrow).1) }
      · rw [bind_ok] at h
        obtain ⟨-, -, h⟩ := h
        contradiction
  | _ => cases events

/-- A commit keeps the schedules there are and makes a receipt for its own. -/
theorem Commit.references {schedule : ScheduleRow} {state : Candidate} {receipt : CommandRow}
    (commit : Commit store store' schedule state receipt)
    (owner : ∀ row ∈ store.schedules, row.id = schedule.id → row.userId = schedule.userId)
    (own : (receipt.scheduleId, receipt.userId) = schedule.ref) (references : References store) :
    References store' := by
  have kept : store.schedules.KeepsTargets ScheduleRow.ref store'.schedules := by
    intro row hrow
    by_cases same : row.id = schedule.id
    · refine ⟨schedule, (commit.schedules schedule).mpr (Or.inr rfl), ?_⟩
      rw [ScheduleRow.ref, ScheduleRow.ref, same, owner row hrow same]
    · exact ⟨row, (commit.schedules row).mpr (Or.inl ⟨hrow, same⟩), rfl⟩
  have present := (commit.schedules schedule).mpr (Or.inr rfl)
  have added : ∀ row, row ∈ store'.commands ↔ row ∈ store.commands ∨ row ∈ [receipt] := by
    intro row
    rw [← Table.mem_rows, commit.commands, List.mem_append, Table.mem_rows]
  obtain ⟨schedules, versions, commands, allocations, rfl⟩ := commit.writes
  exact { references with
    commands := (references.commands.next kept (Table.linksFrom_refl _)).next
      (Table.keepsTargets_refl _) (Table.linksFrom_append added
        (List.forall_mem_singleton.mpr fun k hk =>
          ⟨schedule, present, own.symm.trans (Option.some.inj hk)⟩)) }

/-- A replace and a travel move the row of a schedule they found. -/
theorem Addressed.owner_unique {owner scheduleId requestId : UUID} {expectedVersion : Nat}
    {schedule : ScheduleRow} {current : VersionRow}
    (addressed : Addressed store owner scheduleId requestId expectedVersion schedule current) :
    ∀ row ∈ store.schedules, row.id = schedule.id → row.userId = schedule.userId := by
  intro row hrow same
  rw [store.schedules.eq_of_key hrow addressed.schedule_mem same]

theorem perform_references {zoneInfo : String → Zone} {command : Command}
    (references : References store) (h : perform zoneInfo store command = .ok store') :
    References store' := by
  cases harea : command.area with
  | tasks =>
      have links := perform_taskLinks references.recurrences h harea
      have writes := perform_writes h
      rw [harea] at writes
      obtain ⟨tasks, rfl⟩ := writes
      exact { references with
        tasks := references.tasks.next (Table.keepsTargets_refl _) links.owners
        patterns := references.patterns.next (Table.keepsTargets_refl _) links.patterns
        checked := links.checked references.checked }
  | recurrences => exact perform_recurrences_references references h harea
  | events => exact perform_events_references references h harea
  | accounts =>
      cases command with
      | register =>
          obtain ⟨answer, h⟩ := snd_map_ok h
          exact Repository.register_references references h
      | _ => cases harea
  | preferences =>
      cases command with
      | updatePreferences =>
          obtain ⟨answer, h⟩ := snd_map_ok h
          exact Repository.updatePreferences_references references h
      | _ => cases harea
  | schedules =>
      cases command with
      | createSchedule =>
          obtain ⟨answer, h⟩ := snd_map_ok h
          rcases create_ok h with ⟨-, rfl⟩ | ⟨zone, tasks, values, report, created⟩
          · exact references
          · exact created.commit.references
              (fun row hrow same => absurd same (created.freshId row hrow)) rfl references
      | replaceSchedule =>
          obtain ⟨answer, h⟩ := snd_map_ok h
          rcases replace_ok h with ⟨-, rfl, -⟩ | ⟨schedule, current, tasks, values, report,
            replaced⟩
          · exact references
          · refine replaced.commit.references replaced.addressed.owner_unique ?_ references
            exact congrArg₂ Prod.mk replaced.addressed.schedule_id.symm
              replaced.addressed.schedule_user.symm
      | travelSchedule =>
          obtain ⟨answer, h⟩ := snd_map_ok h
          rcases travel_ok h with ⟨-, rfl⟩ | ⟨schedule, current, goal, tasks, values, report,
            travelled⟩
          · exact references
          · refine travelled.commit.references travelled.addressed.owner_unique ?_ references
            exact congrArg₂ Prod.mk travelled.addressed.schedule_id.symm
              travelled.addressed.schedule_user.symm
      | _ => cases harea

end Steps

variable {zoneInfo : String → Zone}

theorem references_reached (commands : List Command) : References (reached zoneInfo commands) := by
  refine run_invariant references_empty (fun store command references => ?_) commands
  unfold step
  split
  · next h => exact perform_references references h
  · exact references

/-- An allocation is of a task of the current version, whose row is still there. -/
theorem StoreOk.allocatedTasks {store : Store} (ok : StoreOk zoneInfo store) :
    store.allocations.Refers (fun row => some (row.taskId, row.userId)) store.tasks
      TaskRow.ref := by
  intro row hrow k hk
  rw [← Option.some.inj hk]
  obtain ⟨schedule, hs, hid, howner⟩ := ok.allocationsOwned row hrow
  obtain ⟨current, hcurrent⟩ := (ok.schedules schedule hs).cursor
  have allocated := ok.allocated schedule hs current hcurrent row.taskId
  rw [hid, howner] at allocated
  obtain ⟨block, hblock, htask⟩ := allocated.mp hrow
  have selected := current.state.content.blocksValid.2 block hblock
  rw [← current.state.selected_iff] at selected
  obtain ⟨entry, hentry, hname⟩ := List.mem_map.mp selected
  obtain ⟨task, hmem, huser, hkey, -⟩ :=
    ((ok.schedules schedule hs).entries current hcurrent.1).known.tasks entry hentry
  refine ⟨task, hmem, ?_⟩
  rw [TaskRow.ref, hkey, hname, htask, huser, howner]

/-- The keys, references and checks of the schema on the planning tables. That an
end lies after its start and that a pattern or the preferences are in range is part
of their types. -/
structure SchemaHolds (store : Store) : Prop where
  references : References store
  unique : Constraints store
  schedules : store.schedules.Refers (fun row => some row.userId) store.users UserRow.id
  versions : store.versions.Refers (fun row => some (row.scheduleId, row.userId)) store.schedules
    ScheduleRow.ref
  allocatedSchedules : store.allocations.Refers (fun row => some (row.scheduleId, row.userId))
    store.schedules ScheduleRow.ref
  allocatedTasks : store.allocations.Refers (fun row => some (row.taskId, row.userId)) store.tasks
    TaskRow.ref

/-- Every reachable store satisfies the schema: accounts have distinct emails; every
preference, task, pattern, event and schedule has its account; every occurrence has
its pattern, and every version, receipt and allocation its schedule and its task,
of the same owner; and the rows of tasks, the deleted ones included, are in range. -/
theorem reached_schema (zoneInfo : String → Zone) (commands : List Command) :
    SchemaHolds (reached zoneInfo commands) := by
  have ok := storeOk_reached zoneInfo commands
  have constraints : Constraints (reached zoneInfo commands) := constraints_reached commands
  refine ⟨references_reached commands, constraints, fun row hrow k hk => ?_,
    fun row hrow k hk => ?_, fun row hrow k hk => ?_, ok.allocatedTasks⟩
  · obtain ⟨user, huser, hid⟩ := (ok.schedules row hrow).account
    exact ⟨user, huser, hid.trans (Option.some.inj hk)⟩
  · obtain ⟨schedule, hs, hid, howner⟩ := constraints.versions row hrow
    exact ⟨schedule, hs, by rw [ScheduleRow.ref, hid, howner]; exact Option.some.inj hk⟩
  · obtain ⟨schedule, hs, hid, howner⟩ := ok.allocationsOwned row hrow
    exact ⟨schedule, hs, by rw [ScheduleRow.ref, hid, howner]; exact Option.some.inj hk⟩

end SmartPlanner

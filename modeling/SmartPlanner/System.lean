import SmartPlanner.ScheduleCommits
import SmartPlanner.SourceChanges
import SmartPlanner.Library.Runs

/-!
The service as a state machine over its store: one command for each function
that writes, with the values it draws from the environment, and one inversion of
what a step can do.
-/

namespace SmartPlanner

open Outcome Runs Tables

inductive Command
  | register (id : UUID) (email timezone : String) (stamp : Int)
  | createTask (owner : UUID) (task : TaskCreate) (id : UUID) (stamp : Int)
  | updateTask (owner taskId : UUID) (patch : TaskPatch) (stamp : Int)
  | deleteTask (owner taskId : UUID) (expectedVersion : Nat) (stamp : Int)
  | updatePreferences (owner : UUID) (update : PreferencePut) (stamp : Int)
  | createRecurrence (owner : UUID) (data : RecurrenceCreate) (id : UUID) (stamp : Int)
  | replaceRecurrence (owner recurrenceId : UUID) (data : RecurrenceReplace) (stamp : Int)
  | deleteRecurrence (owner recurrenceId : UUID) (expectedVersion : Nat) (stamp : Int)
  | materialize (owner recurrenceId : UUID) (request : OccurrenceRequest)
      (fresh : Nat → UUID × UUID) (now stamp : Int)
  | createEvent (owner : UUID) (data : FixedEventCreate) (id : UUID) (stamp : Int)
  | replaceEvent (owner eventId : UUID) (data : FixedEventReplace) (stamp : Int)
  | deleteEvent (owner eventId : UUID) (expectedVersion : Nat)
  | createSchedule (owner : UUID) (data : ScheduleCreate) (scheduleId : UUID) (now stamp : Int)
  | replaceSchedule (owner scheduleId : UUID) (data : ScheduleReplace) (now stamp : Int)
  | travelSchedule (owner scheduleId : UUID) (data : HistoryCommand) (direction : Direction)
      (now stamp : Int)

/-- The account a command is executed for. -/
def Command.owner : Command → UUID
  | .register id _ _ _ => id
  | .createTask owner _ _ _ => owner
  | .updateTask owner _ _ _ => owner
  | .deleteTask owner _ _ _ => owner
  | .updatePreferences owner _ _ => owner
  | .createRecurrence owner _ _ _ => owner
  | .replaceRecurrence owner _ _ _ => owner
  | .deleteRecurrence owner _ _ _ => owner
  | .materialize owner _ _ _ _ _ => owner
  | .createEvent owner _ _ _ => owner
  | .replaceEvent owner _ _ _ => owner
  | .deleteEvent owner _ _ => owner
  | .createSchedule owner _ _ _ _ => owner
  | .replaceSchedule owner _ _ _ _ => owner
  | .travelSchedule owner _ _ _ _ _ => owner

/-- What a command writes: the tables of one repository. -/
inductive Area
  | accounts
  | preferences
  | tasks
  | recurrences
  | events
  | schedules

def Command.area : Command → Area
  | .register .. => .accounts
  | .createTask .. => .tasks
  | .updateTask .. => .tasks
  | .deleteTask .. => .tasks
  | .updatePreferences .. => .preferences
  | .createRecurrence .. => .recurrences
  | .replaceRecurrence .. => .recurrences
  | .deleteRecurrence .. => .recurrences
  | .materialize .. => .tasks
  | .createEvent .. => .events
  | .replaceEvent .. => .events
  | .deleteEvent .. => .events
  | .createSchedule .. => .schedules
  | .replaceSchedule .. => .schedules
  | .travelSchedule .. => .schedules

/-- The clock that `_validate` reads for a schedule command. -/
def Command.clock? : Command → Option Int
  | .createSchedule _ _ _ now _ => some now
  | .replaceSchedule _ _ _ now _ => some now
  | .travelSchedule _ _ _ _ now _ => some now
  | _ => none

section
variable (zoneInfo : String → Zone)

/-- The next store, when the command is answered without an error. -/
def perform (store : Store) : Command → Except PyError Store
  | .register id email timezone stamp =>
      Prod.snd <$> Repository.register store id email timezone stamp
  | .createTask owner task id stamp =>
      Prod.snd <$> Repository.createTask store owner task id stamp
  | .updateTask owner taskId patch stamp =>
      Prod.snd <$> Repository.updateTask store owner taskId patch stamp
  | .deleteTask owner taskId expectedVersion stamp =>
      Repository.deleteTask store owner taskId expectedVersion stamp
  | .updatePreferences owner update stamp =>
      Prod.snd <$> Repository.updatePreferences store owner update stamp
  | .createRecurrence owner data id stamp =>
      Prod.snd <$> RecurrenceRepository.create store owner data id stamp
  | .replaceRecurrence owner recurrenceId data stamp =>
      Prod.snd <$> RecurrenceRepository.replace store owner recurrenceId data stamp
  | .deleteRecurrence owner recurrenceId expectedVersion stamp =>
      RecurrenceRepository.delete store owner recurrenceId expectedVersion stamp
  | .materialize owner recurrenceId request fresh now stamp =>
      Prod.snd <$> RecurrenceRepository.materialize store zoneInfo owner recurrenceId request
        fresh now stamp
  | .createEvent owner data id stamp =>
      Prod.snd <$> FixedEventRepository.create store owner data id stamp
  | .replaceEvent owner eventId data stamp =>
      Prod.snd <$> FixedEventRepository.replace store owner eventId data stamp
  | .deleteEvent owner eventId expectedVersion =>
      FixedEventRepository.delete store owner eventId expectedVersion
  | .createSchedule owner data scheduleId now stamp =>
      Prod.snd <$> ScheduleRepository.create zoneInfo store owner data scheduleId now stamp
  | .replaceSchedule owner scheduleId data now stamp =>
      Prod.snd <$> ScheduleRepository.replace zoneInfo store owner scheduleId data now stamp
  | .travelSchedule owner scheduleId data direction now stamp =>
      Prod.snd <$> ScheduleRepository.travel zoneInfo store owner scheduleId data direction now
        stamp

/-- A failed command is rolled back. -/
def step (store : Store) (command : Command) : Store :=
  match perform zoneInfo store command with
  | .ok store' => store'
  | .error _ => store

theorem step_of_error {store : Store} {command : Command} {error : PyError}
    (h : perform zoneInfo store command = .error error) : step zoneInfo store command = store := by
  unfold step
  rw [h]

/-- The store after the commands of a client, from the migrated database. -/
def reached (commands : List Command) : Store := run (step zoneInfo) Store.empty commands

/-- What a step can do to the store. -/
inductive Transition (store store' : Store) : Prop
  | sources (h : SourcesGrow store store')
  | created {owner scheduleId : UUID} {now stamp : Int} {data : ScheduleCreate}
      {result : ScheduleResult} {zone : String} {tasks : List TaskRecord}
      {values : PreferenceValues} {report : LayoutReport}
      (h : Created zoneInfo store owner scheduleId now stamp data result store' zone tasks values
        report)
  | replaced {owner scheduleId : UUID} {now stamp : Int} {data : ScheduleReplace}
      {result : ScheduleResult} {schedule : ScheduleRow} {current : VersionRow}
      {tasks : List TaskRecord} {values : PreferenceValues} {report : LayoutReport}
      (h : Replaced zoneInfo store owner scheduleId now stamp data result store' schedule current
        tasks values report)
  | travelled {owner scheduleId : UUID} {now stamp : Int} {data : HistoryCommand}
      {direction : Direction} {result : ScheduleResult} {schedule : ScheduleRow}
      {current goal : VersionRow} {tasks : List TaskRecord} {values : PreferenceValues}
      {report : LayoutReport}
      (h : Travelled zoneInfo store owner scheduleId now stamp data direction result store'
        schedule current goal tasks values report)

end

theorem snd_map_ok {α : Type} {result : Except PyError (α × Store)} {store : Store}
    (h : Prod.snd <$> result = .ok store) : ∃ answer, result = .ok (answer, store) := by
  cases result with
  | error error => contradiction
  | ok pair =>
      cases h
      exact ⟨pair.1, rfl⟩

variable {zoneInfo : String → Zone}

/-- Two stores that differ in the tables of one area. -/
def Writes (store store' : Store) : Area → Prop
  | .accounts => ∃ users preferences, store' = { store with users, preferences }
  | .preferences => ∃ preferences, store' = { store with preferences }
  | .tasks => ∃ tasks, store' = { store with tasks }
  | .recurrences => ∃ recurrences, store' = { store with recurrences }
  | .events => ∃ events, store' = { store with events }
  | .schedules => ∃ schedules versions commands allocations,
      store' = { store with schedules, versions, commands, allocations }

theorem Writes.unwritten {store store' : Store} {area : Area} (writes : Writes store store' area) :
    (area ≠ .tasks → store'.tasks = store.tasks) ∧
      (area ≠ .recurrences → store'.recurrences = store.recurrences) := by
  cases area with
  | accounts =>
      obtain ⟨users, preferences, rfl⟩ := writes
      exact ⟨fun _ => rfl, fun _ => rfl⟩
  | preferences =>
      obtain ⟨preferences, rfl⟩ := writes
      exact ⟨fun _ => rfl, fun _ => rfl⟩
  | tasks =>
      obtain ⟨tasks, rfl⟩ := writes
      exact ⟨fun h => absurd rfl h, fun _ => rfl⟩
  | recurrences =>
      obtain ⟨recurrences, rfl⟩ := writes
      exact ⟨fun _ => rfl, fun h => absurd rfl h⟩
  | events =>
      obtain ⟨events, rfl⟩ := writes
      exact ⟨fun _ => rfl, fun _ => rfl⟩
  | schedules =>
      obtain ⟨schedules, versions, commands, allocations, rfl⟩ := writes
      exact ⟨fun _ => rfl, fun _ => rfl⟩

theorem Commit.writes {store store' : Store} {schedule : ScheduleRow} {state : Candidate}
    {receipt : CommandRow} (commit : Commit store store' schedule state receipt) :
    Writes store store' .schedules := by
  refine ⟨store'.schedules, store'.versions, store'.commands, store'.allocations, ?_⟩
  rw [← commit.users, ← commit.preferences, ← commit.tasks, ← commit.recurrences,
    ← commit.events]

theorem perform_writes {store store' : Store} {command : Command}
    (h : perform zoneInfo store command = .ok store') : Writes store store' command.area := by
  have same : Writes store store .schedules := ⟨_, _, _, _, rfl⟩
  cases command with
  | deleteTask => exact Repository.deleteTask_writes h
  | deleteRecurrence => exact RecurrenceRepository.delete_writes h
  | deleteEvent => exact FixedEventRepository.delete_writes h
  | register =>
      obtain ⟨answer, h⟩ := snd_map_ok h
      exact Repository.register_writes h
  | createTask =>
      obtain ⟨answer, h⟩ := snd_map_ok h
      exact Repository.createTask_writes h
  | updateTask =>
      obtain ⟨answer, h⟩ := snd_map_ok h
      exact Repository.updateTask_writes h
  | updatePreferences =>
      obtain ⟨answer, h⟩ := snd_map_ok h
      exact Repository.updatePreferences_writes h
  | createRecurrence =>
      obtain ⟨answer, h⟩ := snd_map_ok h
      exact RecurrenceRepository.create_writes h
  | replaceRecurrence =>
      obtain ⟨answer, h⟩ := snd_map_ok h
      exact RecurrenceRepository.replace_writes h
  | materialize =>
      obtain ⟨answer, h⟩ := snd_map_ok h
      exact RecurrenceRepository.materialize_writes h
  | createEvent =>
      obtain ⟨answer, h⟩ := snd_map_ok h
      exact FixedEventRepository.create_writes h
  | replaceEvent =>
      obtain ⟨answer, h⟩ := snd_map_ok h
      exact FixedEventRepository.replace_writes h
  | createSchedule =>
      obtain ⟨answer, h⟩ := snd_map_ok h
      rcases create_ok h with ⟨-, rfl⟩ | ⟨zone, tasks, values, report, created⟩
      · exact same
      · exact created.commit.writes
  | replaceSchedule =>
      obtain ⟨answer, h⟩ := snd_map_ok h
      rcases replace_ok h with ⟨-, rfl, -⟩ | ⟨schedule, current, tasks, values, report, replaced⟩
      · exact same
      · exact replaced.commit.writes
  | travelSchedule =>
      obtain ⟨answer, h⟩ := snd_map_ok h
      rcases travel_ok h with ⟨-, rfl⟩ | ⟨schedule, current, goal, tasks, values, report,
        travelled⟩
      · exact same
      · exact travelled.commit.writes

/-- A command that reads no clock for a layout changes sources alone. -/
theorem perform_sources {store store' : Store} {command : Command}
    (h : perform zoneInfo store command = .ok store') (sourceOnly : command.clock? = none) :
    SourcesGrow store store' := by
  have writes := perform_writes h
  cases harea : command.area with
  | recurrences =>
      rw [harea] at writes
      obtain ⟨recurrences, rfl⟩ := writes
      exact .unrelated store recurrences store.events
  | events =>
      rw [harea] at writes
      obtain ⟨events, rfl⟩ := writes
      exact .unrelated store store.recurrences events
  | accounts =>
      cases command with
      | register =>
          obtain ⟨answer, h⟩ := snd_map_ok h
          exact Repository.register_grow h
      | _ => cases harea
  | preferences =>
      cases command with
      | updatePreferences =>
          obtain ⟨answer, h⟩ := snd_map_ok h
          exact Repository.updatePreferences_grow h
      | _ => cases harea
  | tasks =>
      cases command with
      | deleteTask => exact Repository.deleteTask_grow h
      | createTask =>
          obtain ⟨answer, h⟩ := snd_map_ok h
          exact Repository.createTask_grow h
      | updateTask =>
          obtain ⟨answer, h⟩ := snd_map_ok h
          exact Repository.updateTask_grow h
      | materialize =>
          obtain ⟨answer, h⟩ := snd_map_ok h
          exact RecurrenceRepository.materialize_grow h
      | _ => cases harea
  | schedules =>
      cases command with
      | createSchedule => cases sourceOnly
      | replaceSchedule => cases sourceOnly
      | travelSchedule => cases sourceOnly
      | _ => cases harea

theorem perform_transition {store store' : Store} {command : Command}
    (h : perform zoneInfo store command = .ok store') : Transition zoneInfo store store' := by
  cases command with
  | createSchedule =>
      obtain ⟨answer, h⟩ := snd_map_ok h
      rcases create_ok h with ⟨-, rfl⟩ | ⟨zone, tasks, values, report, h⟩
      · exact .sources (.refl store')
      · exact .created h
  | replaceSchedule =>
      obtain ⟨answer, h⟩ := snd_map_ok h
      rcases replace_ok h with ⟨-, rfl, -⟩ | ⟨schedule, current, tasks, values, report, h⟩
      · exact .sources (.refl store')
      · exact .replaced h
  | travelSchedule =>
      obtain ⟨answer, h⟩ := snd_map_ok h
      rcases travel_ok h with ⟨-, rfl⟩ | ⟨schedule, current, goal, tasks, values, report, h⟩
      · exact .sources (.refl store')
      · exact .travelled h
  | _ => exact .sources (perform_sources h rfl)

theorem step_transition (store : Store) (command : Command) :
    Transition zoneInfo store (step zoneInfo store command) := by
  unfold step
  split
  · next h => exact perform_transition h
  · exact .sources (.refl store)

end SmartPlanner

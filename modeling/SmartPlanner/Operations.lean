import SmartPlanner.System
import SmartPlanner.Library.Unwinding

/-!
Every operation of the repositories with its response, reads included. An
operation is executed for an owner, and an error changes nothing.
-/

namespace SmartPlanner

open Outcome Runs Unwinding

inductive Query
  | task (taskId : UUID)
  | tasks (limit offset : Nat)
  | planningInputs (taskIds : List UUID)
  | preferences
  | recurrence (recurrenceId : UUID)
  | recurrences (limit offset : Nat)
  | event (eventId : UUID)
  | events (start stop : Option Int) (limit offset : Nat)
  | planningEvents (start stop : Int)
  | schedule (scheduleId : UUID)
  | schedules (limit offset : Nat)
  | history (scheduleId : UUID)

inductive Operation
  | command (write : Command)
  | query (owner : UUID) (read : Query)

def Operation.owner : Operation → UUID
  | .command write => write.owner
  | .query owner _ => owner

inductive Response
  | done
  | account (user : UserRow)
  | task (task : TaskRecord)
  | taskCreated (task : TaskRecord) (replayed : Bool)
  | tasks (tasks : List TaskRecord)
  | planningInputs (tasks : List TaskRecord) (preferences : PreferenceRecord)
  | preferences (preferences : PreferenceRecord)
  | recurrence (recurrence : RecurrenceRecord)
  | recurrenceCreated (recurrence : RecurrenceRecord) (replayed : Bool)
  | recurrences (recurrences : List RecurrenceRecord)
  | occurrences (result : OccurrenceResult)
  | event (event : FixedEventRow)
  | events (events : List FixedEventRow)
  | schedule (schedule : SavedSchedule)
  | schedules (schedules : List ScheduleSummary)
  | history (entries : List HistoryEntry)
  | scheduleResult (result : ScheduleResult)

def respondWith {α : Type} (response : α → Response) (result : Except PyError (α × Store)) :
    Except PyError (Response × Store) :=
  result.map fun made => (response made.1, made.2)

section
variable (zoneInfo : String → Zone) (store : Store)

def answerCommand : Command → Except PyError (Response × Store)
  | .register id email timezone stamp =>
      respondWith .account (Repository.register store id email timezone stamp)
  | .createTask owner task id stamp =>
      respondWith (fun made => .taskCreated made.1 made.2)
        (Repository.createTask store owner task id stamp)
  | .updateTask owner taskId patch stamp =>
      respondWith .task (Repository.updateTask store owner taskId patch stamp)
  | .deleteTask owner taskId expectedVersion stamp =>
      (Repository.deleteTask store owner taskId expectedVersion stamp).map
        fun store => (.done, store)
  | .updatePreferences owner update stamp =>
      respondWith .preferences (Repository.updatePreferences store owner update stamp)
  | .createRecurrence owner data id stamp =>
      respondWith (fun made => .recurrenceCreated made.1 made.2)
        (RecurrenceRepository.create store owner data id stamp)
  | .replaceRecurrence owner recurrenceId data stamp =>
      respondWith .recurrence (RecurrenceRepository.replace store owner recurrenceId data stamp)
  | .deleteRecurrence owner recurrenceId expectedVersion stamp =>
      (RecurrenceRepository.delete store owner recurrenceId expectedVersion stamp).map
        fun store => (.done, store)
  | .materialize owner recurrenceId request fresh now stamp =>
      respondWith .occurrences
        (RecurrenceRepository.materialize store zoneInfo owner recurrenceId request fresh now stamp)
  | .createEvent owner data id stamp =>
      respondWith .event (FixedEventRepository.create store owner data id stamp)
  | .replaceEvent owner eventId data stamp =>
      respondWith .event (FixedEventRepository.replace store owner eventId data stamp)
  | .deleteEvent owner eventId expectedVersion =>
      (FixedEventRepository.delete store owner eventId expectedVersion).map
        fun store => (.done, store)
  | .createSchedule owner data scheduleId now stamp =>
      respondWith .scheduleResult
        (ScheduleRepository.create zoneInfo store owner data scheduleId now stamp)
  | .replaceSchedule owner scheduleId data now stamp =>
      respondWith .scheduleResult
        (ScheduleRepository.replace zoneInfo store owner scheduleId data now stamp)
  | .travelSchedule owner scheduleId data direction now stamp =>
      respondWith .scheduleResult
        (ScheduleRepository.travel zoneInfo store owner scheduleId data direction now stamp)

def answerQuery (owner : UUID) : Query → Except PyError Response
  | .task taskId => (Repository.getTask store owner taskId).map .task
  | .tasks limit offset => (Repository.listTasks store owner limit offset).map .tasks
  | .planningInputs taskIds =>
      (Repository.planningInputs store owner taskIds).map
        fun inputs => .planningInputs inputs.1 inputs.2
  | .preferences => (Repository.getPreferences store owner).map .preferences
  | .recurrence recurrenceId =>
      (RecurrenceRepository.get store owner recurrenceId).map .recurrence
  | .recurrences limit offset =>
      (RecurrenceRepository.list store owner limit offset).map .recurrences
  | .event eventId => (FixedEventRepository.get store owner eventId).map .event
  | .events start stop limit offset =>
      (FixedEventRepository.page store owner start stop limit offset).map .events
  | .planningEvents start stop =>
      (FixedEventRepository.page store owner (some start) (some stop) 100 0).map .events
  | .schedule scheduleId => (ScheduleRepository.view store owner scheduleId).map .schedule
  | .schedules limit offset => .ok (.schedules (ScheduleRepository.list store owner limit offset))
  | .history scheduleId => (ScheduleRepository.history store owner scheduleId).map .history

def answer : Operation → Except PyError (Response × Store)
  | .command write => answerCommand zoneInfo store write
  | .query owner read => (answerQuery store owner read).map fun response => (response, store)

end

/-- The service as its owners see it. -/
def service (zoneInfo : String → Zone) :
    Machine Store Operation (Except PyError Response) UUID where
  owner := Operation.owner
  respond store operation :=
    match answer zoneInfo store operation with
    | .ok (response, store') => (.ok response, store')
    | .error error => (.error error, store)

section
variable {zoneInfo : String → Zone} {store : Store}

/-- The responses come on top of the state machine of the writes. -/
theorem snd_answerCommand (command : Command) :
    Prod.snd <$> answerCommand zoneInfo store command = perform zoneInfo store command := by
  have responded : ∀ {α : Type} (response : α → Response) (result : Except PyError (α × Store)),
      Prod.snd <$> respondWith response result = Prod.snd <$> result := by
    intro α response result
    cases result <;> rfl
  have done : ∀ result : Except PyError Store,
      Prod.snd <$> result.map (fun store => (Response.done, store)) = result := by
    intro result
    cases result <;> rfl
  cases command with
  | deleteTask => exact done _
  | deleteRecurrence => exact done _
  | deleteEvent => exact done _
  | createTask => exact responded (fun made : TaskRecord × Bool => .taskCreated made.1 made.2) _
  | createRecurrence =>
      exact responded (fun made : RecurrenceRecord × Bool => .recurrenceCreated made.1 made.2) _
  | _ => exact responded _ _

theorem service_next_command (command : Command) :
    (service zoneInfo).next store (.command command) = step zoneInfo store command := by
  have h := @snd_answerCommand zoneInfo store command
  unfold Machine.next service step
  simp only [answer]
  rw [← h]
  cases answerCommand zoneInfo store command <;> rfl

theorem service_next_query (owner : UUID) (query : Query) :
    (service zoneInfo).next store (.query owner query) = store := by
  unfold Machine.next service
  simp only [answer]
  cases answerQuery store owner query <;> rfl

end

end SmartPlanner

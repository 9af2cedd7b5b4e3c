import SmartPlanner.Operations
import SmartPlanner.OwnerWrites

/-!
Owner noninterference. The rows of an owner and the responses it receives depend
on its own rows and its own operations: those of the other owners neither write
its rows nor decide an answer or an error.
-/

namespace SmartPlanner

open Outcome Runs Tables Unwinding

/-- The constraints of the schema that the reads of an owner rely on. -/
structure Constraints (store : Store) : Prop where
  tasks : TaskKeys store
  recurrences : RecurrenceKeys store
  versions : VersionsOwned store

/-- An operation of an account draws no identifier that a row of another owner
has. Registering is the one operation that is not of an account. -/
def Fresh (store : Store) : Operation → Prop
  | .command (.register ..) => False
  | .command (.createTask owner _ id _) =>
      store.tasks.Unclaimed (fun row => row.userId = owner) id
  | .command (.createRecurrence owner _ id _) =>
      store.recurrences.Unclaimed (fun row => row.userId = owner) id
  | .command (.materialize owner _ request fresh _ _) => ∀ index < request.days,
      store.tasks.Unclaimed (fun row => row.userId = owner) (fresh index).1
  | .command (.createEvent owner _ id _) =>
      store.events.Unclaimed (fun row => row.userId = owner) id
  | .command (.createSchedule owner _ scheduleId _ _) =>
      store.schedules.Unclaimed (fun row => row.userId = owner) scheduleId
  | _ => True

variable {zoneInfo : String → Zone}

theorem Constraints.step {store : Store} (constraints : Constraints store) (command : Command) :
    Constraints (step zoneInfo store command) :=
  ⟨(step_tasksKept store command).keys constraints.tasks,
    (step_recurrenceChange store command).keys constraints.recurrences,
    (step_contained constraints.versions command).owned⟩

theorem constraints_empty : Constraints Store.empty :=
  ⟨taskKeys_empty, recurrenceKeys_empty, fun row h => absurd h (Table.not_mem_empty row)⟩

theorem constraints_reached (commands : List Command) : Constraints (reached zoneInfo commands) :=
  run_invariant constraints_empty (fun _ command constraints => constraints.step command) commands

/-- Related answers are related responses. -/
theorem respondWith_alike {owner : UUID} {α : Type} {x y : Except PyError (α × Store)}
    (response : α → Response) (h : Alike owner x y) :
    Alike owner (respondWith response x) (respondWith response y) :=
  h.map fun _ _ same => ⟨congrArg response same.1, same.2⟩

theorem done_alike {owner : UUID} {x y : Except PyError Store} (h : Related (Agree owner) x y) :
    Alike owner (x.map fun store => (Response.done, store))
      (y.map fun store => (Response.done, store)) :=
  h.map fun _ _ same => ⟨rfl, same⟩

section
variable {s t : Store} (constraintsS : Constraints s) (constraintsT : Constraints t)
include constraintsS constraintsT

theorem answerCommand_alike (command : Command) (agree : Agree command.owner s t)
    (freshS : Fresh s (.command command)) (freshT : Fresh t (.command command)) :
    Alike command.owner (answerCommand zoneInfo s command) (answerCommand zoneInfo t command) := by
  have versionsS := constraintsS.versions
  have versionsT := constraintsT.versions
  cases command with
  | register => exact freshS.elim
  | createTask owner task id stamp =>
      exact respondWith_alike (fun made : TaskRecord × Bool => .taskCreated made.1 made.2)
        (agree.createTask constraintsS.tasks constraintsT.tasks task id stamp freshS freshT)
  | updateTask => exact respondWith_alike _ (agree.updateTask ..)
  | deleteTask => exact done_alike (agree.deleteTask ..)
  | updatePreferences => exact respondWith_alike _ (agree.updatePreferences ..)
  | createRecurrence owner data id stamp =>
      exact respondWith_alike
        (fun made : RecurrenceRecord × Bool => .recurrenceCreated made.1 made.2)
        (agree.createRecurrence constraintsS.recurrences constraintsT.recurrences data id stamp
          freshS freshT)
  | replaceRecurrence => exact respondWith_alike _ (agree.replaceRecurrence ..)
  | deleteRecurrence => exact done_alike (agree.deleteRecurrence ..)
  | materialize => exact respondWith_alike _ (agree.materialize _ _ _ _ _ _ freshS freshT)
  | createEvent => exact respondWith_alike _ (agree.createEvent _ _ _ freshS freshT)
  | replaceEvent => exact respondWith_alike _ (agree.replaceEvent ..)
  | deleteEvent => exact done_alike (agree.deleteEvent ..)
  | createSchedule =>
      exact respondWith_alike _ (agree.createSchedule versionsS versionsT _ _ _ _ _ freshS freshT)
  | replaceSchedule =>
      exact respondWith_alike _ (agree.replaceSchedule versionsS versionsT _ _ _ _ _)
  | travelSchedule =>
      exact respondWith_alike _ (agree.travelSchedule versionsS versionsT _ _ _ _ _ _)

theorem answerQuery_eq {owner : UUID} (agree : Agree owner s t) (query : Query) :
    answerQuery s owner query = answerQuery t owner query := by
  have versionsS := constraintsS.versions
  have versionsT := constraintsT.versions
  cases query with
  | task => simp only [answerQuery, agree.getTask]
  | tasks => simp only [answerQuery, agree.listTasks]
  | planningInputs => simp only [answerQuery, agree.planningInputs]
  | preferences => simp only [answerQuery, agree.getPreferences]
  | recurrence => simp only [answerQuery, agree.getRecurrence]
  | recurrences => simp only [answerQuery, agree.listRecurrences]
  | event => simp only [answerQuery, agree.getEvent]
  | events => simp only [answerQuery, agree.pageEvents]
  | planningEvents => simp only [answerQuery, agree.pageEvents]
  | schedule => simp only [answerQuery, agree.view versionsS versionsT]
  | schedules => simp only [answerQuery, agree.listSchedules versionsS versionsT]
  | history => simp only [answerQuery, agree.scheduleHistory versionsS versionsT]

theorem answer_alike (operation : Operation) (agree : Agree operation.owner s t)
    (freshS : Fresh s operation) (freshT : Fresh t operation) :
    Alike operation.owner (answer zoneInfo s operation) (answer zoneInfo t operation) := by
  cases operation with
  | command command =>
      exact answerCommand_alike constraintsS constraintsT command agree freshS freshT
  | query owner query =>
      have same : answerQuery s owner query = answerQuery t owner query :=
        answerQuery_eq constraintsS constraintsT agree query
      unfold answer
      simp only
      rw [same]
      cases answerQuery t owner query with
      | error error => exact .error error
      | ok response => exact .ok ⟨rfl, agree⟩

end

/-- The views of the owners unwind the service. -/
theorem service_unwinds : (service zoneInfo).Unwinds Constraints Fresh Agree where
  symm := Agree.symm
  trans := Agree.trans
  preserved := by
    intro store operation constraints
    cases operation with
    | command command => exact service_next_command command ▸ constraints.step command
    | query owner query => exact service_next_query owner query ▸ constraints
  respects := by
    intro store owner operation constraints apart
    cases operation with
    | command command =>
        rw [service_next_command]
        exact (step_contained constraints.versions command).others owner apart
    | query other query => exact service_next_query other query ▸ Agree.refl owner store
  consistent := by
    intro s t operation constraintsS constraintsT agree freshS freshT
    have alike : Alike operation.owner (answer zoneInfo s operation)
        (answer zoneInfo t operation) :=
      answer_alike constraintsS constraintsT operation agree freshS freshT
    unfold Machine.next service
    simp only
    generalize answer zoneInfo s operation = x, answer zoneInfo t operation = y at alike
    cases alike with
    | error error => exact ⟨rfl, agree⟩
    | ok same => exact ⟨congrArg Except.ok same.1, same.2⟩

/-- For every owner: no operation of another owner changes one of its rows, and in
every interleaving its responses, errors included, and its rows are those of its
own operations run alone, from any store with the same rows of the owner. -/
theorem owner_noninterference (zoneInfo : String → Zone) (owner : UUID) :
    (∀ store operation, Constraints store → operation.owner ≠ owner →
      Agree owner store ((service zoneInfo).next store operation)) ∧
    ∀ s t operations, Constraints s → Constraints t → Agree owner s t →
      (service zoneInfo).Admitted Fresh owner s operations →
      (service zoneInfo).Admitted Fresh owner t ((service zoneInfo).purge owner operations) →
      (service zoneInfo).observed owner s operations =
        (service zoneInfo).observed owner t ((service zoneInfo).purge owner operations) ∧
      Agree owner ((service zoneInfo).final s operations)
        ((service zoneInfo).final t ((service zoneInfo).purge owner operations)) :=
  ⟨fun _ operation constraints apart => service_unwinds.respects operation constraints apart,
    fun _ _ _ constraintsS constraintsT agree admittedS admittedT =>
      service_unwinds.noninterference constraintsS constraintsT agree admittedS admittedT⟩

def exam : FixedEventCreate := ⟨"exam", 0, 90 * minute, by decide⟩

/-- An account, and the same account beside another one. -/
def studentStore : Store := reached (fun _ => .utc) [.register 1 "student" "UTC" 0]

def campusStore : Store := step (fun _ => .utc) studentStore (.register 2 "teacher" "UTC" 0)

/-- Between two operations of an owner, another one deletes an event by its id. -/
def examRun : List Operation :=
  [.command (.createEvent 1 exam 5 0), .command (.deleteEvent 2 5 1), .query 1 (.event 5)]

theorem owner_noninterference_exam :
    Agree 1 studentStore
      ((service fun _ => .utc).next studentStore (.command (.register 2 "teacher" "UTC" 0))) ∧
    (service fun _ => .utc).observed 1 campusStore examRun =
      (service fun _ => .utc).observed 1 studentStore ((service fun _ => .utc).purge 1 examRun) ∧
    Agree 1 ((service fun _ => .utc).final campusStore examRun)
      ((service fun _ => .utc).final studentStore ((service fun _ => .utc).purge 1 examRun)) := by
  have student : Constraints studentStore := constraints_reached _
  have campus : Constraints campusStore := student.step _
  have apart := (owner_noninterference (fun _ => .utc) 1).1 studentStore
    (.command (.register 2 "teacher" "UTC" 0)) student (by decide)
  have agree : Agree 1 campusStore studentStore := by
    rw [service_next_command] at apart
    exact apart.symm
  have unclaimed : ∀ store : Store, store.events.rows = [] →
      Fresh store (.command (.createEvent 1 exam 5 0)) := by
    intro store h other hother
    rw [← Table.mem_rows, h] at hother
    cases hother
  refine ⟨apart, (owner_noninterference (fun _ => .utc) 1).2 campusStore studentStore examRun campus
    student agree ?_ ?_⟩
  · intro state operation hoccurs _
    simp only [examRun, occurs_cons, not_occurs_nil, or_false] at hoccurs
    rcases hoccurs with ⟨rfl, rfl⟩ | ⟨-, rfl⟩ | ⟨-, rfl⟩
    · exact unclaimed campusStore (by decide +kernel)
    · trivial
    · trivial
  · intro state operation hoccurs _
    have own : (service fun _ => .utc).purge 1 examRun =
        [.command (.createEvent 1 exam 5 0), .query 1 (.event 5)] := rfl
    rw [own] at hoccurs
    simp only [occurs_cons, not_occurs_nil, or_false] at hoccurs
    rcases hoccurs with ⟨rfl, rfl⟩ | ⟨-, rfl⟩
    · exact unclaimed studentStore (by decide +kernel)
    · trivial

end SmartPlanner

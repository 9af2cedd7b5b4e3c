import SmartPlanner.Library.CreateOnce
import SmartPlanner.RecurrenceRows
import SmartPlanner.StoreReached
import SmartPlanner.TaskRows

/-!
Tasks and patterns are created once for each request id. Both create functions
are attempts of one protocol, insert or else read back, and any other commands
of any clients may run between the two statements. The table of the tasks checks
the title of a row before it looks for a row with its request id.
-/

namespace SmartPlanner

open CreateOnce Outcome Runs Sessions Tables

/-- The key of a create request: the owner and the request id. -/
abbrev RequestKey := UUID × UUID

def taskAt? (store : Store) (key : RequestKey) : Option TaskRow :=
  store.tasks.rows.find? fun row => row.userId = key.1 && row.clientRequestId = key.2

def recurrenceAt? (store : Store) (key : RequestKey) : Option RecurrenceRow :=
  store.recurrences.rows.find? fun row => row.userId = key.1 && row.clientRequestId = key.2

variable (zoneInfo : String → Zone)

/-- `create_task`, with its drawn id and its stamp. -/
def taskCreation : Creation Store RequestKey UUID TaskCreate (UUID × Int) TaskRow TaskRecord
    PyError {command : Command // command.createsTask = false} UUID where
  key owner task := (owner, task.clientRequestId)
  vet task := raiseIf (¬ TitleCheck task.title) .database
  row? := taskAt?
  admits _ _ := true
  digest row := row.creationDigest
  deleted row := row.deletedAt.isSome
  ident row := row.id
  content row := TaskRecord.modelValidate row.toTaskColumns
  identOf record := record.id
  insert store owner task draw := do
    let row := { TaskRow.fresh draw.1 owner task.clientRequestId task.toTaskFields draw.2 with
      creationDigest := some task }
    let store ← insertTask store row
    return (row, store)
  other store command := step zoneInfo store command.1
  conflict := .app .taskRequestConflict
  gone := .app .taskRequestDeleted

/-- `RecurrenceRepository.create`: no row is added for an owner without an
account. -/
def recurrenceCreation : Creation Store RequestKey UUID RecurrenceCreate (UUID × Int)
    RecurrenceRow RecurrenceRecord PyError
    {command : Command // command.createsRecurrence = false} UUID where
  key owner data := (owner, data.clientRequestId)
  vet _ := .ok ()
  row? := recurrenceAt?
  admits store owner := (store.users.find? owner).isSome
  digest row := some row.creationDigest
  deleted row := row.deletedAt.isSome
  ident row := row.id
  content row := RecurrenceRecord.modelValidate row
  identOf record := record.id
  insert store owner data draw :=
    match store.users.find? owner with
    | none => .error (.app .recurrenceRequestConflict)
    | some user => do
        let row : RecurrenceRow := ⟨draw.1, owner, data.clientRequestId, data,
          data.toRecurrenceValues, user.timezone, 1, draw.2, draw.2, none⟩
        let recurrences ← insertRow store.recurrences row
        return (row, { store with recurrences })
  other store command := step zoneInfo store command.1
  conflict := .app .recurrenceRequestConflict
  gone := .app .recurrenceRequestDeleted

/-! Each create function is an attempt with nothing between its statements. -/

theorem createTask_eq_attempt (store : Store) (owner : UUID) (task : TaskCreate) (id : UUID)
    (stamp : Int) : Repository.createTask store owner task id stamp =
      (taskCreation zoneInfo).attempt store owner task (id, stamp) := by
  have hsearch : (taskCreation zoneInfo).row? store ((taskCreation zoneInfo).key owner task) =
    store.tasks.rows.find? fun row =>
      row.userId = owner && row.clientRequestId = task.clientRequestId := rfl
  by_cases htitle : TitleCheck task.title
  · have vetted : (taskCreation zoneInfo).vet task = .ok () := raiseIf_ok.mpr (not_not.mpr htitle)
    have passed : raiseIf (¬ TitleCheck task.title) PyError.database = .ok () := vetted
    unfold Repository.createTask
    rw [passed, ok_bind]
    cases hrow : (taskCreation zoneInfo).row? store ((taskCreation zoneInfo).key owner task) with
    | none =>
        rw [(taskCreation zoneInfo).attempt_of_free vetted hrow rfl, ← hsearch, hrow]
        simp only [Creation.create, taskCreation, Outcome.map_bind, bind_assoc, pure_bind]
        rfl
    | some row =>
        rw [(taskCreation zoneInfo).attempt_of_row vetted hrow, ← hsearch, hrow]
        simp only [taskCreation, Outcome.map_bind, Option.isSome_iff_ne_none]
        rfl
  · have vetoed : (taskCreation zoneInfo).vet task = .error .database :=
      raiseIf_error.mpr ⟨htitle, rfl⟩
    rw [(taskCreation zoneInfo).attempt_of_vetoed vetoed]
    exact bind_error.mpr (Or.inl vetoed)

theorem createRecurrence_eq_attempt (store : Store) (owner : UUID) (data : RecurrenceCreate)
    (id : UUID) (stamp : Int) : RecurrenceRepository.create store owner data id stamp =
      (recurrenceCreation zoneInfo).attempt store owner data (id, stamp) := by
  have hsearch : (recurrenceCreation zoneInfo).row? store
      ((recurrenceCreation zoneInfo).key owner data) = store.recurrences.rows.find? fun row =>
    row.userId = owner && row.clientRequestId = data.clientRequestId := rfl
  have hadmits : (recurrenceCreation zoneInfo).admits store owner =
    (store.users.find? owner).isSome := rfl
  unfold RecurrenceRepository.create
  cases hrow : (recurrenceCreation zoneInfo).row? store
      ((recurrenceCreation zoneInfo).key owner data) with
  | some row =>
      rw [(recurrenceCreation zoneInfo).attempt_of_row rfl hrow, ← hsearch, hrow]
      simp only [recurrenceCreation, Outcome.map_bind, Option.isSome_iff_ne_none, ne_eq,
        Option.some.injEq]
      rfl
  | none =>
      cases huser : store.users.find? owner with
      | none =>
          rw [huser] at hadmits
          rw [(recurrenceCreation zoneInfo).attempt_of_refused rfl hrow hadmits, ← hsearch, hrow]
          rfl
      | some user =>
          rw [huser] at hadmits
          rw [(recurrenceCreation zoneInfo).attempt_of_free rfl hrow hadmits, ← hsearch, hrow]
          simp only [Creation.create, recurrenceCreation, huser, Outcome.map_bind, bind_assoc,
            pure_bind]
          rfl

variable {zoneInfo} {store : Store}

theorem taskAt?_eq_some (keys : TaskKeys store) {key : RequestKey} {row : TaskRow} :
    taskAt? store key = some row ↔
      row ∈ store.tasks ∧ row.userId = key.1 ∧ row.clientRequestId = key.2 := by
  unfold taskAt?
  rw [Table.rows_find?_eq_some]
  · simp
  · intro a ha b hb hpa hpb
    simp only [Bool.and_eq_true, decide_eq_true_eq] at hpa hpb
    exact keys.requests a ha b hb (hpa.1.trans hpb.1.symm) (hpa.2.trans hpb.2.symm)

theorem taskAt?_eq_none {key : RequestKey} :
    taskAt? store key = none ↔
      ∀ row ∈ store.tasks, row.userId = key.1 → row.clientRequestId ≠ key.2 := by
  simp [taskAt?, Table.mem_rows]

theorem recurrenceAt?_eq_some (keys : RecurrenceKeys store) {key : RequestKey}
    {row : RecurrenceRow} :
    recurrenceAt? store key = some row ↔
      row ∈ store.recurrences ∧ row.userId = key.1 ∧ row.clientRequestId = key.2 := by
  unfold recurrenceAt?
  rw [Table.rows_find?_eq_some]
  · simp
  · intro a ha b hb hpa hpb
    simp only [Bool.and_eq_true, decide_eq_true_eq] at hpa hpb
    exact keys a ha b hb (hpa.1.trans hpb.1.symm) (hpa.2.trans hpb.2.symm)

theorem recurrenceAt?_eq_none {key : RequestKey} :
    recurrenceAt? store key = none ↔
      ∀ row ∈ store.recurrences, row.userId = key.1 → row.clientRequestId ≠ key.2 := by
  simp [recurrenceAt?, Table.mem_rows]

theorem taskCreation_lawful : (taskCreation zoneInfo).Lawful TaskKeys where
  insert {s sender payload draw row s'} keys free h := by
    simp only [taskCreation, bind_ok, pure_eq_ok, Except.ok.injEq, Prod.mk.injEq] at h
    obtain ⟨store', hinsert, rfl, rfl⟩ := h
    have inserted := insertTask_ok hinsert
    refine ⟨inserted.kept.keys keys, ?_, rfl, fun k hne => ?_⟩
    · exact (taskAt?_eq_some (inserted.kept.keys keys)).mpr
        ⟨(inserted.mem _).mpr (Or.inr rfl), rfl, rfl⟩
    · change taskAt? store' k = taskAt? s k
      unfold taskAt?
      rw [inserted.rows, Table.find?_snoc_of_neg]
      simp only [Bool.and_eq_true, decide_eq_true_eq]
      exact fun heq => hne (Prod.ext heq.1.symm heq.2.symm)
  other {s} command keys := by
    have kept := @step_tasksKept zoneInfo s command.1
    refine ⟨kept.keys keys, fun k row hrow => ?_⟩
    obtain ⟨hmem, howner, hrequest⟩ := (taskAt?_eq_some keys).mp hrow
    obtain ⟨row', hmem', follows⟩ := kept.follows row hmem
    refine ⟨row', (taskAt?_eq_some (kept.keys keys)).mpr
      ⟨hmem', follows.userId.trans howner, follows.clientRequestId.trans hrequest⟩,
      follows.id, follows.creationDigest, fun hdeleted => follows.deleted ?_⟩
    exact Option.isSome_iff_ne_none.mp hdeleted
  unasked {s} command k row keys free h := by
    have change := @step_taskChange zoneInfo s command.1
    obtain ⟨hmem, howner, hrequest⟩ := (taskAt?_eq_some (change.kept.keys keys)).mp h
    rcases change.unasked command.2 row hmem with ⟨old, hold, howner', hrequest'⟩ | hnone
    · exact absurd (hrequest'.symm.trans hrequest)
        (taskAt?_eq_none.mp free old hold (howner'.symm.trans howner))
    · exact hnone
  content {row answer} h := by
    have hvalid := TaskRecord.modelValidate_ok.mp h
    exact congrArg TaskColumns.id hvalid

theorem recurrenceCreation_lawful : (recurrenceCreation zoneInfo).Lawful RecurrenceKeys where
  insert {s sender payload draw row s'} keys free h := by
    cases huser : s.users.find? sender with
    | none =>
        simp only [recurrenceCreation, huser] at h
        contradiction
    | some user =>
        simp only [recurrenceCreation, huser, bind_ok, pure_eq_ok, Except.ok.injEq,
          Prod.mk.injEq] at h
        obtain ⟨recurrences, hinsert, rfl, rfl⟩ := h
        have hrows := (Table.insert?_eq_some (insertRow_ok.mp hinsert)).2
        have inserted : RecurrenceInserted s { s with recurrences } _ :=
          ⟨fun other ho howner => recurrenceAt?_eq_none.mp free other ho howner, hrows⟩
        refine ⟨inserted.keys keys, ?_, rfl, fun k hne => ?_⟩
        · exact (recurrenceAt?_eq_some (inserted.keys keys)).mpr
            ⟨(inserted.mem _).mpr (Or.inr rfl), rfl, rfl⟩
        · change recurrenceAt? { s with recurrences } k = recurrenceAt? s k
          unfold recurrenceAt?
          rw [hrows, Table.find?_snoc_of_neg]
          simp only [Bool.and_eq_true, decide_eq_true_eq]
          exact fun heq => hne (Prod.ext heq.1.symm heq.2.symm)
  other {s} command keys := by
    have change := @step_recurrenceChange zoneInfo s command.1
    refine ⟨change.keys keys, fun k row hrow => ?_⟩
    obtain ⟨hmem, howner, hrequest⟩ := (recurrenceAt?_eq_some keys).mp hrow
    obtain ⟨row', hmem', follows⟩ := change.follows row hmem
    refine ⟨row', (recurrenceAt?_eq_some (change.keys keys)).mpr
      ⟨hmem', follows.userId.trans howner, follows.clientRequestId.trans hrequest⟩,
      follows.id, congrArg some follows.creationDigest, fun hdeleted => follows.deleted ?_⟩
    exact Option.isSome_iff_ne_none.mp hdeleted
  unasked {s} command k row keys free h := by
    have change := @step_recurrenceChange zoneInfo s command.1
    obtain ⟨hmem, howner, hrequest⟩ := (recurrenceAt?_eq_some (change.keys keys)).mp h
    obtain ⟨old, hold, follows⟩ := change.unasked command.2 row hmem
    exact absurd (follows.clientRequestId.symm.trans hrequest)
      (recurrenceAt?_eq_none.mp free old hold (follows.userId.symm.trans howner))
  content {row answer} h := by
    change RecurrenceRecord.modelValidate row = .ok answer at h
    unfold RecurrenceRecord.modelValidate at h
    split at h
    · cases h
      rfl
    · contradiction

/-- No title that the table refuses is sent with a request id that has a task. -/
def RefusedTitlesFree (zoneInfo : String → Zone)
    (events : List (Event (UUID × TaskCreate × UUID × Int)
      {command : Command // command.createsTask = false})) : Prop :=
  ∀ owner task client draw i, events[i]? = some (.start client (owner, task, draw)) →
    ((taskCreation zoneInfo).stateAt Store.empty events i).pending client = none →
    ¬ TitleCheck task.title →
    taskAt? ((taskCreation zoneInfo).stateAt Store.empty events i).store
      (owner, task.clientRequestId) = none

theorem taskCreation_vet {task : TaskCreate} {error : PyError} :
    (taskCreation zoneInfo).vet task = .error error ↔
      ¬ TitleCheck task.title ∧ PyError.database = error := raiseIf_error

theorem vetoesFree_iff {events : List (Event (UUID × TaskCreate × UUID × Int)
      {command : Command // command.createsTask = false})} :
    (taskCreation zoneInfo).VetoesFree Store.empty events ↔ RefusedTitlesFree zoneInfo events := by
  constructor
  · intro h owner task client draw i hevent hpending hfails
    exact h owner task .database i
      ⟨_, hevent, client, draw, rfl, hpending, taskCreation_vet.mpr ⟨hfails, rfl⟩⟩
  · rintro h owner task error i ⟨event, hevent, client, draw, rfl, hpending, hvet⟩
    exact h owner task client draw i hevent hpending (taskCreation_vet.mp hvet).1

/-- Whatever create attempts, edits and deletes of any clients follow each other,
a request id names one task of its owner and one pattern, made by one attempt,
and every later success reads it. Every other answer is a comparison with that
attempt exactly if no title that the table refuses is sent with a taken id. -/
theorem creation_once (zoneInfo : String → Zone) :
    (∀ events, (taskCreation zoneInfo).MadeOnce Store.empty events ∧
      ((taskCreation zoneInfo).Once Store.empty events ↔ RefusedTitlesFree zoneInfo events) ∧
      ∀ i, ∀ a ∈ ((taskCreation zoneInfo).stateAt Store.empty events i).store.tasks,
        ∀ b ∈ ((taskCreation zoneInfo).stateAt Store.empty events i).store.tasks,
        a.userId = b.userId → a.clientRequestId = b.clientRequestId → a = b) ∧
    (∀ events, (recurrenceCreation zoneInfo).Once Store.empty events ∧
      ∀ i, ∀ a ∈ ((recurrenceCreation zoneInfo).stateAt Store.empty events i).store.recurrences,
        ∀ b ∈ ((recurrenceCreation zoneInfo).stateAt Store.empty events i).store.recurrences,
        a.userId = b.userId → a.clientRequestId = b.clientRequestId → a = b) := by
  refine ⟨fun events => ⟨?_, ?_, fun i => ?_⟩, fun events => ⟨?_, fun i => ?_⟩⟩
  · exact taskCreation_lawful.madeOnce taskKeys_empty (fun _ => rfl) events
  · rw [← vetoesFree_iff]
    refine taskCreation_lawful.once_iff taskKeys_empty (fun _ => rfl) fun task error h => ?_
    rw [← (taskCreation_vet.mp h).2]
    exact PyError.noConfusion
  · exact (taskCreation_lawful.stateAt_safe taskKeys_empty events i).store.requests
  · refine recurrenceCreation_lawful.once recurrenceKeys_empty (fun _ => rfl) ?_
    -- a pattern has no such check
    rintro owner data error i ⟨event, hevent, client, draw, rfl, hpending, hvet⟩
    contradiction
  · exact (recurrenceCreation_lawful.stateAt_safe recurrenceKeys_empty events i).store

def note : TaskCreate where
  title := "note"
  description := ""
  durationMinutes := 30
  priority := 5
  splittable := false
  preferredPeriod := .any
  earliestStart := none
  deadline := none
  clientRequestId := 7
  valid := by decide

def nullNote : TaskCreate :=
  { note with
    title := "\x00note"
    valid := by decide }

/-- A task is created, and its request id sent again with a title that begins with
U+0000. -/
def refusedTitleRun : List (Event (UUID × TaskCreate × UUID × Int)
    {command : Command // command.createsTask = false}) :=
  [.other ⟨.register 1 "student" "UTC" 0, rfl⟩,
    .start 0 (1, note, 2, 0),
    .start 0 (1, nullNote, 3, 0)]

/-- The second attempt answers with the error of the driver, not with a conflict. -/
theorem refusedTitle_unconflicted :
    (taskCreation fun _ => Zone.utc).AnswersAt Store.empty refusedTitleRun
      ⟨1, nullNote, .error .database⟩ 2 ∧
    ¬ (taskCreation fun _ => Zone.utc).Once Store.empty refusedTitleRun := by
  have answered : (taskCreation fun _ => Zone.utc).AnswersAt Store.empty refusedTitleRun
      ⟨1, nullNote, .error .database⟩ 2 :=
    Creation.VetoedAt.answers ⟨_, rfl, 0, (3, 0), rfl, rfl, by decide⟩
  have taken : ∃ row, taskAt? ((taskCreation fun _ => Zone.utc).stateAt Store.empty
      refusedTitleRun 2).store (1, 7) = some row ∧
      row.creationDigest ≠ some (nullNote) := by
    have found : (taskAt? ((taskCreation fun _ => Zone.utc).stateAt Store.empty
        refusedTitleRun 2).store (1, 7)).any (fun row =>
          row.creationDigest ≠ some (nullNote)) = true := by
      decide +kernel
    obtain ⟨row, hrow, hne⟩ := (Option.any_eq_true _ _).mp found
    exact ⟨row, hrow, of_decide_eq_true hne⟩
  refine ⟨answered, fun once => ?_⟩
  obtain ⟨row, hrow, hne⟩ := taken
  have conflict := once.conflict 1 nullNote _ row 2 2 hrow hne (Nat.le_refl 2) answered
  cases conflict

end SmartPlanner

import SmartPlanner.ContractJson
import SmartPlanner.StoreReached

/-!
The `state` column: `_insert_state` writes a `SavedState` as JSON, and `_header`
and `travel` validate what `json.loads` reads. The readers know the spellings that
`model_dump` writes; pydantic accepts more. What a run stores is read back.
-/

namespace SmartPlanner

open Json Outcome Histories Tables ScheduleRepository

def UnscheduledReason.text : UnscheduledReason → String
  | .deadlinePassed => "deadline_passed"
  | .noSlotFound => "no_slot_found"
  | .searchLimit => "search_limit"
  | .notScheduled => "not_scheduled"

def Warning.text : Warning → String
  | .breakPreferenceNotMet => "break_preference_not_met"
  | .workloadPreferenceNotMet => "workload_preference_not_met"
  | .unsplittableTaskExceedsFocusPreference => "unsplittable_task_exceeds_focus_preference"

def UnscheduledTask.modelDump (task : UnscheduledTask) : Value := record [
  ("task_id", uuidValue task.taskId),
  ("title", textValue task.title),
  ("remaining_minutes", .int task.remainingMinutes),
  ("reason", textValue task.reason.text),
  ("message", textValue task.message)]

/-- A dictionary of titles, in its own order. -/
def titlesValue (titles : List (UUID × String)) : Value :=
  .obj (titles.map fun entry => (uuidText entry.1, textValue entry.2))

def SavedState.modelDump (state : SavedState) : Value := record [
  ("title", textValue state.title),
  ("content", state.content.modelDump),
  ("task_versions", versionsValue state.taskVersions),
  ("preference_version", .int state.preferenceVersion),
  ("task_titles", titlesValue state.taskTitles),
  ("unscheduled", .arr (state.unscheduled.map UnscheduledTask.modelDump)),
  ("ignored_task_ids", .arr (state.ignoredTaskIds.map uuidValue)),
  ("warnings", .arr (state.warnings.map fun warning => textValue warning.text))]

/-- `encode` of a `Jsonb`: `json.dumps(value.obj, ensure_ascii=False)`. -/
def encodeState (state : SavedState) : List Char := write ⟨false, true⟩ state.modelDump

/-! The field types. -/

def textOf? : Value → Option String
  | .str text => some (String.ofList text)
  | _ => none

/-- `Title`. -/
def titleOf? (value : Value) : Option String := (textOf? value).filter (TitleValid ·)

def uuidOf? : Value → Option UUID
  | .str text => readUuid text
  | _ => none

def dateOf? : Value → Option Int
  | .str text => readDate text
  | _ => none

def timeOf? : Value → Option Int
  | .str text => readZ text
  | _ => none

/-- `StrictInt`. -/
def intOf? : Value → Option Int
  | .int n => some n
  | _ => none

/-- `StrictBool`. -/
def boolOf? : Value → Option Bool
  | .bool b => some b
  | _ => none

/-- `Version`. -/
def versionOf? : Value → Option Nat
  | .int n => if 1 ≤ n ∧ n ≤ versionLimit then some n.toNat else none
  | _ => none

def reasonOf? (value : Value) : Option UnscheduledReason :=
  (textOf? value).bind fun text =>
    [.deadlinePassed, .noSlotFound, .searchLimit, .notScheduled].find? fun reason =>
      reason.text = text

def warningOf? (value : Value) : Option Warning :=
  (textOf? value).bind fun text =>
    [.breakPreferenceNotMet, .workloadPreferenceNotMet,
      .unsplittableTaskExceedsFocusPreference].find? fun warning => warning.text = text

/-! The contracts. A member with a default may be missing. -/

/-- The fields that every window has. -/
def windowOf? (members : List (List Char × Value)) : Option TimeWindow := do
  let start ← field? timeOf? members "start"
  let stop ← field? timeOf? members "end"
  if h : WindowValid start stop then some ⟨start, stop, h⟩ else none

def TimeWindow.modelValidate (value : Value) : Option TimeWindow := do
  windowOf? (← members? ["start", "end"] value)

def FixedEvent.modelValidate (value : Value) : Option FixedEvent := do
  let members ← members? ["start", "end", "title"] value
  let window ← windowOf? members
  let title ← field? textOf? members "title"
  if h : TitleValid title then some ⟨window, title, h⟩ else none

def PlanBlock.modelValidate (value : Value) : Option PlanBlock := do
  let members ← members? ["start", "end", "task_id", "locked"] value
  let window ← windowOf? members
  let taskId ← field? uuidOf? members "task_id"
  let locked ← fieldOr? false boolOf? members "locked"
  return ⟨window, taskId, locked⟩

def ScheduleContent.modelValidate (value : Value) : Option ScheduleContent := do
  let members ← members?
    ["start_date", "days", "task_ids", "availability", "fixed_events", "blocks"] value
  let startDate ← field? dateOf? members "start_date"
  let days ← fieldOr? 1 intOf? members "days"
  let taskIds ← field? (items? uuidOf?) members "task_ids"
  let availability ← fieldOr? [] (items? TimeWindow.modelValidate) members "availability"
  let fixedEvents ← fieldOr? [] (items? FixedEvent.modelValidate) members "fixed_events"
  let blocks ← fieldOr? [] (items? PlanBlock.modelValidate) members "blocks"
  if h : (730120 ≤ startDate ∧ startDate ≤ 767002) ∧ (days = 1 ∨ days = 7) ∧ taskIds.Nodup ∧
      taskIds.length ≤ 100 ∧ availability.length ≤ 28 ∧ fixedEvents.length ≤ 100 then
    if h' : blocks.length ≤ 512 ∧ ∀ block ∈ blocks, block.taskId ∈ taskIds then
      some ⟨⟨startDate, days, taskIds, availability, fixedEvents, h⟩, blocks, h'⟩
    else none
  else none

def UnscheduledTask.modelValidate (value : Value) : Option UnscheduledTask := do
  let members ← members? ["task_id", "title", "remaining_minutes", "reason", "message"] value
  let taskId ← field? uuidOf? members "task_id"
  let title ← field? textOf? members "title"
  let remaining ← field? intOf? members "remaining_minutes"
  let reason ← field? reasonOf? members "reason"
  let message ← field? textOf? members "message"
  if 1 ≤ remaining then some ⟨taskId, title, remaining, reason, message⟩ else none

/-- `SavedState.model_validate`. That the versions are those of the selected tasks
was checked of the request the state comes from and is not checked again there; a
`SavedState` here cannot be built without it. -/
def SavedState.modelValidate (value : Value) : Option SavedState := do
  let members ← members? ["title", "content", "task_versions", "preference_version",
    "task_titles", "unscheduled", "ignored_task_ids", "warnings"] value
  let title ← field? textOf? members "title"
  let content ← field? ScheduleContent.modelValidate members "content"
  let versions ← field? (entries? readUuid versionOf?) members "task_versions"
  let taskVersions := Sorting.sortBy Prod.fst versions
  let preferenceVersion ← field? versionOf? members "preference_version"
  let taskTitles ← field? (entries? readUuid titleOf?) members "task_titles"
  let unscheduled ← field? (items? UnscheduledTask.modelValidate) members "unscheduled"
  let ignoredTaskIds ← field? (items? uuidOf?) members "ignored_task_ids"
  let warnings ← field? (items? warningOf?) members "warnings"
  if h : CandidateValid title content taskVersions preferenceVersion then
    some ⟨⟨title, content, taskVersions, preferenceVersion, h⟩, taskTitles, unscheduled,
      ignoredTaskIds, warnings⟩
  else none

/-- `decode` of the column and `SavedState.model_validate`. -/
def decodeState (text : List Char) : Option SavedState :=
  (loads text).bind SavedState.modelValidate

/-! What was written is read. -/

section
variable {id : UUID} {day t n : Int} {text : String} {b : Bool}

@[simp] theorem textOf?_textValue : textOf? (textValue text) = some text := by
  simp [textOf?, textValue]

theorem titleOf?_textValue (valid : TitleValid text) : titleOf? (textValue text) = some text := by
  rw [titleOf?, textOf?_textValue]
  exact if_pos (decide_eq_true valid)

theorem uuidOf?_uuidValue (h : id < 16 ^ 32) : uuidOf? (uuidValue id) = some id :=
  readUuid_uuidText h

theorem timeOf?_timeValue (years : SupportedYear t) : timeOf? (timeValue t) = some t :=
  readZ_isoZ years.inYears

theorem dateOf?_dateValue (first : 0 < day) (last : day ≤ 3652059) :
    dateOf? (dateValue day) = some day := readDate_isoDate first last

theorem uuidsOf?_uuidValues {ids : List UUID} (h : ∀ id ∈ ids, id < 16 ^ 32) :
    items? uuidOf? (.arr (ids.map uuidValue)) = some ids :=
  items?_map fun id hid => uuidOf?_uuidValue (h id hid)

@[simp] theorem intOf?_int : intOf? (.int n) = some n := rfl

@[simp] theorem boolOf?_bool : boolOf? (.bool b) = some b := rfl

theorem versionOf?_int {version : Nat} (valid : VersionValid version) :
    versionOf? (.int version) = some version := by
  unfold VersionValid at valid
  rw [versionOf?, if_pos (by omega), Int.toNat_natCast]

@[simp] theorem reasonOf?_textValue (reason : UnscheduledReason) :
    reasonOf? (textValue reason.text) = some reason := by
  rw [reasonOf?, textOf?_textValue, Option.bind_some]
  cases reason <;> decide

@[simp] theorem warningOf?_textValue (warning : Warning) :
    warningOf? (textValue warning.text) = some warning := by
  rw [warningOf?, textOf?_textValue, Option.bind_some]
  cases warning <;> decide

end

theorem TimeWindow.times (window : TimeWindow) :
    timeOf? (timeValue window.start) = some window.start ∧
      timeOf? (timeValue window.stop) = some window.stop := by
  obtain ⟨⟨start, -⟩, ⟨stop, -⟩, -⟩ := window.windowValid
  exact ⟨timeOf?_timeValue start, timeOf?_timeValue stop⟩

/-- The window of a record that starts with its bounds. -/
theorem windowOf?_record (window : TimeWindow) (members : List (String × Value)) :
    windowOf? ((("start", timeValue window.start) :: ("end", timeValue window.stop) ::
      members).map fun member => (member.1.toList, member.2)) = some window := by
  unfold windowOf?
  simp only [field?_record, List.lookup_cons_self, Option.bind_some, window.times,
    Option.bind_eq_bind, List.lookup_cons, String.reduceBEq]
  exact dif_pos window.windowValid

theorem TimeWindow.modelValidate_dump (window : TimeWindow) :
    TimeWindow.modelValidate window.modelDump = some window := by
  unfold TimeWindow.modelValidate TimeWindow.modelDump
  rw [members?_record (by simp), Option.bind_eq_bind, Option.bind_some]
  exact windowOf?_record window []

theorem FixedEvent.modelValidate_dump (event : FixedEvent) :
    FixedEvent.modelValidate event.modelDump = some event := by
  unfold FixedEvent.modelValidate FixedEvent.modelDump
  rw [members?_record (by simp), Option.bind_eq_bind, Option.bind_some, windowOf?_record]
  simp only [field?_record, List.lookup_cons, String.reduceBEq, textOf?_textValue,
    Option.bind_eq_bind, Option.bind_some]
  exact dif_pos event.titleValid

theorem PlanBlock.modelValidate_dump {block : PlanBlock} (h : block.taskId < 16 ^ 32) :
    PlanBlock.modelValidate block.modelDump = some block := by
  unfold PlanBlock.modelValidate PlanBlock.modelDump
  rw [members?_record (by simp), Option.bind_eq_bind, Option.bind_some, windowOf?_record]
  simp only [field?_record, fieldOr?_record, List.lookup_cons, String.reduceBEq,
    uuidOf?_uuidValue h, boolOf?_bool, Option.bind_eq_bind, Option.bind_some, Option.elim_some]
  rfl

theorem ScheduleContent.modelValidate_dump {content : ScheduleContent}
    (ids : ∀ id ∈ content.taskIds, id < 16 ^ 32) :
    ScheduleContent.modelValidate content.modelDump = some content := by
  obtain ⟨⟨first, last⟩, -⟩ := content.planningValid
  have date : dateOf? (dateValue content.startDate) = some content.startDate :=
    dateOf?_dateValue (by omega) (by omega)
  have windows : items? TimeWindow.modelValidate
      (.arr (content.availability.map TimeWindow.modelDump)) = some content.availability :=
    items?_map fun window _ => window.modelValidate_dump
  have events : items? FixedEvent.modelValidate
      (.arr (content.fixedEvents.map FixedEvent.modelDump)) = some content.fixedEvents :=
    items?_map fun event _ => event.modelValidate_dump
  have blocks : items? PlanBlock.modelValidate
      (.arr (content.blocks.map PlanBlock.modelDump)) = some content.blocks :=
    items?_map fun block hblock =>
      PlanBlock.modelValidate_dump (ids block.taskId (content.blocksValid.2 block hblock))
  unfold ScheduleContent.modelValidate ScheduleContent.modelDump
  rw [members?_record (by simp), Option.bind_eq_bind, Option.bind_some]
  simp only [field?_record, fieldOr?_record, List.lookup_cons, String.reduceBEq, date, windows,
    events, blocks, uuidsOf?_uuidValues ids, intOf?_int, Option.bind_eq_bind, Option.bind_some,
    Option.elim_some]
  rw [dif_pos content.planningValid, dif_pos content.blocksValid]

theorem UnscheduledTask.modelValidate_dump {task : UnscheduledTask} (id : task.taskId < 16 ^ 32)
    (remaining : 1 ≤ task.remainingMinutes) :
    UnscheduledTask.modelValidate task.modelDump = some task := by
  unfold UnscheduledTask.modelValidate UnscheduledTask.modelDump
  rw [members?_record (by simp), Option.bind_eq_bind, Option.bind_some]
  simp only [field?_record, List.lookup_cons, String.reduceBEq, uuidOf?_uuidValue id,
    textOf?_textValue, intOf?_int, reasonOf?_textValue, Option.bind_eq_bind, Option.bind_some]
  exact if_pos remaining

/-- What `_validate` puts beside a candidate. -/
structure SavedState.Derived (state : SavedState) : Prop where
  selected : state.taskTitles.map Prod.fst = state.content.taskIds
  titles : ∀ entry ∈ state.taskTitles, TitleValid entry.2
  unscheduled : ∀ task ∈ state.unscheduled,
    task.taskId ∈ state.content.taskIds ∧ 1 ≤ task.remainingMinutes
  ignored : ∀ id ∈ state.ignoredTaskIds, id ∈ state.content.taskIds

section
variable {state : SavedState}

theorem SavedState.modelDump_valid (derived : state.Derived) : Valid state.modelDump := by
  refine valid_record (by simp) ?_
  simp only [List.forall_mem_cons, valid_textValue, Valid, List.not_mem_nil, false_imp_iff,
    implies_true, and_true, true_and]
  have titles : Valid (titlesValue state.taskTitles) := by
    refine ⟨?_, validMembers_iff.mpr fun member hmember => ?_⟩
    · have distinct := state.content.planningValid.2.2.1
      rw [← derived.selected] at distinct
      rw [List.map_map]
      have hmap := distinct.map fun _ _ heq => uuidText_injective heq
      rwa [List.map_map] at hmap
    · obtain ⟨entry, -, rfl⟩ := List.mem_map.mp hmember
      trivial
  refine ⟨ScheduleContent.canonical.valid _, versionsValue_valid state.candidateValid.2.1, titles,
    validItems_iff.mpr fun item hitem => ?_, uuidValue_canonical.list.valid _,
    validItems_iff.mpr fun item hitem => ?_⟩
  · obtain ⟨task, -, rfl⟩ := List.mem_map.mp hitem
    exact valid_record (by simp) (by simp [Valid])
  · obtain ⟨warning, -, rfl⟩ := List.mem_map.mp hitem
    trivial

theorem SavedState.modelValidate_dump (derived : state.Derived)
    (ids : ∀ id ∈ state.content.taskIds, id < 16 ^ 32) :
    SavedState.modelValidate state.modelDump = some state := by
  obtain ⟨-, sorted, named, -, preference⟩ := state.candidateValid
  have content := ScheduleContent.modelValidate_dump ids
  have versions : entries? readUuid versionOf? (versionsValue state.taskVersions) =
      some state.taskVersions :=
    @entries?_map UUID Nat uuidText readUuid (fun version => .int version) versionOf? _
      fun entry hentry => ⟨readUuid_uuidText (ids entry.1 (named entry hentry).1),
        versionOf?_int (named entry hentry).2⟩
  have order : Sorting.sortBy Prod.fst state.taskVersions = state.taskVersions :=
    Sorting.sortBy_eq_self (sorted.imp Nat.le_of_lt)
  have titles : entries? readUuid titleOf? (titlesValue state.taskTitles) =
      some state.taskTitles :=
    entries?_map fun entry hentry =>
      ⟨readUuid_uuidText (ids entry.1 (derived.selected ▸ List.mem_map_of_mem hentry)),
        titleOf?_textValue (derived.titles entry hentry)⟩
  have unscheduled : items? UnscheduledTask.modelValidate
      (.arr (state.unscheduled.map UnscheduledTask.modelDump)) = some state.unscheduled :=
    items?_map fun task htask => UnscheduledTask.modelValidate_dump
      (ids task.taskId (derived.unscheduled task htask).1) (derived.unscheduled task htask).2
  have ignored := uuidsOf?_uuidValues fun id hid => ids id (derived.ignored id hid)
  have warnings : items? warningOf?
      (.arr (state.warnings.map fun warning => textValue warning.text)) = some state.warnings :=
    items?_map fun warning _ => warningOf?_textValue warning
  unfold SavedState.modelValidate SavedState.modelDump
  rw [members?_record (by simp), Option.bind_eq_bind, Option.bind_some]
  simp only [field?_record, List.lookup_cons, String.reduceBEq, textOf?_textValue, content,
    versions, order, versionOf?_int preference, titles, unscheduled, ignored, warnings,
    Option.bind_eq_bind, Option.bind_some]
  exact dif_pos state.candidateValid

theorem decodeState_encodeState (derived : state.Derived)
    (ids : ∀ id ∈ state.content.taskIds, id < 16 ^ 32) :
    decodeState (encodeState state) = some state := by
  unfold decodeState encodeState
  rw [loads_write _ (SavedState.modelDump_valid derived), Option.bind_some,
    SavedState.modelValidate_dump derived ids]

end

/-! Every stored state is one that `_validate` built. -/

section
variable {zoneInfo : String → Zone} {store store' : Store}

theorem Validated.derived {owner : UUID} {candidate : Candidate} {zone : String}
    {previous : Option Candidate} {now : Int} {tasks : List TaskRecord}
    {values : PreferenceValues} {report : LayoutReport}
    (valid : Validated zoneInfo store owner candidate zone previous now tasks values report) :
    (savedState candidate tasks report).Derived := by
  obtain ⟨-, p, htasks, -, -, -, hmissing, hignored⟩ := inspectLayout_report valid.inspected
  have ids : tasks.map (·.id) = candidate.content.taskIds := valid.current.records.ids_eq
  have selected : ∀ task ∈ p.tasks, task.id ∈ candidate.content.taskIds := by
    rw [htasks, ← ids]
    exact fun task ht => List.mem_map_of_mem ht
  refine ⟨List.map_map.trans ids, fun entry hentry => ?_, fun entry hentry => ?_,
    fun id hid => ?_⟩
  · obtain ⟨task, -, rfl⟩ := List.mem_map.mp hentry
    exact task.valid.1.1
  · have hamount := List.mem_map_of_mem (f := UnscheduledTask.amount) hentry
    rw [savedState, hmissing, List.mem_filterMap] at hamount
    obtain ⟨task, ht, hshort⟩ := hamount
    have hpending := (Planner.mem_pending.mp (Planner.mem_ordered.mp ht)).1
    dsimp only [shortfall] at hshort
    split at hshort
    · simp only [Option.some.injEq, UnscheduledTask.amount, Prod.mk.injEq] at hshort
      exact ⟨hshort.1 ▸ selected task hpending, by omega⟩
    · contradiction
  · rw [savedState, hignored, Planner.ignoredTaskIds, Sorting.mem_sortBy] at hid
    obtain ⟨task, ht, rfl⟩ := List.mem_map.mp hid
    exact selected task (List.mem_of_mem_filter ht)

/-- The versions after a replace are versions from before it and the new one. -/
theorem Replaced.version {owner scheduleId : UUID} {now stamp : Int} {result : ScheduleResult}
    {data : ScheduleReplace} {schedule : ScheduleRow} {current row : VersionRow}
    {tasks : List TaskRecord} {values : PreferenceValues} {report : LayoutReport}
    (ok : StoreOk zoneInfo store)
    (replaced : Replaced zoneInfo store owner scheduleId now stamp data result store' schedule
      current tasks values report) (hrow : row ∈ store'.versions) :
    row ∈ store.versions ∨ row.state = savedState data.toCandidate tasks report := by
  have hid := replaced.addressed.schedule_id
  subst hid
  by_cases hown : row.scheduleId = schedule.id
  · have hin := mem_historyRows.mpr ⟨hrow, hown⟩
    have bounded := (ok.schedules schedule replaced.addressed.schedule_mem).bounded
    rw [replaced.history bounded] at hin
    rcases List.mem_append.mp (mem_of_mem_newest hin) with hold | hnew
    · exact Or.inl (mem_historyRows.mp (List.mem_of_mem_filter hold)).1
    · rw [List.mem_singleton.mp hnew]
      exact Or.inr rfl
  · have hin := mem_historyRows.mpr ⟨hrow, rfl⟩
    rw [replaced.commit.otherHistories _ hown] at hin
    exact Or.inl (mem_historyRows.mp hin).1

section
variable {P : SavedState → Prop}
  (built : ∀ {store : Store} {owner : UUID} {candidate : Candidate} {zone : String}
    {previous : Option Candidate} {now : Int} {tasks : List TaskRecord}
    {values : PreferenceValues} {report : LayoutReport},
    Validated zoneInfo store owner candidate zone previous now tasks values report →
      P (savedState candidate tasks report))
include built

theorem versions_built_step (ok : StoreOk zoneInfo store) (old : ∀ row ∈ store.versions, P row.state)
    (transition : Transition zoneInfo store store') : ∀ row ∈ store'.versions, P row.state := by
  intro row hrow
  cases transition with
  | sources grow => exact old row (grow.versions ▸ hrow)
  | created created =>
      rw [← Table.mem_rows, created.versions, List.mem_append, List.mem_singleton] at hrow
      rcases hrow with hold | rfl
      · exact old row hold
      · exact built created.valid
  | replaced replaced =>
      rcases replaced.version ok hrow with hold | hnew
      · exact old row hold
      · rw [hnew]
        exact built replaced.valid
  | travelled travelled => exact old row (travelled.versions ▸ hrow)

/-- What holds of every state that `_validate` builds holds of every stored one. -/
theorem versions_built (commands : List Command) :
    ∀ row ∈ (reached zoneInfo commands).versions, P row.state :=
  (Runs.run_invariant (I := fun store => StoreOk zoneInfo store ∧
      ∀ row ∈ store.versions, P row.state)
    ⟨storeOk_empty zoneInfo, fun row h => absurd h (Table.not_mem_empty row)⟩
    (fun store command h => ⟨storeOk_step store command h.1,
      versions_built_step built h.1 h.2 (step_transition store command)⟩) commands).2

end

theorem versions_derived (commands : List Command) :
    ∀ row ∈ (reached zoneInfo commands).versions, row.state.Derived :=
  versions_built Validated.derived commands

end

/-- Every version that a run stored is read back from its column as it was built,
where ids are 128-bit numbers. -/
theorem stored_states_read_back (zoneInfo : String → Zone) (commands : List Command)
    {row : VersionRow} (stored : row ∈ (reached zoneInfo commands).versions)
    (ids : ∀ id ∈ row.state.content.taskIds, id < 16 ^ 32) :
    decodeState (encodeState row.state) = some row.state :=
  decodeState_encodeState (versions_derived commands row stored) ids

theorem stored_states_read_back_essayRun :
    ∃ row ∈ (reached (fun _ => Zone.utc) essayRun).versions, row.revision = 2 ∧
      decodeState (encodeState row.state) = some row.state := by
  have stored : ∃ row ∈ (reached (fun _ => Zone.utc) essayRun).versions.rows, row.revision = 2 ∧
      ∀ id ∈ row.state.content.taskIds, id < 16 ^ 32 := by decide +kernel
  obtain ⟨row, hrow, hrevision, ids⟩ := stored
  exact ⟨row, hrow, hrevision, stored_states_read_back (fun _ => Zone.utc) essayRun hrow ids⟩

end SmartPlanner

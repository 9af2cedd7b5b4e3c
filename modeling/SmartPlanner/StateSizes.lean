import SmartPlanner.Library.JsonSize
import SmartPlanner.StoredStates

/-!
The check on the `state` column: `json_valid(state) AND length(state) <= 524288`.
The contracts bound every list and every title, and the bound of the column leaves
room for all of them at once, with every character of a title escaped.
-/

namespace SmartPlanner

open Decimal Json Outcome Sorting Tables ScheduleRepository

/-- The separators and escapes of `encode`. -/
def stateStyle : Style := ⟨false, true⟩

/-! The texts of ids, days and instants need no escapes. -/

theorem unescaped_digitChar (n : Nat) : Unescaped (Nat.digitChar n) :=
  forall_digitChar (by decide) n

theorem unescaped_pad {width n : Nat} : ∀ c ∈ pad width n, Unescaped c := by
  intro c hc
  obtain ⟨k, rfl⟩ := exists_digitChar_of_mem_pad hc
  exact unescaped_digitChar k

theorem unescaped_text {layout : List (Nat × Char)} (marks : ∀ field ∈ layout, Unescaped field.2)
    (values : List Nat) : ∀ c ∈ text layout values, Unescaped c := by
  induction layout generalizing values with
  | nil => exact fun c hc => absurd hc List.not_mem_nil
  | cons field layout ih =>
      rw [List.forall_mem_cons] at marks
      cases values with
      | nil => exact fun c hc => absurd hc List.not_mem_nil
      | cons n values =>
          rw [text, List.forall_mem_append, List.forall_mem_cons]
          exact ⟨unescaped_pad, marks.1, ih marks.2 values⟩

theorem unescaped_hexDigit {c : Char} (h : (Hex.digit? c).isSome = true) : Unescaped c := by
  have range : (48 ≤ c.toNat ∧ c.toNat ≤ 57) ∨ (97 ≤ c.toNat ∧ c.toNat ≤ 102) ∨
      (65 ≤ c.toNat ∧ c.toNat ≤ 70) := by
    unfold Hex.digit? at h
    split at h
    · next digit => exact Or.inl digit
    · split at h
      · next lower => exact Or.inr (Or.inl lower)
      · split at h
        · next upper => exact Or.inr (Or.inr upper)
        · contradiction
  refine ⟨?_, ?_, by omega, by omega⟩
  · rintro rfl
    exact absurd range (by decide)
  · rintro rfl
    exact absurd range (by decide)

theorem intercalate_uuidGroups (digits : List Char) :
    ['-'].intercalate (uuidGroups digits) = digits.take 8 ++ '-' :: ((digits.drop 8).take 4 ++
      '-' :: ((digits.drop 12).take 4 ++ '-' :: ((digits.drop 16).take 4 ++
        '-' :: digits.drop 20))) := by
  simp [uuidGroups, List.intercalate]

theorem unescaped_uuidText (id : UUID) : ∀ c ∈ uuidText id, Unescaped c := by
  have digits : ∀ c ∈ Hex.text 32 id, Unescaped c := fun c hc =>
    unescaped_hexDigit (Hex.digit?_of_mem_text hc)
  have group : ∀ skipped taken, ∀ c ∈ ((Hex.text 32 id).drop skipped).take taken, Unescaped c :=
    fun _ _ c hc => digits c (List.mem_of_mem_drop (List.mem_of_mem_take hc))
  have dash : Unescaped '-' := by decide
  unfold uuidText
  rw [intercalate_uuidGroups]
  simp only [List.forall_mem_append, List.forall_mem_cons]
  exact ⟨group 0 8, dash, group 8 4, dash, group 12 4, dash, group 16 4, dash,
    fun c hc => digits c (List.mem_of_mem_drop hc)⟩

theorem length_uuidText {id : UUID} (h : id < 16 ^ 32) : (uuidText id).length = 36 := by
  unfold uuidText
  rw [intercalate_uuidGroups]
  simp [Hex.length_text (by decide) h]

theorem unescaped_isoDate (day : Int) : ∀ c ∈ isoDate day, Unescaped c := by
  unfold isoDate
  rw [List.forall_mem_append]
  exact ⟨unescaped_text (by decide) _, unescaped_pad⟩

theorem unescaped_isoZ (t : Int) : ∀ c ∈ isoZ t, Unescaped c := by
  unfold isoZ
  split
  · exact unescaped_text (by decide) _
  · rw [List.forall_mem_append, List.forall_mem_append, List.forall_mem_singleton]
    exact ⟨unescaped_text (by decide) _, unescaped_pad, by decide⟩

theorem length_text_le (layout : List (Nat × Char)) (values : List Nat) :
    (text layout values).length ≤ (layout.map fun field => field.1 + 1).sum := by
  induction layout generalizing values with
  | nil => cases values <;> exact Nat.le_refl 0
  | cons field layout ih =>
      cases values with
      | nil => exact Nat.zero_le _
      | cons n values =>
          have rest := ih values
          rw [text, List.length_append, List.length_cons, length_pad, List.map_cons, List.sum_cons]
          omega

theorem length_isoDate_le (day : Int) : (isoDate day).length ≤ 10 := by
  unfold isoDate
  rw [List.length_append, length_pad]
  exact Nat.add_le_add_right (length_text_le _ _) 2

theorem length_isoZ_le (t : Int) : (isoZ t).length ≤ 27 := by
  unfold isoZ
  split
  · exact Nat.le_trans (length_text_le _ _) (by decide)
  · rw [List.length_append, List.length_append, length_pad]
    exact Nat.add_le_add_right (length_text_le _ _) 7

/-! The fields. -/

theorem sized_uuid {id : UUID} (h : id < 16 ^ 32) : Sized stateStyle 38 (uuidValue id) := by
  have written : Sized stateStyle _ (uuidValue id) := sized_unescaped (unescaped_uuidText id)
  rwa [length_uuidText h] at written

theorem sized_date (day : Int) : Sized stateStyle 12 (dateValue day) :=
  (sized_unescaped (unescaped_isoDate day)).mono (Nat.add_le_add_right (length_isoDate_le day) 2)

theorem sized_time (t : Int) : Sized stateStyle 29 (timeValue t) :=
  (sized_unescaped (unescaped_isoZ t)).mono (Nat.add_le_add_right (length_isoZ_le t) 2)

theorem sized_title {text : String} (valid : TitleValid text) :
    Sized stateStyle 1202 (textValue text) := by
  have written : Sized stateStyle _ (textValue text) := sized_text rfl
  refine written.mono ?_
  rw [String.length_toList]
  have bounded := valid.2
  omega

theorem sized_version {version : Nat} (valid : VersionValid version) :
    Sized stateStyle 10 (.int version) :=
  sized_nat (by decide) (Nat.lt_of_le_of_lt valid.2 (by decide))

theorem Warning.sized (warning : Warning) : Sized stateStyle 44 (textValue warning.text) := by
  cases warning <;> decide +kernel

theorem TimeWindow.sized (window : TimeWindow) : Sized stateStyle 84 window.modelDump :=
  Sized.mono (sized_record ["start", "end"] rfl
    (.cons (sized_time _) (.cons (sized_time _) .nil))) (by decide +kernel)

theorem FixedEvent.sized (event : FixedEvent) : Sized stateStyle 1300 event.modelDump :=
  Sized.mono (sized_record ["start", "end", "title"] rfl
    (.cons (sized_time _) (.cons (sized_time _) (.cons (sized_title event.titleValid) .nil))))
    (by decide +kernel)

theorem PlanBlock.sized {block : PlanBlock} (h : block.taskId < 16 ^ 32) :
    Sized stateStyle 150 block.modelDump :=
  Sized.mono (sized_record ["start", "end", "task_id", "locked"] rfl
    (.cons (sized_time _) (.cons (sized_time _) (.cons (sized_uuid h)
      (.cons (sized_bool _) .nil))))) (by decide +kernel)

theorem sized_uuids {ids : List UUID} (few : ids.length ≤ 100) (h : ∀ id ∈ ids, id < 16 ^ 32) :
    Sized stateStyle 4002 (.arr (ids.map uuidValue)) :=
  sized_arr few fun id hid => sized_uuid (h id hid)

theorem ScheduleContent.sized {content : ScheduleContent}
    (ids : ∀ id ∈ content.taskIds, id < 16 ^ 32) :
    Sized stateStyle 214600 content.modelDump := by
  obtain ⟨-, horizon, -, tasks, available, events⟩ := content.planningValid
  obtain ⟨few, selected⟩ := content.blocksValid
  have days : Sized stateStyle 1 (.int content.days) := by
    rcases horizon with h | h <;> rw [h] <;> exact Nat.le_refl 1
  exact Sized.mono
    (sized_record ["start_date", "days", "task_ids", "availability", "fixed_events", "blocks"] rfl
      (.cons (sized_date _) (.cons days (.cons (sized_uuids tasks ids)
        (.cons (sized_arr available fun window _ => window.sized)
          (.cons (sized_arr events fun event _ => event.sized)
            (.cons (sized_arr few fun block hblock =>
              PlanBlock.sized (ids block.taskId (selected block hblock))) .nil)))))))
    (by decide +kernel)

theorem length_writeText_uuid {id : UUID} (h : id < 16 ^ 32) :
    (writeText stateStyle.ascii (uuidText id)).length ≤ 38 := by
  rw [length_writeText_unescaped (unescaped_uuidText id), length_uuidText h]

/-! What `inspect_layout` reports. -/

/-- An entry for a task of the contracts that is short of minutes. -/
structure UnscheduledTask.Reported (entry : UnscheduledTask) : Prop where
  title : TitleValid entry.title
  minutes : 1 ≤ entry.remainingMinutes ∧ entry.remainingMinutes ≤ 10080
  reason : entry.reason = .notScheduled
  message : entry.message = UnscheduledReason.notScheduled.message

theorem UnscheduledTask.Reported.sized {entry : UnscheduledTask} (reported : entry.Reported)
    (h : entry.taskId < 16 ^ 32) : Sized stateStyle 1390 entry.modelDump := by
  have remaining : Sized stateStyle 5 (.int entry.remainingMinutes) := by
    obtain ⟨hlow, hhigh⟩ := reported.minutes
    obtain ⟨n, hn⟩ := Int.eq_ofNat_of_zero_le (Int.le_trans (by decide) hlow)
    rw [hn]
    exact sized_nat (by decide) (by omega)
  have reason : Sized stateStyle 15 (textValue entry.reason.text) := by
    rw [reported.reason]
    decide +kernel
  have message : Sized stateStyle 43 (textValue entry.message) := by
    rw [reported.message]
    decide +kernel
  exact Sized.mono (sized_record ["task_id", "title", "remaining_minutes", "reason", "message"] rfl
    (.cons (sized_uuid h) (.cons (sized_title reported.title) (.cons remaining
      (.cons reason (.cons message .nil)))))) (by decide +kernel)

theorem missingEntry_reported {blocks : List PlanBlock} {listed missing : List UnscheduledTask}
    {task : TaskRecord} (h : missingEntry blocks listed task = .ok missing)
    (old : ∀ entry ∈ listed, entry.Reported) : ∀ entry ∈ missing, entry.Reported := by
  have used := minutesOf_nonneg (blocks.filter (·.taskId = task.id))
  have bounded := task.valid.1.2.2.1.2
  unfold missingEntry at h
  simp only at h
  split at h
  · rw [bind_ok] at h
    obtain ⟨entry, hmade, hmissing⟩ := h
    obtain ⟨positive, rfl⟩ := UnscheduledTask.make_ok.mp hmade
    cases hmissing
    rw [List.forall_mem_append, List.forall_mem_singleton]
    exact ⟨old, task.valid.1.1, ⟨positive, by dsimp only; omega⟩, rfl, rfl⟩
  · cases h
    exact old

theorem foldlM_missingEntry_reported {blocks : List PlanBlock} {tasks : List TaskRecord}
    {listed missing : List UnscheduledTask}
    (h : tasks.foldlM (missingEntry blocks) listed = .ok missing)
    (old : ∀ entry ∈ listed, entry.Reported) : ∀ entry ∈ missing, entry.Reported := by
  induction tasks generalizing listed with
  | nil =>
      cases h
      exact old
  | cons task tasks ih =>
      rw [List.foldlM_cons, bind_ok] at h
      obtain ⟨next, hentry, hrest⟩ := h
      exact ih hrest (missingEntry_reported hentry old)

theorem Planner.length_warnings_le (p : Planner) (state : PlannerState) :
    (p.warnings state).length ≤ 3 := by
  have one (P : Prop) [Decidable P] (warning : Warning) :
      (if P then [warning] else []).length ≤ 1 := by
    split
    · exact Nat.le_refl 1
    · exact Nat.zero_le 1
  unfold Planner.warnings
  rw [List.length_append, List.length_append]
  exact Nat.add_le_add (Nat.add_le_add (one _ _) (one _ _)) (one _ _)

section
variable {zoneInfo : String → Zone} {window : PlanningWindow} {blocks : List PlanBlock}
  {tasks : List TaskRecord} {preferences : PreferenceValues} {timezoneName : String}
  {report : LayoutReport}

theorem inspectLayout_reported
    (h : inspectLayout zoneInfo window blocks tasks preferences timezoneName = .ok report) :
    (∀ entry ∈ report.missing, entry.Reported) ∧ report.warnings.length ≤ 3 := by
  unfold inspectLayout at h
  simp only [raiseIf_bind_ok] at h
  simp only [bind_ok, pure_eq_ok, Except.ok.injEq] at h
  obtain ⟨-, -, -, p, -, state, -, missing, hmissing, horizon, -, rfl⟩ := h
  exact ⟨foldlM_missingEntry_reported hmissing (List.forall_mem_nil _), p.length_warnings_le state⟩

/-- At most as many tasks are reported as there are. -/
theorem inspectLayout_counts
    (h : inspectLayout zoneInfo window blocks tasks preferences timezoneName = .ok report) :
    report.missing.length ≤ tasks.length ∧ report.ignoredTaskIds.length ≤ tasks.length := by
  obtain ⟨-, p, rfl, -, -, -, hmissing, hignored⟩ := inspectLayout_report h
  constructor
  · rw [← List.length_map UnscheduledTask.amount, hmissing]
    refine Nat.le_trans (List.length_filterMap_le _ _) ?_
    rw [Planner.ordered, length_sortBy]
    exact List.length_filter_le _ _
  · rw [hignored, Planner.ignoredTaskIds, length_sortBy, List.length_map]
    exact List.length_filter_le _ _

end

/-! The saved state. -/

/-- The lists that `_validate` adds are short. -/
structure SavedState.Short (state : SavedState) : Prop where
  missing : state.unscheduled.length ≤ 100
  reported : ∀ entry ∈ state.unscheduled, entry.Reported
  ignored : state.ignoredTaskIds.length ≤ 100
  warned : state.warnings.length ≤ 3

theorem Validated.short {zoneInfo : String → Zone} {store : Store} {owner : UUID}
    {candidate : Candidate} {zone : String} {previous : Option Candidate} {now : Int}
    {tasks : List TaskRecord} {values : PreferenceValues} {report : LayoutReport}
    (valid : Validated zoneInfo store owner candidate zone previous now tasks values report) :
    (savedState candidate tasks report).Short := by
  obtain ⟨hmissing, hignored⟩ := inspectLayout_counts valid.inspected
  obtain ⟨reported, warned⟩ := inspectLayout_reported valid.inspected
  have few : tasks.length ≤ 100 := by
    have selected := candidate.content.planningValid.2.2.2.1
    rwa [← valid.current.records.ids_eq, List.length_map] at selected
  exact ⟨Nat.le_trans hmissing few, reported, Nat.le_trans hignored few, warned⟩

section
variable {state : SavedState}

/-- One version for each selected task, and no others. -/
theorem SavedState.length_taskVersions_le (state : SavedState) :
    state.taskVersions.length ≤ 100 := by
  obtain ⟨-, sorted, named, -, -⟩ := state.candidateValid
  have distinct : (state.taskVersions.map Prod.fst).Nodup :=
    List.pairwise_map.mpr (sorted.imp Nat.ne_of_lt)
  have selected : state.taskVersions.map Prod.fst ⊆ state.content.taskIds := by
    intro id hid
    obtain ⟨entry, hentry, rfl⟩ := List.mem_map.mp hid
    exact (named entry hentry).1
  have fewer := (List.subperm_of_subset distinct selected).length_le
  rw [List.length_map] at fewer
  exact Nat.le_trans fewer state.content.planningValid.2.2.2.1

theorem SavedState.sized (derived : state.Derived) (short : state.Short)
    (ids : ∀ id ∈ state.content.taskIds, id < 16 ^ 32) :
    Sized stateStyle 524288 state.modelDump := by
  obtain ⟨title, -, named, -, preference⟩ := state.candidateValid
  have titled : state.taskTitles.length ≤ 100 := by
    rw [← List.length_map Prod.fst, derived.selected]
    exact state.content.planningValid.2.2.2.1
  have versions : Sized stateStyle 5202 (versionsValue state.taskVersions) :=
    sized_obj state.length_taskVersions_le
      (fun entry hentry => length_writeText_uuid (ids entry.1 (named entry hentry).1))
      fun entry hentry => sized_version (named entry hentry).2
  have titles : Sized stateStyle 124402 (titlesValue state.taskTitles) :=
    sized_obj titled
      (fun entry hentry => length_writeText_uuid
        (ids entry.1 (derived.selected ▸ List.mem_map_of_mem hentry)))
      fun entry hentry => sized_title (derived.titles entry hentry)
  have unscheduled : Sized stateStyle 139202
      (.arr (state.unscheduled.map UnscheduledTask.modelDump)) :=
    sized_arr short.missing fun entry hentry => (short.reported entry hentry).sized
      (ids entry.taskId (derived.unscheduled entry hentry).1)
  have ignored := sized_uuids short.ignored fun id hid => ids id (derived.ignored id hid)
  have warnings : Sized stateStyle 140
      (.arr (state.warnings.map fun warning => textValue warning.text)) :=
    sized_arr short.warned fun warning _ => warning.sized
  exact Sized.mono
    (sized_record ["title", "content", "task_versions", "preference_version", "task_titles",
        "unscheduled", "ignored_task_ids", "warnings"] rfl
      (.cons (sized_title title) (.cons (ScheduleContent.sized ids) (.cons versions
        (.cons (sized_version preference) (.cons titles (.cons unscheduled (.cons ignored
          (.cons warnings .nil))))))))) (by decide +kernel)

end

/-- Every version that a run stored passes the check of its column, where ids are
128-bit numbers: its text is JSON, and short enough. -/
theorem stored_states_fit (zoneInfo : String → Zone) (commands : List Command) {row : VersionRow}
    (stored : row ∈ (reached zoneInfo commands).versions)
    (ids : ∀ id ∈ row.state.content.taskIds, id < 16 ^ 32) :
    loads (encodeState row.state) = some row.state.modelDump ∧
      (encodeState row.state).length ≤ 524288 := by
  have derived := versions_derived commands row stored
  have short : row.state.Short := versions_built Validated.short commands row stored
  exact ⟨loads_write _ (SavedState.modelDump_valid derived), SavedState.sized derived short ids⟩

theorem stored_states_fit_essayRun :
    ∃ row ∈ (reached (fun _ => Zone.utc) essayRun).versions, row.revision = 2 ∧
      loads (encodeState row.state) = some row.state.modelDump ∧
        (encodeState row.state).length ≤ 524288 := by
  have stored : ∃ row ∈ (reached (fun _ => Zone.utc) essayRun).versions.rows, row.revision = 2 ∧
      ∀ id ∈ row.state.content.taskIds, id < 16 ^ 32 := by decide +kernel
  obtain ⟨row, hrow, hrevision, ids⟩ := stored
  exact ⟨row, hrow, hrevision, stored_states_fit (fun _ => Zone.utc) essayRun hrow ids⟩

end SmartPlanner

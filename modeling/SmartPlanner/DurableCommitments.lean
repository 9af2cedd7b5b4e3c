import SmartPlanner.Api
import SmartPlanner.PreviewRefusals
import SmartPlanner.SavedCommitments

/-!
Previews and stored commitments. The service plans around one page of the stored
events, so a preview respects all of them exactly when that page misses none; a
request that is refused before the page matters respects them anyway.
-/

namespace SmartPlanner

open Outcome Sorting Tables FixedEventRepository

/-- The stored events of the owner that meet the horizon are among the events of
the preview, and its blocks keep clear of them. -/
def PlanPreview.Honours (preview : PlanPreview) (store : Store) (owner : UUID) : Prop :=
  ∀ row ∈ store.events.rows, row.userId = owner ∧
      preview.horizon.start < row.stop ∧ row.start < preview.horizon.stop →
    row.value ∈ preview.fixedEvents.map (·.value) ∧
    ∀ block ∈ preview.blocks, row.Clear block.toTimeWindow

instance (preview : PlanPreview) (store : Store) (owner : UUID) :
    Decidable (preview.Honours store owner) := by
  unfold PlanPreview.Honours
  infer_instance

/-- A preview that honours the stored events, or a refusal. -/
def Respects (store : Store) (owner : UUID) : Except PyError PlanPreview → Prop
  | .ok preview => preview.Honours store owner
  | .error e => Refusal e

section
variable (zoneInfo : String → Zone) (store : Store) (user : UserRow) (data : PreviewRequest)

/-- The stored events of the account that meet the requested horizon. -/
def meetingEvents : List FixedEventRow :=
  overlapping store user.id (data.horizonStart (zoneInfo user.timezone))
    (data.horizonStop (zoneInfo user.timezone))

/-- The page of them that the service reads. -/
def pagedEvents : List FixedEventRow :=
  planningEvents store user.id (data.horizonStart (zoneInfo user.timezone))
    (data.horizonStop (zoneInfo user.timezone))

/-- The page misses none of the events. -/
def PageCovers : Prop :=
  ∀ row ∈ meetingEvents zoneInfo store user data,
    row.value ∈ (pagedEvents zoneInfo store user data).map (·.value)

/-- The years of the page are supported. -/
def ListedSupported : Prop :=
  ∀ row ∈ pagedEvents zoneInfo store user data, SupportedYear row.start ∧ SupportedYear row.stop

/-- The years of the horizon are supported. -/
def HorizonSupported : Prop :=
  SupportedYear (data.horizonStart (zoneInfo user.timezone)) ∧
  SupportedYear (data.horizonStop (zoneInfo user.timezone))

/-- The years of the page and of the horizon are supported. -/
def PageSupported : Prop :=
  ListedSupported zoneInfo store user data ∧ HorizonSupported zoneInfo user data

/-- The preferences and every task of the request are there. -/
def InputsPresent : Prop :=
  (∃ row ∈ store.preferences, row.userId = user.id) ∧
  ∀ taskId ∈ data.taskIds, ∃ row ∈ store.tasks,
    row.id = taskId ∧ row.userId = user.id ∧ row.deletedAt = none

/-- The tasks of the request, as they are stored. -/
def Selected (task : TaskRecord) : Prop :=
  ∃ row ∈ store.tasks, row.userId = user.id ∧ row.id ∈ data.taskIds ∧ row.deletedAt = none ∧
    row.toTaskColumns = task.toTaskColumns

/-- With the events of the page there are at most a hundred, and the planner has
nothing against the request. -/
def Plannable (now : Int) : Prop :=
  ∃ events tasks, ∃ few : (events ++ data.fixedEvents).length ≤ 100,
    events.map (·.value) = (pagedEvents zoneInfo store user data).map (·.value) ∧
    (∀ task, task ∈ tasks ↔ Selected store user data task) ∧
    RequestOk (zoneInfo user.timezone) (data.withEvents (events ++ data.fixedEvents) few)
      tasks now

end

theorem not_refusal_validation : ¬ Refusal .validation := by
  rintro ⟨error, h⟩
  cases h

theorem raises_modelValidate {columns : TaskColumns} (valid : columns.Valid) {S : PyError → Prop} :
    Raises S (TaskRecord.modelValidate columns) := by
  unfold TaskRecord.modelValidate
  rw [dif_pos valid]
  exact raises_ok _

/-- Reading the inputs of a preview fails only when one of them is missing. -/
theorem Repository.raises_planningInputs {store : Store} (valid : SourcesValid store)
    (owner : UUID) (taskIds : List UUID) :
    Raises Refusal (Repository.planningInputs store owner taskIds) := by
  unfold Repository.planningInputs
  refine Raises.bind ?_ fun preferences _ => ?_
  · unfold Repository.getPreferences
    split
    · next row hfind =>
        unfold PreferenceRecord.modelValidate
        rw [dif_pos (valid.preferences row (Table.find?_eq_some.mp hfind).1)]
        exact raises_ok _
    · exact raises_error ⟨_, rfl⟩
  · refine (raises_raiseIf ⟨_, rfl⟩).bind fun _ _ => ?_
    refine (raises_mapM fun row hrow => ?_).bind fun tasks _ => raises_ok _
    rw [mem_sortBy, Table.mem_select] at hrow
    simp only [Bool.and_eq_true, decide_eq_true_eq] at hrow
    exact raises_modelValidate (valid.tasks row hrow.1 hrow.2.2)

section
variable {store : Store} {user : UserRow} {data : PreviewRequest} {tasks : List TaskRecord}
  {preferences : PreferenceRecord}

/-- The tasks that are read are those of the request, and all of them are there. -/
theorem Repository.planningInputs_selected
    (h : Repository.planningInputs store user.id data.taskIds = .ok (tasks, preferences)) :
    InputsPresent store user data ∧ ∀ task, task ∈ tasks ↔ Selected store user data task := by
  have snapshot := Repository.planningInputs_ok h
  unfold Repository.planningInputs at h
  simp only [bind_ok, pure_eq_ok, Except.ok.injEq, Prod.mk.injEq, raiseIf_ok] at h
  obtain ⟨record, hrecord, -, -, found, hfound, rfl, -⟩ := h
  have columns : found.map (·.toTaskColumns) =
      (sortBy (·.id) (store.tasks.select fun row => row.userId = user.id &&
        row.id ∈ data.taskIds && row.deletedAt = none)).map (·.toTaskColumns) :=
    map_eq_of_mapM_ok (fun row task h => TaskRecord.modelValidate_ok.mp h) hfound
  have selected : ∀ task, task ∈ found ↔ Selected store user data task := by
    intro task
    have hmap : task ∈ found ↔ task.toTaskColumns ∈ found.map (·.toTaskColumns) := by
      refine ⟨List.mem_map_of_mem, fun hin => ?_⟩
      obtain ⟨other, hother, heq⟩ := List.mem_map.mp hin
      rwa [← TaskRecord.eq_of_columns heq]
    rw [hmap, columns, List.mem_map]
    simp only [mem_sortBy, Table.mem_select, Bool.and_eq_true, decide_eq_true_eq]
    unfold Selected
    simp only [and_assoc]
  refine ⟨⟨?_, fun taskId hid => ?_⟩, selected⟩
  · unfold Repository.getPreferences at hrecord
    split at hrecord
    · next row hrow => exact ⟨row, Table.find?_eq_some.mp hrow⟩
    · contradiction
  · obtain ⟨task, ht, rfl⟩ := List.mem_map.mp (snapshot.2.2 taskId hid)
    obtain ⟨row, hmem, howner, -, hlive, hcolumns⟩ := (selected task).mp ht
    exact ⟨row, hmem, congrArg TaskColumns.id hcolumns, howner, hlive⟩

/-- Inputs that are there are read. -/
theorem Repository.planningInputs_total (valid : SourcesValid store)
    (present : InputsPresent store user data) :
    ∃ inputs, Repository.planningInputs store user.id data.taskIds = .ok inputs := by
  obtain ⟨⟨row, hrow, howner⟩, all⟩ := present
  set rows := sortBy (·.id) (store.tasks.select fun row => row.userId = user.id &&
    row.id ∈ data.taskIds && row.deletedAt = none) with hrows
  have mem : ∀ row, row ∈ rows ↔ row ∈ store.tasks ∧ row.userId = user.id ∧
      row.id ∈ data.taskIds ∧ row.deletedAt = none := by
    intro row
    simp only [hrows, mem_sortBy, Table.mem_select, Bool.and_eq_true, decide_eq_true_eq,
      and_assoc]
  have nodup : (rows.map (·.id)).Nodup :=
    ((sortBy_perm _ _).map _).nodup_iff.mpr (store.tasks.select_distinct _)
  have count : rows.length = data.taskIds.length := by
    rw [← List.length_map (fun row : TaskRow => row.id)]
    refine ((List.perm_ext_iff_of_nodup nodup data.planningValid.2.2.1).mpr fun id => ?_).length_eq
    constructor
    · intro hid
      obtain ⟨row, hin, rfl⟩ := List.mem_map.mp hid
      exact ((mem row).mp hin).2.2.1
    · intro hid
      obtain ⟨row, hmem, rfl, howner, hlive⟩ := all id hid
      exact List.mem_map_of_mem ((mem row).mpr ⟨hmem, howner, hid, hlive⟩)
  obtain ⟨tasks, htasks⟩ : ∃ tasks,
      (rows.mapM fun row => TaskRecord.modelValidate row.toTaskColumns) = .ok tasks :=
    mapM_total fun row hin => ⟨⟨row.toTaskColumns,
      valid.tasks row ((mem row).mp hin).1 ((mem row).mp hin).2.2.2⟩,
      TaskRecord.modelValidate_ok.mpr rfl⟩
  have read : Repository.getPreferences store user.id = PreferenceRecord.modelValidate row := by
    unfold Repository.getPreferences
    rw [Table.find?_eq_some.mpr ⟨hrow, howner⟩]
  obtain ⟨preferences, validated⟩ : ∃ preferences,
      PreferenceRecord.modelValidate row = .ok preferences := by
    unfold PreferenceRecord.modelValidate
    rw [dif_pos (valid.preferences row hrow)]
    exact ⟨_, rfl⟩
  have counted : raiseIf (rows.length ≠ data.taskIds.length) (PyError.app .notFound) = .ok () :=
    raiseIf_ok.mpr (not_not.mpr count)
  unfold Repository.planningInputs
  rw [read, validated, ok_bind]
  simp only
  rw [← hrows, counted, ok_bind, htasks]
  exact ⟨_, rfl⟩

end

theorem FixedEvent.value_injective {a b : FixedEvent} (h : a.value = b.value) : a = b := by
  obtain ⟨⟨start, stop, window⟩, title, valid⟩ := a
  obtain ⟨⟨start', stop', window'⟩, title', valid'⟩ := b
  simp only [FixedEvent.value, Prod.mk.injEq] at h
  obtain ⟨rfl, rfl, rfl⟩ := h
  rfl

/-- A stored event that is not converted fails the validation. -/
theorem raises_planned (event : FixedEventCreate) : Raises (· = .validation) event.planned := by
  unfold FixedEventCreate.planned FixedEvent.make
  split
  · exact raises_ok _
  · exact raises_error rfl

section
variable {zoneInfo : String → Zone} {store : Store} {user : UserRow} {data : PreviewRequest}
  {slotFree : Bool} {now : Int}

/-- The stages that a returned preview went through. -/
theorem previewSchedule_stages {preview : PlanPreview}
    (h : previewSchedule zoneInfo store user data slotFree now = .ok preview) :
    slotFree = true ∧ ∃ tasks preferences events, ∃ few : (events ++ data.fixedEvents).length ≤ 100,
      Repository.planningInputs store user.id data.taskIds = .ok (tasks, preferences) ∧
      (pagedEvents zoneInfo store user data).mapM (fun row => row.planned) = .ok events ∧
      buildPreview zoneInfo (data.withEvents (events ++ data.fixedEvents) few) tasks
        preferences.toPreferenceValues user.timezone now preferences.version maxCandidates =
          .ok preview := by
  unfold previewSchedule at h
  simp only [raiseIf_bind_ok] at h
  simp only [bind_ok] at h
  obtain ⟨hslot, ⟨tasks, preferences⟩, hinputs, events, hevents, h⟩ := h
  split at h
  · next few =>
      exact ⟨by simpa using hslot, tasks, preferences, events, few, hinputs, hevents, h⟩
  · contradiction

/-- The answer to a request whose inputs and events were read. -/
theorem previewSchedule_eq {tasks : List TaskRecord} {preferences : PreferenceRecord}
    {events : List FixedEvent}
    (hinputs : Repository.planningInputs store user.id data.taskIds = .ok (tasks, preferences))
    (hevents : (pagedEvents zoneInfo store user data).mapM (fun row => row.planned) = .ok events) :
    previewSchedule zoneInfo store user data true now =
      if few : (events ++ data.fixedEvents).length ≤ 100 then
        buildPreview zoneInfo (data.withEvents (events ++ data.fixedEvents) few) tasks
          preferences.toPreferenceValues user.timezone now preferences.version maxCandidates
      else .error (.app .tooManyFixedEvents) := by
  unfold pagedEvents at hevents
  unfold previewSchedule
  rw [hinputs, ok_bind]
  simp only
  rw [hevents]
  rfl

theorem values_of_listed {events : List FixedEvent}
    (hevents : (pagedEvents zoneInfo store user data).mapM (fun row => row.planned) = .ok events) :
    events.map (·.value) = (pagedEvents zoneInfo store user data).map (·.value) :=
  map_eq_of_mapM_ok (fun _ _ h => FixedEventCreate.planned_ok.mp h) hevents

/-- The page is converted exactly in supported years. -/
theorem listedSupported_iff :
    ListedSupported zoneInfo store user data ↔
      ∃ events, (pagedEvents zoneInfo store user data).mapM (fun row => row.planned) =
        .ok events := by
  constructor
  · exact fun listed => mapM_total fun row hrow =>
      FixedEventCreate.planned_total (listed row hrow).1 (listed row hrow).2
  · rintro ⟨events, hevents⟩ row hrow
    have hin : row.value ∈ events.map (·.value) :=
      values_of_listed hevents ▸ List.mem_map_of_mem hrow
    obtain ⟨event, -, hvalue⟩ := List.mem_map.mp hin
    simp only [FixedEvent.value, FixedEventCreate.value, Prod.mk.injEq] at hvalue
    rw [← hvalue.2.1, ← hvalue.2.2]
    exact ⟨event.windowValid.1.1, event.windowValid.2.1.1⟩

/-- A page that is not converted raises what no refusal is. -/
theorem previewSchedule_unlisted {inputs : List TaskRecord × PreferenceRecord}
    (hinputs : Repository.planningInputs store user.id data.taskIds = .ok inputs)
    (unlisted : ¬ ListedSupported zoneInfo store user data) :
    previewSchedule zoneInfo store user data true now = .error .validation := by
  cases hevents : (pagedEvents zoneInfo store user data).mapM fun row => row.planned with
  | ok events => exact absurd (listedSupported_iff.mpr ⟨events, hevents⟩) unlisted
  | error e =>
      have invalid : e = .validation :=
        raises_mapM (fun row _ => raises_planned row.toFixedEventCreate) e hevents
      rw [invalid] at hevents
      unfold pagedEvents at hevents
      unfold previewSchedule
      rw [hinputs, ok_bind]
      simp only
      rw [hevents]
      rfl

/-- The planner gets the tasks and the events that were read. -/
theorem plannable_iff {tasks : List TaskRecord} {preferences : PreferenceRecord}
    {events : List FixedEvent}
    (hinputs : Repository.planningInputs store user.id data.taskIds = .ok (tasks, preferences))
    (hevents : (pagedEvents zoneInfo store user data).mapM (fun row => row.planned) = .ok events) :
    Plannable zoneInfo store user data now ↔
      ∃ few : (events ++ data.fixedEvents).length ≤ 100,
        RequestOk (zoneInfo user.timezone) (data.withEvents (events ++ data.fixedEvents) few)
          tasks now := by
  have selected := (Repository.planningInputs_selected hinputs).2
  constructor
  · rintro ⟨others, read, few, hvalues, hread, ok⟩
    have same : others = events := by
      refine List.map_injective_iff.mpr (fun _ _ => FixedEvent.value_injective) ?_
      exact hvalues.trans (values_of_listed hevents).symm
    subst same
    exact ⟨few, ok.congr fun task => (selected task).trans (hread task).symm⟩
  · rintro ⟨few, ok⟩
    exact ⟨events, tasks, few, values_of_listed hevents, selected, ok⟩

/-- What a returned preview was planned around. -/
theorem previewSchedule_ok {preview : PlanPreview}
    (h : previewSchedule zoneInfo store user data slotFree now = .ok preview) :
    ∃ events tasks, ∃ few : (events ++ data.fixedEvents).length ≤ 100,
      events.map (·.value) = (pagedEvents zoneInfo store user data).map (·.value) ∧
      PreviewSound (zoneInfo user.timezone) (data.withEvents (events ++ data.fixedEvents) few)
        tasks now preview ∧
      preview.fixedEvents = sortEvents (events ++ data.fixedEvents) := by
  obtain ⟨-, tasks, preferences, events, few, -, hevents, hpreview⟩ := previewSchedule_stages h
  refine ⟨events, tasks, few, values_of_listed hevents, buildPreview_sound hpreview, ?_⟩
  obtain ⟨p, state, -, -, -, -, -, -, hfixed, -⟩ := buildPreview_ok hpreview
  exact hfixed

/-- The horizon of a preview is the range the page was read for. -/
theorem mem_meetingEvents {events : List FixedEvent} {tasks : List TaskRecord}
    {preview : PlanPreview} {few : (events ++ data.fixedEvents).length ≤ 100}
    (sound : PreviewSound (zoneInfo user.timezone)
      (data.withEvents (events ++ data.fixedEvents) few) tasks now preview) {row : FixedEventRow} :
    row ∈ meetingEvents zoneInfo store user data ↔
      row ∈ store.events ∧ row.userId = user.id ∧
        preview.horizon.start < row.stop ∧ row.start < preview.horizon.stop := by
  unfold meetingEvents
  rw [mem_overlapping, sound.horizon.1, sound.horizon.2]
  rfl

theorem honours_of_pageCovers {preview : PlanPreview}
    (h : previewSchedule zoneInfo store user data slotFree now = .ok preview)
    (covers : PageCovers zoneInfo store user data) :
    preview.Honours store user.id := by
  obtain ⟨events, tasks, few, hvalues, sound, hfixed⟩ := previewSchedule_ok h
  intro row hrow hmeets
  have hlisted := covers row ((mem_meetingEvents sound).mpr ⟨hrow, hmeets⟩)
  rw [← hvalues] at hlisted
  obtain ⟨event, hevent, hvalue⟩ := List.mem_map.mp hlisted
  have hmerged : event ∈ events ++ data.fixedEvents := List.mem_append_left _ hevent
  refine ⟨?_, fun block hb => ?_⟩
  · rw [hfixed, ← hvalue]
    exact List.mem_map_of_mem (mem_sortBy.mpr hmerged)
  · have hapart := sound.eventsApart block hb event hmerged
    simp only [FixedEvent.value, FixedEventCreate.value, Prod.mk.injEq] at hvalue
    unfold TimeWindow.Apart at hapart
    unfold FixedEventRow.Clear
    omega

/-- A full page leaves no room for events of the request, so an event it misses
is missing from the preview. -/
theorem pageCovers_of_honours {preview : PlanPreview}
    (h : previewSchedule zoneInfo store user data slotFree now = .ok preview)
    (honours : preview.Honours store user.id) : PageCovers zoneInfo store user data := by
  obtain ⟨events, tasks, few, hvalues, sound, hfixed⟩ := previewSchedule_ok h
  intro row hrow
  obtain ⟨hmem, hmeets⟩ := (mem_meetingEvents sound).mp hrow
  have hin := (honours row hmem hmeets).1
  rw [hfixed] at hin
  obtain ⟨event, hevent, hvalue⟩ := List.mem_map.mp hin
  rcases List.mem_append.mp (mem_sortBy.mp hevent) with hevent | hown
  · rw [← hvalues, ← hvalue]
    exact List.mem_map_of_mem hevent
  · have hcount := congrArg List.length hvalues
    have hroom := List.length_pos_of_mem hown
    rw [List.length_append] at few
    unfold pagedEvents at hcount ⊢
    rw [List.length_map, List.length_map, planningEvents_eq, List.length_take] at hcount
    rw [planningEvents_eq, List.take_of_length_le (by omega)]
    exact List.mem_map_of_mem hrow

/-- A returned preview shows that the years are supported. -/
theorem pageSupported_of_preview {preview : PlanPreview}
    (h : previewSchedule zoneInfo store user data slotFree now = .ok preview) :
    PageSupported zoneInfo store user data := by
  obtain ⟨-, tasks, preferences, events, few, -, hevents, hpreview⟩ := previewSchedule_stages h
  have sound := buildPreview_sound hpreview
  refine ⟨listedSupported_iff.mpr ⟨events, hevents⟩, ?_, ?_⟩
  · have hstart := preview.horizon.windowValid.1.1
    rwa [sound.horizon.1] at hstart
  · have hstop := preview.horizon.windowValid.2.1.1
    rwa [sound.horizon.2] at hstop

/-- A returned preview shows that the planner took the request. -/
theorem plannable_of_preview {preview : PlanPreview}
    (h : previewSchedule zoneInfo store user data slotFree now = .ok preview) :
    slotFree = true ∧ InputsPresent store user data ∧
      Plannable zoneInfo store user data now := by
  obtain ⟨hslot, tasks, preferences, events, few, hinputs, hevents, hpreview⟩ :=
    previewSchedule_stages h
  obtain ⟨p, state, hinit, locksOk, -⟩ := buildPreview_ok hpreview
  have snapshot : SnapshotMatches (data.withEvents (events ++ data.fixedEvents) few).taskIds
      tasks := Repository.planningInputs_ok hinputs
  have ok := (requestOk_iff _ snapshot).mpr ⟨p, hinit, locksOk⟩
  exact ⟨hslot, (Repository.planningInputs_selected hinputs).1,
    (plannable_iff hinputs hevents).mpr ⟨few, ok⟩⟩

/-- A request that passes the checks in supported years, or fails one, is not
answered with another error. -/
theorem previewSchedule_refuses (valid : SourcesValid store)
    (condition : slotFree = true → InputsPresent store user data →
      ListedSupported zoneInfo store user data ∧
      (Plannable zoneInfo store user data now → HorizonSupported zoneInfo user data)) :
    Raises Refusal (previewSchedule zoneInfo store user data slotFree now) := by
  cases slotFree with
  | false => exact raises_error ⟨_, rfl⟩
  | true =>
      cases hinputs : Repository.planningInputs store user.id data.taskIds with
      | error e =>
          have refused := Repository.raises_planningInputs valid _ _ e hinputs
          unfold previewSchedule
          rw [hinputs]
          exact raises_error refused
      | ok inputs =>
          obtain ⟨tasks, preferences⟩ := inputs
          have present := (Repository.planningInputs_selected hinputs).1
          obtain ⟨listed, horizon⟩ := condition rfl present
          obtain ⟨events, hevents⟩ := listedSupported_iff.mp listed
          rw [previewSchedule_eq hinputs hevents]
          split
          · next few =>
              have snapshot : SnapshotMatches
                  (data.withEvents (events ++ data.fixedEvents) few).taskIds tasks :=
                Repository.planningInputs_ok hinputs
              by_cases ok : RequestOk (zoneInfo user.timezone)
                  (data.withEvents (events ++ data.fixedEvents) few) tasks now
              · have years := horizon ((plannable_iff hinputs hevents).mpr ⟨few, ok⟩)
                exact raises_buildPreview snapshot years.1 years.2
              · obtain ⟨error, h⟩ := buildPreview_refused snapshot ok
                rw [h]
                exact raises_error ⟨error, rfl⟩
          · exact raises_error ⟨_, rfl⟩

/-- In supported years every failure is a refusal. -/
theorem raises_previewSchedule (valid : SourcesValid store)
    (supported : PageSupported zoneInfo store user data) :
    Raises Refusal (previewSchedule zoneInfo store user data slotFree now) :=
  previewSchedule_refuses valid fun _ _ => ⟨supported.1, fun _ => supported.2⟩

/-- Up to a hundred events fit the page. -/
theorem pageCovers_of_few (few : (meetingEvents zoneInfo store user data).length ≤ 100) :
    PageCovers zoneInfo store user data := by
  intro row hrow
  unfold meetingEvents at few hrow
  unfold pagedEvents
  rw [planningEvents_eq, List.take_of_length_le few]
  exact List.mem_map_of_mem hrow

end

/-- In every reachable store the service respects the stored events or refuses
exactly if, on a request that finds a slot and its inputs, the listed events lie
in supported years and a planner that takes the request has a page that misses
nothing and a horizon in such years. -/
theorem previewSchedule_respects_iff (zoneInfo : String → Zone) (commands : List Command)
    (user : UserRow) (data : PreviewRequest) (slotFree : Bool) (now : Int) :
    Respects (reached zoneInfo commands) user.id
        (previewSchedule zoneInfo (reached zoneInfo commands) user data slotFree now) ↔
      (slotFree = true → InputsPresent (reached zoneInfo commands) user data →
        ListedSupported zoneInfo (reached zoneInfo commands) user data ∧
        (Plannable zoneInfo (reached zoneInfo commands) user data now →
          HorizonSupported zoneInfo user data ∧
          PageCovers zoneInfo (reached zoneInfo commands) user data)) := by
  have valid := (storeOk_reached zoneInfo commands).sources
  generalize reached zoneInfo commands = store at valid ⊢
  constructor
  · rintro respects rfl present
    obtain ⟨⟨tasks, preferences⟩, hinputs⟩ := Repository.planningInputs_total valid present
    have listed : ListedSupported zoneInfo store user data := by
      by_contra unlisted
      rw [previewSchedule_unlisted hinputs unlisted] at respects
      exact not_refusal_validation respects
    obtain ⟨events, hevents⟩ := listedSupported_iff.mp listed
    refine ⟨listed, fun plannable => ?_⟩
    cases hresult : previewSchedule zoneInfo store user data true now with
    | ok preview =>
        rw [hresult] at respects
        exact ⟨(pageSupported_of_preview hresult).2, pageCovers_of_honours hresult respects⟩
    | error e =>
        rw [hresult] at respects
        obtain ⟨few, ok⟩ := (plannable_iff hinputs hevents).mp plannable
        rw [previewSchedule_eq hinputs hevents, dif_pos few] at hresult
        have snapshot : SnapshotMatches
            (data.withEvents (events ++ data.fixedEvents) few).taskIds tasks :=
          Repository.planningInputs_ok hinputs
        rw [raises_taken snapshot ok e hresult] at respects
        exact absurd respects not_refusal_validation
  · intro condition
    cases hresult : previewSchedule zoneInfo store user data slotFree now with
    | ok preview =>
        obtain ⟨hslot, present, plannable⟩ := plannable_of_preview hresult
        exact honours_of_pageCovers hresult ((condition hslot present).2 plannable).2
    | error e =>
        exact previewSchedule_refuses valid (fun hslot present =>
          ⟨(condition hslot present).1, fun plannable => ((condition hslot present).2 plannable).1⟩)
          e hresult

def student : UserRow := ⟨1, "student", "UTC", 0⟩

/-- The essay on that Monday, offered this time. -/
def mondayRequest (slot : TimeWindow) : PreviewRequest where
  startDate := lectureDay
  days := 1
  taskIds := [1]
  availability := [slot]
  fixedEvents := []
  planningValid := by simp [lectureDay]
  previousBlocks := []
  previousValid := by simp

theorem previewSchedule_respects_lecture :
    ∃ preview, previewSchedule (fun _ => Zone.utc) (reached (fun _ => Zone.utc) lectureRun) student
        (mondayRequest ⟨lectureTime 570, lectureTime 690, by decide⟩) true (lectureTime 480) =
          .ok preview ∧
      preview.blocks ≠ [] ∧ preview.Honours (reached (fun _ => Zone.utc) lectureRun) student.id := by
  have returned : okAnd (previewSchedule (fun _ => Zone.utc)
      (reached (fun _ => Zone.utc) lectureRun) student
      (mondayRequest ⟨lectureTime 570, lectureTime 690, by decide⟩) true (lectureTime 480))
      (fun preview => decide (preview.blocks ≠ [])) = true := by
    decide +kernel
  have few : (meetingEvents (fun _ => Zone.utc) (reached (fun _ => Zone.utc) lectureRun) student
      (mondayRequest ⟨lectureTime 570, lectureTime 690, by decide⟩)).length ≤ 100 := by
    decide +kernel
  have supported : PageSupported (fun _ => Zone.utc) (reached (fun _ => Zone.utc) lectureRun)
      student (mondayRequest ⟨lectureTime 570, lectureTime 690, by decide⟩) := by
    unfold PageSupported ListedSupported HorizonSupported
    decide +kernel
  obtain ⟨preview, h, hblocks⟩ := exists_of_okAnd returned
  have exactly := previewSchedule_respects_iff (fun _ => Zone.utc) lectureRun student
    (mondayRequest ⟨lectureTime 570, lectureTime 690, by decide⟩) true (lectureTime 480)
  rw [h] at exactly
  have honours := exactly.mpr fun _ _ =>
    ⟨supported.1, fun _ => ⟨supported.2, pageCovers_of_few few⟩⟩
  exact ⟨preview, h, of_decide_eq_true hblocks, honours⟩

/-- One minute of a crowded day. -/
def minuteEvent (k : Nat) : FixedEventCreate where
  title := "lecture"
  start := lectureTime k
  stop := lectureTime (k + 1)
  eventValid := by
    simp only [EventValid, lectureTime, Zone.dayStart, Zone.utc, lectureDay, minute]
    refine ⟨by decide, ?_, ?_, ?_⟩ <;> omega

def minuteTask : TaskCreate where
  toTaskFields := { essay.toTaskFields with
    durationMinutes := 1
    earliestStart := some (lectureTime 100)
    deadline := some (lectureTime 101) }
  clientRequestId := 1
  valid := by decide

/-- A task of one minute and a hundred and one events, one after the other. -/
def crowdedRun : List Command :=
  [.register 1 "student" "UTC" 0, .createTask 1 minuteTask 1 0] ++
    (List.range 101).map fun k => .createEvent 1 (minuteEvent k) (100 + k) 0

/-- The last event is off the page, and the planner puts the task on it. -/
theorem previewSchedule_crowded_overlap :
    ∃ preview, previewSchedule (fun _ => Zone.utc) (reached (fun _ => Zone.utc) crowdedRun) student
        (mondayRequest ⟨lectureTime 60, lectureTime 120, by decide⟩) true (lectureTime 0) =
          .ok preview ∧
      ¬ preview.Honours (reached (fun _ => Zone.utc) crowdedRun) student.id ∧
      ∃ row ∈ (reached (fun _ => Zone.utc) crowdedRun).events.rows, row.userId = student.id ∧
        ∃ block ∈ preview.blocks, ¬ row.Clear block.toTimeWindow := by
  have returned : okAnd (previewSchedule (fun _ => Zone.utc)
      (reached (fun _ => Zone.utc) crowdedRun) student
      (mondayRequest ⟨lectureTime 60, lectureTime 120, by decide⟩) true (lectureTime 0))
      (fun preview => decide (
        ¬ preview.Honours (reached (fun _ => Zone.utc) crowdedRun) student.id ∧
        ∃ row ∈ (reached (fun _ => Zone.utc) crowdedRun).events.rows, row.userId = student.id ∧
          ∃ block ∈ preview.blocks, ¬ row.Clear block.toTimeWindow)) = true := by
    decide +kernel
  obtain ⟨preview, h, hmissed⟩ := exists_of_okAnd returned
  exact ⟨preview, h, of_decide_eq_true hmissed⟩

end SmartPlanner

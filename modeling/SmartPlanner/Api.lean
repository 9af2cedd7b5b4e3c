import SmartPlanner.FixedEventRepository
import SmartPlanner.LayoutInspection
import SmartPlanner.Repository

/-!
`preview_schedule` of `api.py`: a preview for the signed-in account, around the
commitments it has stored. `slotFree` is the answer of the planning semaphore
and `now` the clock of the process.
-/

namespace SmartPlanner

open Outcome Sorting Tables

namespace AppError

def plannerBusy : AppError :=
  ⟨429, .plannerBusy, "برنامه‌ریز مشغول است؛ کمی بعد دوباره تلاش کنید."⟩

def tooManyFixedEvents : AppError :=
  ⟨422, .tooManyFixedEvents, "تعداد تعهدهای ثابت در این بازه بیش از حد مجاز است."⟩

end AppError

/-- `data.model_copy(update={"fixed_events": ...})`. -/
def PreviewRequest.withEvents (data : PreviewRequest) (events : List FixedEvent)
    (few : events.length ≤ 100) : PreviewRequest where
  startDate := data.startDate
  days := data.days
  taskIds := data.taskIds
  availability := data.availability
  fixedEvents := events
  planningValid := by
    obtain ⟨hdate, hdays, hids, hcount, hslots, -⟩ := data.planningValid
    exact ⟨hdate, hdays, hids, hcount, hslots, few⟩
  previousBlocks := data.previousBlocks
  previousValid := data.previousValid

/-- `FixedEvent(title=event.title, start=event.start, end=event.end)`. -/
def FixedEventCreate.planned (event : FixedEventCreate) : Except PyError FixedEvent :=
  FixedEvent.make event.title event.start event.stop

def previewSchedule (zoneInfo : String → Zone) (store : Store) (user : UserRow)
    (data : PreviewRequest) (slotFree : Bool) (now : Int) : Except PyError PlanPreview := do
  raiseIf (slotFree = false) (.app .plannerBusy)
  let (tasks, preferences) ← Repository.planningInputs store user.id data.taskIds
  let stored := FixedEventRepository.planningEvents store user.id
    (data.horizonStart (zoneInfo user.timezone)) (data.horizonStop (zoneInfo user.timezone))
  let storedEvents ← stored.mapM fun event => event.planned
  if few : (storedEvents ++ data.fixedEvents).length ≤ 100 then
    buildPreview zoneInfo (data.withEvents (storedEvents ++ data.fixedEvents) few) tasks
      preferences.toPreferenceValues user.timezone now preferences.version maxCandidates
  else .error (.app .tooManyFixedEvents)

/-- The three values that a planned event copies of a stored one. -/
def FixedEventCreate.value (event : FixedEventCreate) : String × Int × Int :=
  (event.title, event.start, event.stop)

def FixedEvent.value (event : FixedEvent) : String × Int × Int :=
  (event.title, event.start, event.stop)

theorem FixedEventCreate.planned_ok {event : FixedEventCreate} {planned : FixedEvent} :
    event.planned = .ok planned ↔ planned.value = event.value := by
  unfold FixedEventCreate.planned FixedEvent.make FixedEvent.value FixedEventCreate.value
  constructor
  · intro h
    split at h
    · cases h
      rfl
    · contradiction
  · intro h
    rw [Prod.mk.injEq, Prod.mk.injEq] at h
    obtain ⟨htitle, hstart, hstop⟩ := h
    rw [← htitle, ← hstart, ← hstop, dif_pos ⟨planned.titleValid, planned.windowValid⟩]

/-- Only the years can keep a stored event out of the plan. -/
theorem FixedEventCreate.planned_total {event : FixedEventCreate}
    (start : SupportedYear event.start) (stop : SupportedYear event.stop) :
    ∃ planned, event.planned = .ok planned := by
  obtain ⟨htitle, hlt, hstart, hstop⟩ := event.eventValid
  unfold FixedEventCreate.planned FixedEvent.make
  rw [dif_pos ⟨htitle, ⟨start, hstart⟩, ⟨stop, hstop⟩, hlt⟩]
  exact ⟨_, rfl⟩

namespace Repository
variable {store : Store} {owner : UUID} {taskIds : List UUID}

/-- The selected records are the rows that carry the requested ids. -/
theorem planningInputs_ok {tasks : List TaskRecord} {preferences : PreferenceRecord}
    (h : planningInputs store owner taskIds = .ok (tasks, preferences)) :
    SnapshotMatches taskIds tasks := by
  unfold planningInputs at h
  simp only [bind_ok, pure_eq_ok, Except.ok.injEq, Prod.mk.injEq, raiseIf_ok] at h
  obtain ⟨record, -, -, hcount, found, hfound, rfl, -⟩ := h
  rw [not_not] at hcount
  have ids : found.map (·.id) = List.map (fun row : TaskRow => row.id) _ :=
    map_eq_of_mapM_ok (fun row task h => by rw [TaskRecord.modelValidate_ok.mp h]) hfound
  have nodup : (found.map (·.id)).Nodup := by
    rw [ids]
    exact ((sortBy_perm _ _).map _).nodup_iff.mpr (store.tasks.select_distinct _)
  have selected : ∀ id ∈ found.map (·.id), id ∈ taskIds := by
    rw [ids]
    intro id hid
    obtain ⟨row, hrow, rfl⟩ := List.mem_map.mp hid
    rw [mem_sortBy, Table.mem_select] at hrow
    simp only [Bool.and_eq_true, decide_eq_true_eq] at hrow
    exact hrow.2.1.2
  have all : (found.map (·.id)).Perm taskIds := by
    refine (List.subperm_of_subset nodup selected).perm_of_length_le ?_
    rw [ids, List.length_map, hcount]
  exact ⟨nodup, fun task ht => selected _ (List.mem_map_of_mem ht),
    fun id hid => all.mem_iff.mpr hid⟩

end Repository

end SmartPlanner
